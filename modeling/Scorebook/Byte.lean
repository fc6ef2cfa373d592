/-!
# The bytes a score is written in

PGN is a format of bytes: every mark that structures it is a single ASCII byte, and text above
ASCII is carried along without being looked into. This module names the marks and says which bytes
are blanks, digits, letters and name bytes.
-/

namespace Scorebook

/-! ## Marks -/

namespace Byte

@[match_pattern] abbrev tab : UInt8 := 0x09
@[match_pattern] abbrev newline : UInt8 := 0x0a
@[match_pattern] abbrev verticalTab : UInt8 := 0x0b
@[match_pattern] abbrev formFeed : UInt8 := 0x0c
@[match_pattern] abbrev carriageReturn : UInt8 := 0x0d
@[match_pattern] abbrev space : UInt8 := 0x20
@[match_pattern] abbrev exclamation : UInt8 := 0x21
@[match_pattern] abbrev quote : UInt8 := 0x22
@[match_pattern] abbrev dollar : UInt8 := 0x24
@[match_pattern] abbrev percent : UInt8 := 0x25
@[match_pattern] abbrev openParen : UInt8 := 0x28
@[match_pattern] abbrev closeParen : UInt8 := 0x29
@[match_pattern] abbrev star : UInt8 := 0x2a
@[match_pattern] abbrev plus : UInt8 := 0x2b
@[match_pattern] abbrev minus : UInt8 := 0x2d
@[match_pattern] abbrev dot : UInt8 := 0x2e
@[match_pattern] abbrev slash : UInt8 := 0x2f
@[match_pattern] abbrev zero : UInt8 := 0x30
@[match_pattern] abbrev nine : UInt8 := 0x39
@[match_pattern] abbrev semicolon : UInt8 := 0x3b
@[match_pattern] abbrev equals : UInt8 := 0x3d
@[match_pattern] abbrev question : UInt8 := 0x3f
@[match_pattern] abbrev atSign : UInt8 := 0x40
@[match_pattern] abbrev openBracket : UInt8 := 0x5b
@[match_pattern] abbrev backslash : UInt8 := 0x5c
@[match_pattern] abbrev closeBracket : UInt8 := 0x5d
@[match_pattern] abbrev underscore : UInt8 := 0x5f
@[match_pattern] abbrev openBrace : UInt8 := 0x7b
@[match_pattern] abbrev closeBrace : UInt8 := 0x7d
@[match_pattern] abbrev tilde : UInt8 := 0x7e
@[match_pattern] abbrev delete : UInt8 := 0x7f

/-! ## Classes -/

/-- The blanks of the format: space, tab, line feed, vertical tab, form feed, carriage return. -/
def isBlank (b : UInt8) : Bool :=
  b == space || (tab ≤ b && b ≤ carriageReturn)

/-- The blanks that end a tag name: those of `isBlank` less the vertical tab. -/
def endsName (b : UInt8) : Bool :=
  isBlank b && b != verticalTab

/-- The bytes that end a line for the purpose of finding the first column. -/
def isLineBreak (b : UInt8) : Bool :=
  b == newline || b == carriageReturn

/-- An ASCII digit. -/
def isDigit (b : UInt8) : Bool :=
  zero ≤ b && b ≤ nine

/-- An ASCII letter of either case. -/
def isLetter (b : UInt8) : Bool :=
  (0x41 ≤ b && b ≤ 0x5a) || (0x61 ≤ b && b ≤ 0x7a)

/-- The bytes a tag name may consist of: letters, digits and the underscore. -/
def isName (b : UInt8) : Bool :=
  isLetter b || isDigit b || b == underscore

/-- The bytes a tag value may never hold: the ASCII control characters other than the tab. -/
def isForbidden (b : UInt8) : Bool :=
  (b < space && b != tab) || b == delete

/-- What holds of all 256 values holds of every byte. -/
theorem forall_of_table {p : UInt8 → Prop} (h : ∀ n : Fin 256, p (UInt8.ofNat n)) (b : UInt8) :
    p b := by
  have := h ⟨b.toNat, b.toNat_lt⟩
  simpa using this

end Byte

end Scorebook
