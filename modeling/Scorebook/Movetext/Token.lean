import Scorebook.Gap
import Scorebook.Nag
import Scorebook.Outcome
import Scorebook.San
import Scorebook.Text.Decoding

/-!
# The tokens of movetext

Movetext is a sequence of tokens with gaps between them. `Text.tokenAt` reads the token at one
place, and `Text.lexemes` reads a whole text into its comments, tokens and open ends in document
order. What a token means for the game is decided later: here parentheses are not matched, and a
termination marker does not end anything.

Moves are checked as soon as they are read, because a glyph may be written directly behind a move
(`e4+-`) and only the notation tells where the move ends.
-/

namespace Scorebook

/-- The tokens of movetext. -/
inductive Token
  /-- A move number, with any dots behind it. -/
  | number (n : Nat)
  /-- A move as written, and whether it is in algebraic notation. -/
  | san (text : String) (wellFormed : Bool)
  | nag (nag : Nag)
  /-- Something that looks like a glyph and is none. -/
  | badNag
  | opening
  | closing
  | marker (outcome : Outcome)
  /-- Something that looks like a termination marker and is none. -/
  | badMarker
  | unexpected
deriving DecidableEq, Repr

/-- What movetext consists of, in document order. -/
inductive Lexeme
  /-- A comment: its body, and the body's text without blanks at the ends. -/
  | comment (body : Span) (text : String)
  /-- A comment or escaped line that is never ended. -/
  | openEnd (problem : Problem)
  | token (token : Token) (span : Span)
deriving Repr

namespace Text

/-! ## Words -/

/-- The bytes that end a word of movetext. -/
def endsWord (b : UInt8) : Bool :=
  Byte.isBlank b || b == Byte.openBrace || b == Byte.closeBrace || b == Byte.openParen ||
    b == Byte.closeParen || b == Byte.exclamation || b == Byte.question || b == Byte.dollar ||
    b == Byte.semicolon || b == Byte.dot || b == Byte.openBracket

/-- Is this word a move? -/
def isMove (word : List UInt8) : Bool :=
  San.isMove (latin1 word)

/-- The length of the shortest symbol that ends the word and has a move in front of it. -/
def trailingSymbol? (word : List UInt8) : Option Nat :=
  Nag.symbolLengths.find? fun n =>
    n < word.length && Nag.isSymbol (word.drop (word.length - n)) &&
      isMove (word.take (word.length - n))

/-- Reads the move at `pos`. A word that is no move as a whole may be a move with a glyph behind
it. -/
def moveAt (t : Text) (pos : Nat) : Token × Nat :=
  let stop := t.seek endsWord pos
  let word := t.word ⟨pos, stop⟩
  if isMove word then (.san (t.read ⟨pos, stop⟩) true, stop)
  else
    match trailingSymbol? word with
    | some n => (.san (t.read ⟨pos, stop - n⟩) true, stop - n)
    | none => (.san (t.read ⟨pos, stop⟩) false, stop)

/-- The bound of move numbers. -/
def numberBound : Nat := 0x100000000

/-- Reads what starts with a digit at `pos`: a termination marker, castling with zeros, or a move
number. -/
def numeralAt (t : Text) (pos : Nat) : Token × Nat :=
  let stop := t.seek endsWord pos
  let word := t.word ⟨pos, stop⟩
  match Outcome.ofText? (latin1 word) with
  | some outcome => (.marker outcome, stop)
  | none =>
    -- Castling written with zeros starts like a number and is a move.
    if San.startsWithZeroCastling (latin1 word) then t.moveAt pos
    else if word.all Byte.isDigit then
      let token :=
        match Decimal.parse? numberBound word with
        | some n => .number n
        | none => .unexpected
      (token, t.seek (· != Byte.dot) stop)
    else if word.all fun b => Byte.isDigit b || b == Byte.minus || b == Byte.slash then
      (.badMarker, stop)
    else (.unexpected, stop)

/-- The bytes a glyph that is not known may start with. -/
def startsSymbol (b : UInt8) : Bool :=
  b == Byte.exclamation || b == Byte.question || b == Byte.plus || b == Byte.minus ||
    b == Byte.equals || b == Byte.slash || b == Byte.tilde

/-- As many bytes as the longest symbol has. -/
def symbolReach : Nat := 3

/-- Reads what starts with a byte of no other meaning at `pos`: a symbol, a null move, or nothing
known. -/
def symbolAt (t : Text) (pos : Nat) (first : UInt8) : Token × Nat :=
  match Nag.symbolAt? (t.word ⟨pos, pos + symbolReach⟩) with
  | some (nag, length) => (.nag nag, pos + length)
  | none =>
    let stop := t.seek endsWord (pos + 1)
    if t.word ⟨pos, stop⟩ = [Byte.minus, Byte.minus] then (.san (t.read ⟨pos, stop⟩) true, stop)
    else if startsSymbol first then (.badNag, stop)
    else (.unexpected, stop)

/-- Reads a numeric glyph, whose dollar sign is at `pos`. -/
def nagAt (t : Text) (pos : Nat) : Token × Nat :=
  let stop := t.seek endsWord (pos + 1)
  match Nag.ofBytes? (t.word ⟨pos, stop⟩) with
  | some nag => (.nag nag, stop)
  | none => (.badNag, stop)

/-- Reads the token at `pos`, where its first byte is: the token and where it ends. -/
def tokenAt (t : Text) (pos : Nat) (first : UInt8) : Token × Nat :=
  if first = Byte.openParen then (.opening, pos + 1)
  else if first = Byte.closeParen then (.closing, pos + 1)
  else if first = Byte.star then (.marker .undefined, pos + 1)
  else if first = Byte.dollar then t.nagAt pos
  else if Byte.isDigit first then t.numeralAt pos
  else if Byte.isLetter first || first == Byte.atSign then t.moveAt pos
  else t.symbolAt pos first

/-! ## Progress -/

/-- Reading a move moves on. -/
theorem lt_moveAt {t : Text} {pos : Nat} {b : UInt8} (hb : t[pos]? = some b)
    (hword : endsWord b = false) : pos < (t.moveAt pos).2 := by
  have hlt := lt_seek hb hword
  unfold moveAt
  simp only
  split
  · exact hlt
  · split
    · next n hn =>
      have hlen := List.find?_some hn
      simp only [Bool.and_eq_true, decide_eq_true_eq, length_word] at hlen
      dsimp only
      omega
    · exact hlt

/-- Reading a numeral moves on. -/
theorem lt_numeralAt {t : Text} {pos : Nat} {b : UInt8} (hb : t[pos]? = some b)
    (hword : endsWord b = false) : pos < (t.numeralAt pos).2 := by
  have hlt := lt_seek hb hword
  unfold numeralAt
  simp only
  split
  · exact hlt
  · split
    · exact lt_moveAt hb hword
    · split
      · exact Nat.lt_of_lt_of_le hlt (le_seek (seek_le_size ..))
      · split <;> exact hlt

/-- Reading a symbol moves on, even if it is not one. -/
theorem lt_symbolAt {t : Text} {pos : Nat} (first : UInt8) (h : pos < t.size) :
    pos < (t.symbolAt pos first).2 := by
  have hle : pos + 1 ≤ t.seek endsWord (pos + 1) := le_seek h
  unfold symbolAt
  split
  · next nag n hn =>
    have := (Nag.le_length_of_symbolAt? hn).1
    dsimp only
    omega
  · simp only
    split
    · exact hle
    · split <;> exact hle

/-- Reading a glyph behind its sign moves on. -/
theorem lt_nagAt {t : Text} {pos : Nat} (h : pos < t.size) : pos < (t.nagAt pos).2 := by
  have hle : pos + 1 ≤ t.seek endsWord (pos + 1) := le_seek h
  unfold nagAt
  simp only
  split <;> exact hle

/-- Digits go on with a word. -/
theorem endsWord_of_isDigit {b : UInt8} : Byte.isDigit b = true → endsWord b = false :=
  Byte.forall_of_table (p := fun b => Byte.isDigit b = true → endsWord b = false)
    (by decide +kernel) b

/-- Letters go on with a word, and so does the at sign of a drop. -/
theorem endsWord_of_isLetter {b : UInt8} :
    (Byte.isLetter b || b == Byte.atSign) = true → endsWord b = false :=
  Byte.forall_of_table
    (p := fun b => (Byte.isLetter b || b == Byte.atSign) = true → endsWord b = false)
    (by decide +kernel) b

/-- A token is at least one byte long. -/
theorem lt_tokenAt {t : Text} {pos : Nat} {first : UInt8} (h : t[pos]? = some first) :
    pos < (t.tokenAt pos first).2 := by
  have hlt := lt_size_of_getElem? h
  unfold tokenAt
  split
  · exact Nat.lt_succ_self pos
  split
  · exact Nat.lt_succ_self pos
  split
  · exact Nat.lt_succ_self pos
  split
  · exact lt_nagAt hlt
  split
  · next hdigit => exact lt_numeralAt h (endsWord_of_isDigit hdigit)
  split
  · next hletter => exact lt_moveAt h (endsWord_of_isLetter hletter)
  · exact lt_symbolAt first hlt

/-! ## All lexemes of a text -/

/-- The lexemes of a gap. -/
def gapLexemes (t : Text) (gap : Gap) : Array Lexeme :=
  gap.comments.map (fun body => .comment body (t.readTrimmed body)) ++
    gap.problem?.toArray.map .openEnd

/-- Reads lexemes from `pos` on, behind those already read. -/
def lexemesFrom (t : Text) (pos : Nat) (lexemes : Array Lexeme) : Array Lexeme :=
  let gap := t.gap pos
  let lexemes := lexemes ++ t.gapLexemes gap
  match _h : t[gap.stop]? with
  | none => lexemes
  | some first =>
    let read := t.tokenAt gap.stop first
    t.lexemesFrom read.2 (lexemes.push (.token read.1 ⟨gap.stop, read.2⟩))
termination_by t.size - pos
decreasing_by
  have hlt := lt_size_of_getElem? _h
  have hle : pos ≤ gap.stop := le_gap_stop t pos
  have htoken : gap.stop < read.2 := lt_tokenAt _h
  show t.size - read.2 < t.size - pos
  omega

/-- The lexemes of a range, in document order. -/
def lexemes (t : Text) (s : Span) : List Lexeme :=
  ((t.upTo s.stop).lexemesFrom s.start #[]).toList

end Text

end Scorebook
