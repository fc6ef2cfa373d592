import Scorebook.Header

/-!
# Databases written down plainly

The simplest way to write games down: every tag on a line of its own, an empty line, the movetext on
one line, and an empty line again. `WrittenTag` and `WrittenGame` are what can be written this way;
they carry the conditions under which it is understood, so that a list of games needs no others.
-/

namespace Scorebook

/-- A value with its backslashes and quotes escaped. -/
def escape : List UInt8 → List UInt8
  | [] => []
  | b :: rest => if Text.isEscapable b then Byte.backslash :: b :: escape rest else b :: escape rest

/-- Escaping adds no bytes but backslashes. -/
theorem mem_of_mem_escape {b : UInt8} {value : List UInt8} (h : b ∈ escape value) :
    b ∈ value ∨ b = Byte.backslash := by
  induction value with
  | nil => cases h
  | cons c rest ih =>
    unfold escape at h
    split at h
    · rcases List.mem_cons.1 h with rfl | h
      · exact .inr rfl
      · rcases List.mem_cons.1 h with rfl | h
        · exact .inl List.mem_cons_self
        · exact (ih h).imp_left (List.mem_cons_of_mem c)
    · rcases List.mem_cons.1 h with rfl | h
      · exact .inl List.mem_cons_self
      · exact (ih h).imp_left (List.mem_cons_of_mem c)

/-- Only a backslash escapes. -/
theorem unescape_cons {b : UInt8} (hb : b ≠ Byte.backslash) (rest : List UInt8) :
    unescape (b :: rest) = b :: unescape rest := by
  rw [unescape]
  · rintro _ rfl
    exact absurd rfl hb
  · rintro _ rfl
    exact absurd rfl hb

/-- Escaping a value is undone by reading it. -/
theorem unescape_escape (value : List UInt8) : unescape (escape value) = value := by
  induction value with
  | nil => rfl
  | cons b rest ih =>
    unfold escape
    split
    · next hescape =>
      rcases Bool.or_eq_true_iff.1 hescape with hb | hb
      · rw [beq_iff_eq.1 hb]
        exact congrArg (Byte.backslash :: ·) ih
      · rw [beq_iff_eq.1 hb]
        exact congrArg (Byte.quote :: ·) ih
    · next hplain =>
      have hb : b ≠ Byte.backslash := by
        rintro rfl
        exact hplain rfl
      rw [unescape_cons hb, ih]

/-- A tag with a short name and a value without control characters. -/
structure WrittenTag where
  name : List UInt8
  value : List UInt8
  name_ne : name ≠ []
  /-- The lookahead for headers does not see much further. -/
  name_length : name.length ≤ 200
  isName : ∀ b ∈ name, Byte.isName b = true
  printable : ∀ b ∈ value, Byte.space ≤ b ∧ b ≠ Byte.delete

namespace WrittenTag

/-- The tag as it is written. -/
def write (tag : WrittenTag) : List UInt8 :=
  Byte.openBracket :: tag.name ++ Byte.space :: Byte.quote :: escape tag.value ++
    [Byte.quote, Byte.closeBracket]

/-- The tag as it should be read. -/
def pair (tag : WrittenTag) : TagPair :=
  ⟨String.ofList (latin1 tag.name), decode tag.value.toByteArray⟩

end WrittenTag

/-- A game with tags and one line of ASCII movetext that holds no comment and no bracket. -/
structure WrittenGame where
  tags : List WrittenTag
  movetext : List UInt8
  tags_ne : tags ≠ []
  movetext_ne : movetext ≠ []
  printable : ∀ b ∈ movetext, Byte.space ≤ b ∧ b < Byte.delete
  unmarked : ∀ b ∈ movetext,
    b ≠ Byte.openBracket ∧ b ≠ Byte.openBrace ∧ b ≠ Byte.semicolon ∧ b ≠ Byte.percent
  head_ne : movetext.head? ≠ some Byte.space
  last_ne : movetext.getLast? ≠ some Byte.space

namespace WrittenGame

/-- These lines, each with its line feed. -/
def lines (ls : List (List UInt8)) : List UInt8 :=
  ls.flatMap (· ++ [Byte.newline])

/-- The tag lines of the game. -/
def header (g : WrittenGame) : List UInt8 :=
  lines (g.tags.map WrittenTag.write)

/-- The game as it is written. -/
def write (g : WrittenGame) : List UInt8 :=
  lines (g.tags.map WrittenTag.write ++ [[], g.movetext, []])

/-- Where the tags lie if the game is written from `start` on: from the first bracket to the
last. -/
def tagSpan (g : WrittenGame) (start : Nat) : Span :=
  ⟨start, start + g.header.length - 1⟩

/-- Where the movetext lies if the game is written from `start` on. -/
def movetextSpan (g : WrittenGame) (start : Nat) : Span :=
  ⟨start + g.header.length + 1, start + g.header.length + 1 + g.movetext.length⟩

/-- A database of these games. -/
def writeAll (games : List WrittenGame) : List UInt8 :=
  games.flatMap write

end WrittenGame

end Scorebook
