import Scorebook.Text.Decimal
import Scorebook.Nag.Table
import Scorebook.Text.Quoted

/-!
# Annotation glyphs

A move can carry numeric annotation glyphs, `$0` to `$255`. Some have a traditional symbol, which
may be written instead of the number and directly behind the move (`e4!?`). Here glyphs are read
from either spelling and written in one of three formats.
-/

namespace Scorebook

/-- A numeric annotation glyph. -/
structure Nag where
  code : UInt8
deriving DecidableEq, Repr, Inhabited

/-- How a glyph is written for people. -/
inductive NagFormat
  /-- The number: `$1`, `$2`. -/
  | numeric
  /-- The traditional symbol, or a description where there is none. -/
  | brief
  /-- A description in words. -/
  | detailed
deriving DecidableEq, Repr, Inhabited

/-- The format of this name. -/
def NagFormat.ofName? : String → Option NagFormat
  | "numeric" => some .numeric
  | "brief" => some .brief
  | "detailed" => some .detailed
  | _ => none

/-- What is said about a name that is no format's. -/
def NagFormat.unknown (name : String) : String :=
  "unknown NAG format " ++ Quoted.quote name

namespace Nag

/-! ## Reading -/

/-- The symbols as the bytes they are written with, each with its glyph. -/
def symbols : List (List UInt8 × Nag) :=
  NagTable.symbols.map fun (text, code) => (text.toUTF8.data.toList, ⟨code⟩)

/-- The glyph written so, by number or by symbol. -/
def ofBytes? : List UInt8 → Option Nag
  | Byte.dollar :: digits => (Decimal.parse? 256 digits).map fun n => ⟨UInt8.ofNat n⟩
  | bytes => symbols.lookup bytes

/-- Is this the whole of a symbol? -/
def isSymbol (bytes : List UInt8) : Bool :=
  (symbols.lookup bytes).isSome

/-- The lengths symbols have, in bytes, the shortest first. -/
def symbolLengths : List Nat := [1, 2, 3]

/-- The lengths of all symbols are among those that are tried. -/
theorem length_mem_symbolLengths : ∀ s ∈ symbols, s.1.length ∈ symbolLengths := by decide

/-- What is said about text that is no glyph. -/
def invalid : String := "invalid nag"

/-- The longest symbol that `bytes` starts with: its glyph and its length. -/
def symbolAt? (bytes : List UInt8) : Option (Nag × Nat) :=
  symbolLengths.reverse.findSome? fun n =>
    if n ≤ bytes.length then (symbols.lookup (bytes.take n)).map fun nag => (nag, n) else none

/-- A symbol that is found takes at least one byte, and no more than there are. -/
theorem le_length_of_symbolAt? {bytes : List UInt8} {nag : Nag} {n : Nat}
    (h : symbolAt? bytes = some (nag, n)) : 1 ≤ n ∧ n ≤ bytes.length := by
  obtain ⟨m, hm, hn⟩ := List.exists_of_findSome?_eq_some h
  split at hn
  · obtain ⟨_, _, heq⟩ := Option.map_eq_some_iff.1 hn
    cases heq
    refine ⟨?_, ‹_›⟩
    have : ∀ k ∈ symbolLengths.reverse, 1 ≤ k := by decide
    exact this n hm
  · cases hn

/-! ## Writing -/

/-- The glyph by number. -/
def numeral (nag : Nag) : String :=
  "$" ++ toString nag.code.toNat

/-- The description of the glyph. -/
def description (nag : Nag) : String :=
  NagTable.descriptions[nag.code.toNat]?.getD ("Reserved annotation " ++ nag.numeral)

/-- The glyph in the given format. -/
def render (nag : Nag) : NagFormat → String
  | .numeric => nag.numeral
  | .brief => (NagTable.briefs.lookup nag.code).getD nag.description
  | .detailed => nag.description

end Nag

end Scorebook
