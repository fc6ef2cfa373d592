import Scorebook.Catalogue
import Scorebook.Movetext.Score
import Scorebook.Movetext.Writing

/-!
# Games

A game is read from the place the catalogue gives for it: its tag pairs, then its movetext. Reading
is a function of the bytes alone. The problems of a game are kept with it, so that checking it can
report them again; what a report leads to is decided by whoever reads the game.

The header is read from the bytes in front of the movetext only, as it was catalogued.
-/

namespace Scorebook

/-- A game read from a database. -/
structure Game where
  /-- The position in the database, from one. -/
  number : Nat
  entry : Entry
  /-- The bytes it was read from. -/
  buffer : Buffer
  /-- The tag pairs, in order. -/
  tags : List TagPair
  /-- The problems of the header, in order. -/
  headerProblems : List Problem
  score : Score

/-- How thoroughly to check a game. -/
inductive Depth
  /-- What cataloguing and reading the header found. -/
  | simple
  /-- The movetext as well; every problem is reported again. -/
  | deep
deriving DecidableEq, Repr

namespace Game

/-- Reads game `n`, which lies at `entry`. -/
def read (buffer : Buffer) (strict : Bool) (n : Nat) (entry : Entry) : Game :=
  let seen := buffer.text.upTo (max entry.movetext.start entry.tags.stop)
  let header := seen.header strict entry.tags.start
  { number := n
    entry
    buffer
    tags := header.tags.map (·.decode seen)
    headerProblems := header.problems
    score := buffer.text.score strict entry.movetext }

/-- All problems of the game, in the order they are found. -/
def problems (g : Game) : List Problem :=
  g.headerProblems ++ g.score.problems

/-! ## Tags -/

/-- The value of the first tag of this name. -/
def tag? (g : Game) (name : String) : Option String :=
  (g.tags.find? (·.name == name)).map TagPair.value

/-- The names of the seven tags every game should have. -/
def roster : List String :=
  ["Event", "Site", "Date", "Round", "White", "Black", "Result"]

/-- The outcome: that of the termination marker, or of the `Result` tag if there is no marker. -/
def outcome (g : Game) : Outcome :=
  match g.score.marker with
  | some (outcome, _) => outcome
  | none => ((g.tag? "Result").bind fun value => Outcome.ofText? value.toList).getD .undefined

/-! ## Movetext -/

/-- The movetext as written, without the termination marker. -/
def movetext (g : Game) : String :=
  let span := g.entry.movetext
  let stop := (g.score.marker.map fun (_, marker) => marker.start).getD span.stop
  g.buffer.text.readTrimmed ⟨span.start, stop⟩

/-- The text of one of the game's variations, as written. -/
def variationText (g : Game) (v : Variation) : String :=
  g.buffer.text.readTrimmed v.span

/-! ## Checking -/

/-- The first problem of the header, now or when it was catalogued. -/
def headerVerdict (g : Game) : Verdict :=
  g.entry.verdict.orElse (Verdict.ofProblems g.headerProblems)

/-- Checks the game. A deep check reports every problem; the answers to the reports do not
matter. -/
def check (g : Game) (depth : Depth) (r : Reporter) : Verdict × Reporter :=
  match depth with
  | .simple => (g.headerVerdict, r)
  | .deep => (g.headerVerdict.orElse g.score.verdict, r.mention g.buffer g.problems)

end Game

end Scorebook
