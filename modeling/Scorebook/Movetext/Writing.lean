import Scorebook.Movetext.Tree

/-!
# Writing movetext

A line is written as words with single blanks between them: the leading comment in braces, then for
each move the move as it was written, its glyphs, its comment in braces and its alternatives in
parentheses. There is no blank inside a parenthesis, so a line without moves and comment is written
`()`. Move numbers are not written.

`Variation.write` does this with a list of steps still to be taken. Words are appended to the text
written so far, with a blank in front unless the text is empty or ends in an opening parenthesis.
-/

namespace Scorebook

/-- What is still to be written. -/
inductive WriteStep
  /-- The opening parenthesis of an alternative, and its leading comment. -/
  | enter (v : Variation)
  /-- Moves of the current line. -/
  | moves (ms : List Move)
  /-- The closing parenthesis of the current line. -/
  | leave

namespace WriteStep

/-- A measure that every step taken makes smaller. -/
def weight : WriteStep → Nat
  | enter _ => 1
  | moves ms => 1 + movesWeight ms
  | leave => 1

/-- The measure of several steps. -/
def totalWeight : List WriteStep → Nat
  | [] => 0
  | step :: rest => step.weight + totalWeight rest

/-- The steps that write an alternative in parentheses. -/
def branch (v : Variation) : List WriteStep :=
  [enter v, moves v.moves, leave]

/-- The alternatives to a move. -/
def alternatives (m : Move) : List WriteStep :=
  m.variations.flatMap branch

theorem totalWeight_append (xs ys : List WriteStep) :
    totalWeight (xs ++ ys) = totalWeight xs + totalWeight ys := by
  induction xs with
  | nil => rw [List.nil_append, totalWeight, Nat.zero_add]
  | cons step rest ih => rw [List.cons_append, totalWeight, totalWeight, ih, Nat.add_assoc]

/-- A line that is still to be written weighs as much as the line. -/
theorem totalWeight_branch (v : Variation) : totalWeight (branch v) = v.weight := by
  simp only [branch, totalWeight, weight, Variation.weight_eq]
  omega

/-- The alternatives to a move weigh as much as its variations. -/
theorem totalWeight_alternatives (m : Move) :
    totalWeight (alternatives m) = variationsWeight m.variations := by
  unfold alternatives
  induction m.variations with
  | nil => rfl
  | cons v vs ih =>
    rw [List.flatMap_cons, totalWeight_append, totalWeight_branch, variationsWeight, ih]

end WriteStep

namespace Variation

/-- Text written so far, and whether the next word needs a blank in front. -/
structure Page where
  text : String
  blank : Bool

namespace Page

/-- Writes a word. -/
def word (p : Page) (w : String) : Page :=
  ⟨if p.blank then p.text ++ " " ++ w else p.text ++ w, true⟩

/-- Writes a comment, if there is one. -/
def comment (p : Page) : Option String → Page
  | some text => p.word ("\x7b" ++ text ++ "\x7d")
  | none => p

/-- Opens a parenthesis, which no blank follows. -/
def enter (p : Page) : Page :=
  { p.word "(" with blank := false }

/-- Closes a parenthesis, which no blank precedes. -/
def leave (p : Page) : Page :=
  ⟨p.text ++ ")", true⟩

/-- Writes a move with its glyphs and its comment. -/
def move (p : Page) (format : NagFormat) (m : Move) : Page :=
  let p := p.word m.san
  let p := if m.nags.isEmpty then p
    else p.word (" ".intercalate (m.nags.toList.map (·.render format)))
  p.comment m.comment

end Page

/-- Takes the steps in order. -/
def writeSteps (format : NagFormat) (page : Page) (steps : List WriteStep) : Page :=
  match steps with
  | [] => page
  | .enter v :: rest => writeSteps format (page.enter.comment v.comment) rest
  | .leave :: rest => writeSteps format page.leave rest
  | .moves [] :: rest => writeSteps format page rest
  | .moves (m :: ms) :: rest =>
    writeSteps format (page.move format m)
      (WriteStep.alternatives m ++ .moves ms :: rest)
termination_by WriteStep.totalWeight steps
decreasing_by
  · simp only [WriteStep.totalWeight, WriteStep.weight]
    omega
  · simp only [WriteStep.totalWeight, WriteStep.weight]
    omega
  · simp only [WriteStep.totalWeight, WriteStep.weight]
    omega
  · rw [WriteStep.totalWeight_append, WriteStep.totalWeight_alternatives]
    simp only [WriteStep.totalWeight, WriteStep.weight, movesWeight,
      Move.weight_eq]
    omega

/-- The line as movetext, with its glyphs in the given format. -/
def write (v : Variation) (format : NagFormat) : String :=
  (writeSteps format (Page.comment ⟨"", false⟩ v.comment) [.moves v.moves]).text

end Variation

end Scorebook
