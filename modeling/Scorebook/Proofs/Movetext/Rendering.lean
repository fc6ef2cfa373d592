import Scorebook.Proofs.Movetext.Outline

/-!
# The text of a line, by recursion

What a line is written as can be said by recursion on its tree: items with single blanks between
them, where an item is a comment in braces, a move as it was written, the glyphs of a move, or an
alternative, and an alternative is the text of its line in parentheses. There is no blank at either
end of the text, so there is none inside a parenthesis, and a line without items leaves nothing
between its parentheses.

`Variation.write` has no recursion. It works off a list of steps, in which the opening, the moves
and the closing of every alternative wait one by one, and one flag says whether a blank is due.
That the steps of an alternative amount to a single word, whatever flag they start with, is all that
the two have in common (`Page.foldl_branch`).
-/

namespace Scorebook

/-! ## The text by recursion -/

/-- The comment in braces, if there is one. -/
def braced (comment : Option String) : List String :=
  (comment.map fun text => "\x7b" ++ text ++ "\x7d").toList

/-- The glyphs, if there are any, as one item. -/
def glyphItem (format : NagFormat) (nags : Array Nag) : List String :=
  if nags.isEmpty then [] else [" ".intercalate (nags.toList.map (·.render format))]

mutual

/-- The text of a line. -/
def Variation.rendering (format : NagFormat) : Variation → String
  | ⟨_, _, _, comment, moves, _⟩ => " ".intercalate (braced comment ++ movesItems format moves)

/-- The items of the moves of a line. -/
def movesItems (format : NagFormat) : List Move → List String
  | [] => []
  | m :: ms => m.items format ++ movesItems format ms

/-- The items of a move: the move, its glyphs, its comment and its alternatives. -/
def Move.items (format : NagFormat) : Move → List String
  | ⟨san, _, _, _, comment, nags, _, variations⟩ =>
    san :: (glyphItem format nags ++ braced comment ++ branchItems format variations)

/-- The alternatives to a move, each in parentheses. -/
def branchItems (format : NagFormat) : List Variation → List String
  | [] => []
  | v :: vs => ("(" ++ v.rendering format ++ ")") :: branchItems format vs

end

/-- A line is rendered as its comment and its moves, with blanks between them. -/
theorem Variation.rendering_eq (format : NagFormat) (v : Variation) :
    v.rendering format = " ".intercalate (braced v.comment ++ movesItems format v.moves) := by
  cases v
  rw [rendering]

/-- A move is rendered with its glyphs, its comment and its variations. -/
theorem Move.items_eq (format : NagFormat) (m : Move) :
    m.items format = m.san :: (glyphItem format m.nags ++ braced m.comment ++
      branchItems format m.variations) := by
  cases m
  rw [items]

namespace Variation

variable {format : NagFormat}

/-! ## Pages filled with items -/

namespace Page

/-- A comment is put on the page as one item, if there is one. -/
theorem comment_eq_foldl (p : Page) (text : Option String) :
    p.comment text = (braced text).foldl word p := by
  cases text <;> rfl

/-- A move is put on the page with its glyphs and its comment. -/
theorem move_eq_foldl (p : Page) (m : Move) :
    p.move format m = (m.san :: (glyphItem format m.nags ++ braced m.comment)).foldl word p := by
  rw [List.foldl_cons, List.foldl_append, ← comment_eq_foldl, move, glyphItem]
  cases m.nags.isEmpty <;> rfl

/-- Items on an empty page have blanks between them only. -/
theorem text_foldl_word (items : List String) :
    (items.foldl word ⟨"", false⟩).text = " ".intercalate items := by
  cases items with
  | nil => rfl
  | cons first rest =>
    rw [List.foldl_cons, ← word_intercalate]
    exact String.empty_append

/-- Items in parentheses are one word. -/
theorem leave_foldl_word_enter (p : Page) (items : List String) :
    (items.foldl word p.enter).leave = p.word ("(" ++ " ".intercalate items ++ ")") := by
  have hword (w : String) : (p.enter.word w).leave = p.word ("(" ++ w ++ ")") := by
    cases hblank : p.blank <;> simp [word, enter, leave, hblank, ← String.append_assoc]
  cases items with
  | nil =>
    rw [List.foldl_nil, String.intercalate_nil, ← hword ""]
    simp [word, enter, leave]
  | cons first rest => rw [List.foldl_cons, ← word_intercalate, hword]

/-! ## Steps -/

/-- What a step comes to: for moves, all the items of the moves. -/
def perform (format : NagFormat) (p : Page) : WriteStep → Page
  | .enter v => p.enter.comment v.comment
  | .moves ms => (movesItems format ms).foldl word p
  | .leave => p.leave

/-- The steps of an alternative come to one word. -/
theorem foldl_branch (p : Page) (v : Variation) :
    (WriteStep.branch v).foldl (perform format) p = p.word ("(" ++ v.rendering format ++ ")") := by
  rw [rendering_eq, ← leave_foldl_word_enter, List.foldl_append, ← comment_eq_foldl]
  rfl

/-- The alternatives to a move are put on the page as its branches. -/
theorem foldl_alternatives (p : Page) (m : Move) :
    (WriteStep.alternatives m).foldl (perform format) p =
      (branchItems format m.variations).foldl word p := by
  unfold WriteStep.alternatives
  induction m.variations generalizing p with
  | nil =>
    rw [branchItems]
    rfl
  | cons v vs ih =>
    rw [List.flatMap_cons, List.foldl_append, foldl_branch, ih, branchItems, List.foldl_cons]

/-- A move and its alternatives come to the items of the move. -/
theorem foldl_items (p : Page) (m : Move) :
    (m.items format).foldl word p =
      (WriteStep.alternatives m).foldl (perform format) (p.move format m) := by
  rw [Move.items_eq, ← List.cons_append, List.foldl_append, ← move_eq_foldl, foldl_alternatives]

end Page

/-- The steps are written one by one. -/
theorem writeSteps_eq_perform (page : Page) (steps : List WriteStep) :
    writeSteps format page steps = steps.foldl (Page.perform format) page := by
  refine writeSteps_eq_foldl (fun _ _ => rfl) (fun _ => rfl) (fun p => ?_) (fun p m ms => ?_) page
    steps
  · rw [Page.perform, movesItems, List.foldl_nil]
  · rw [Page.perform, movesItems, List.foldl_append, Page.foldl_items]
    rfl

/-- Every line, the main line or one that branches off at whatever depth, is written as its text by
recursion, in every format. -/
theorem write_eq_rendering (v : Variation) (format : NagFormat) :
    v.write format = v.rendering format := by
  have hpage : writeSteps format (Page.comment ⟨"", false⟩ v.comment) [.moves v.moves] =
      (braced v.comment ++ movesItems format v.moves).foldl Page.word ⟨"", false⟩ := by
    rw [writeSteps_eq_perform, Page.comment_eq_foldl, List.foldl_append]
    rfl
  rw [write, hpage, Page.text_foldl_word, rendering_eq]

/-- Two alternatives to one move, one without moves and one with nothing but a comment. -/
example : rendering .numeric ⟨0, 0, ⟨0, 14⟩, none, [⟨"e4", ⟨0, 2⟩, 1, none, none, #[⟨1⟩], true,
    [⟨1, 1, ⟨6, 6⟩, none, [], []⟩, ⟨2, 1, ⟨9, 12⟩, some "a", [], []⟩]⟩], []⟩ =
    "e4 $1 () (\x7ba\x7d)" := by
  decide

end Variation

end Scorebook
