import Mathlib.Data.List.Perm.Basic
import Scorebook.Proofs.Movetext.Parts
import Scorebook.Proofs.Movetext.Steps

/-!
# Where comments are kept

A comment is kept with the move written last in its own line, behind the comments kept there before,
or in front of the line if there is no move. So the comments of one line are kept in the order they
were written in, while those of a variation are kept with the variation. `Collects` says this of all
lines of a tree at once: each line keeps some of the comments in order, and together they keep every
comment exactly once. It holds of the open lines of a pass at every moment, because a comment goes
to the end of one line and nothing else touches the comments of any.
-/

namespace Scorebook

/-! ## The comments of a tree -/

/-- The comments kept in a line itself, given those in front of it and its moves. -/
def ownRemarks (comment : Option String) (moves : List Move) : List String :=
  comment.toList ++ moves.flatMap (·.comment.toList)

mutual

/-- The comments kept in a line and in every line that branches from it, line by line. -/
def Variation.remarks : Variation → List (List String)
  | ⟨_, _, _, comment, moves, strays⟩ =>
    ownRemarks comment moves :: (movesRemarks moves ++ linesRemarks strays)

/-- The comments kept in the lines that branch from these moves. -/
def movesRemarks : List Move → List (List String)
  | [] => []
  | m :: rest => m.remarks ++ movesRemarks rest

/-- The comments kept in the lines that branch from a move. -/
def Move.remarks : Move → List (List String)
  | ⟨_, _, _, _, _, _, _, variations⟩ => linesRemarks variations

/-- The comments kept in several lines. -/
def linesRemarks : List Variation → List (List String)
  | [] => []
  | v :: rest => v.remarks ++ linesRemarks rest

end

/-- The comments of a line are its own, and those of the lines in it. -/
theorem Variation.remarks_eq (v : Variation) :
    v.remarks =
      ownRemarks v.comment v.moves :: (movesRemarks v.moves ++ linesRemarks v.strays) := by
  cases v
  rw [remarks]

/-- A move contributes the comments of its variations. -/
theorem Move.remarks_eq (m : Move) : m.remarks = linesRemarks m.variations := by
  cases m
  rw [remarks]

/-- Moves contribute one by one. -/
theorem movesRemarks_eq (moves : List Move) :
    movesRemarks moves = moves.flatMap fun m => linesRemarks m.variations := by
  induction moves with
  | nil => rfl
  | cons m rest ih => rw [movesRemarks, ih, Move.remarks_eq, List.flatMap_cons]

/-- Lines contribute one by one. -/
theorem linesRemarks_eq (lines : List Variation) :
    linesRemarks lines = lines.flatMap Variation.remarks := by
  induction lines with
  | nil => rfl
  | cons v rest ih => rw [linesRemarks, ih, List.flatMap_cons]

/-! ## Collections -/

/-- The text of a comment, if it has some. -/
def Lexeme.remark? : Lexeme → Option String
  | .comment _ text => if text.isEmpty then none else some text
  | _ => none

/-- These comments, line by line, are texts joined by blanks: each line keeps some of the texts in
order, and together the lines keep every text once. -/
def Collects (lines : List (List String)) (texts : List String) : Prop :=
  ∃ piles : List (List (List String)),
    lines.Perm (piles.map (List.map (" ".intercalate))) ∧
      (∀ line ∈ piles, [] ∉ line ∧ line.flatten.Sublist texts) ∧
      (piles.map List.flatten).flatten.Perm texts

namespace Collects

variable {lines lines' : List (List String)} {texts : List String} {own : List String}
  {text : String}

/-- The order of the lines does not matter. -/
theorem of_perm (h : Collects lines texts) (hperm : lines.Perm lines') : Collects lines' texts := by
  obtain ⟨piles, hlines, hpiles, hall⟩ := h
  exact ⟨piles, hperm.symm.trans hlines, hpiles, hall⟩

/-- A line without comments changes nothing. -/
theorem cons_nil (h : Collects lines texts) : Collects ([] :: lines) texts := by
  obtain ⟨piles, hlines, hpiles, hall⟩ := h
  refine ⟨[] :: piles, hlines.cons [], ?_, by simpa using hall⟩
  intro line hline
  rcases List.mem_cons.1 hline with rfl | hline
  · simp
  · exact hpiles line hline

/-- The first line of a collection, with the texts it keeps. -/
theorem exists_cons (h : Collects (own :: lines) texts) :
    ∃ line piles, own = line.map (" ".intercalate) ∧
      lines.Perm (piles.map (List.map (" ".intercalate))) ∧
      (∀ line' ∈ line :: piles, [] ∉ line' ∧ line'.flatten.Sublist texts) ∧
      (line.flatten ++ (piles.map List.flatten).flatten).Perm texts := by
  obtain ⟨piles, hlines, hpiles, hall⟩ := h
  -- The piles come in any order, so the ones of the first line are looked up and taken out.
  obtain ⟨line, hline, rfl⟩ := List.mem_map.1 (hlines.subset List.mem_cons_self)
  have hperm := List.perm_cons_erase hline
  refine ⟨line, piles.erase line, rfl, ?_, ?_, ?_⟩
  · exact (hlines.trans (hperm.map _)).cons_inv
  · exact fun line' hline' => hpiles line' (hperm.mem_iff.2 hline')
  · exact ((hperm.map List.flatten).flatten.symm).trans hall

/-- A comment is joined to the last of its line, or becomes the next one. -/
def Adds (own : List String) (text : String) (own' : List String) : Prop :=
  own' = own ++ [text] ∨
    ∃ before last, own = before ++ [last] ∧ own' = before ++ [last ++ " " ++ text]

/-- Texts are joined with blanks one by one. -/
theorem intercalate_concat (text : String) {texts : List String} (h : texts ≠ []) :
    " ".intercalate (texts ++ [text]) = " ".intercalate texts ++ " " ++ text := by
  obtain ⟨first, rest, rfl⟩ := List.exists_cons_of_ne_nil h
  have hjoin := Descent.foldl_joinComment_some (rest ++ [text]) first
  rw [List.foldl_concat, Descent.foldl_joinComment_some] at hjoin
  exact (Option.some.inj hjoin).symm

/-- A text that comes last is kept behind all others of its line. -/
theorem snoc {own' : List String} (h : Collects (own :: lines) texts)
    (hown : Adds own text own') : Collects (own' :: lines) (texts ++ [text]) := by
  obtain ⟨line, piles, rfl, hlines, hpiles, hall⟩ := h.exists_cons
  have ⟨hline, hsub⟩ := hpiles line List.mem_cons_self
  -- The texts of the line, cut into its comments.
  obtain ⟨line', rfl, hflatten, hline'⟩ : ∃ line' : List (List String),
      own' = line'.map (" ".intercalate) ∧ line'.flatten = line.flatten ++ [text] ∧
        [] ∉ line' := by
    rcases hown with rfl | ⟨before, last, hlast, rfl⟩
    · refine ⟨line ++ [[text]], ?_, by simp, by simpa using hline⟩
      rw [List.map_append, List.map_singleton, String.intercalate_singleton]
    · obtain ⟨init, tail, rfl, rfl, htail⟩ := List.map_eq_append_iff.1 hlast
      obtain ⟨pile, rfl, rfl⟩ := List.map_eq_singleton_iff.1 htail
      have hpile : pile ≠ [] := fun hnil => hline (by simp [hnil])
      refine ⟨init ++ [pile ++ [text]], ?_, by simp, ?_⟩
      · rw [List.map_append, List.map_singleton, intercalate_concat text hpile]
      · simpa using fun hnil => hline (List.mem_append_left _ hnil)
  -- The text is the last of all, so it keeps the order of its line and is in no other.
  refine ⟨line' :: piles, hlines.cons _, ?_, ?_⟩
  · intro other hother
    rcases List.mem_cons.1 hother with rfl | hother
    · exact ⟨hline', hflatten ▸ hsub.append (.refl [text])⟩
    · have ⟨hnil, hkept⟩ := hpiles other (List.mem_cons_of_mem _ hother)
      exact ⟨hnil, hkept.trans (List.sublist_append_left ..)⟩
  · rw [List.map_cons, List.flatten_cons, hflatten, List.append_assoc]
    exact (List.perm_append_comm.append_left _).trans
      (List.append_assoc .. ▸ hall.append_right [text])

/-- The number of characters in these texts, and one more for each of them. -/
def letters (texts : List String) : Nat :=
  (texts.flatMap fun text => ' ' :: text.toList).length

theorem letters_cons (text : String) (texts : List String) :
    letters (text :: texts) = text.length + 1 + letters texts := by
  rw [letters, List.flatMap_cons, List.length_append, List.length_cons, String.length_toList,
    letters]

/-- Letters are counted part by part. -/
theorem letters_append (texts more : List String) :
    letters (texts ++ more) = letters texts + letters more := by
  rw [letters, List.flatMap_append, List.length_append, letters, letters]

/-- The order of the texts does not matter for their letters. -/
theorem letters_of_perm {texts' : List String} (h : texts.Perm texts') :
    letters texts = letters texts' :=
  (h.flatMap_right _).length_eq

/-- The blank that joins a text to those before it makes up for the end of a comment. -/
theorem letters_intercalate {pile : List String} (h : pile ≠ []) :
    (" ".intercalate pile).length + 1 = letters pile := by
  obtain ⟨first, rest, rfl⟩ := List.exists_cons_of_ne_nil h
  induction rest generalizing first with
  | nil => rw [String.intercalate_singleton, letters_cons]; rfl
  | cons next rest ih =>
    have hrest := ih next (List.cons_ne_nil next rest)
    rw [String.intercalate_cons_cons, String.length_append, String.length_append, letters_cons,
      ← hrest]
    show first.length + 1 + _ + 1 = first.length + 1 + (_ + 1)
    omega

/-- The comments of a collection have as many characters as the texts, joints included. -/
theorem letters_eq (h : Collects lines texts) : letters lines.flatten = letters texts := by
  obtain ⟨piles, hlines, hpiles, hall⟩ := h
  have hlines : lines.flatten.Perm (piles.flatten.map (" ".intercalate)) :=
    List.map_flatten ▸ hlines.flatten
  -- Joined with blanks, the texts have the letters they had before.
  have hjoined (ps : List (List String)) (hps : [] ∉ ps) :
      letters (ps.map (" ".intercalate)) = letters ps.flatten := by
    induction ps with
    | nil => rfl
    | cons pile rest ih =>
      have ⟨hpile, hrest⟩ := List.ne_and_not_mem_of_not_mem_cons hps
      rw [List.flatten_cons, letters_append, ← ih hrest, ← letters_intercalate hpile.symm,
        List.map_cons, letters_cons]
  calc letters lines.flatten
    _ = letters (piles.flatten.map (" ".intercalate)) := letters_of_perm hlines
    _ = letters piles.flatten.flatten := by
        refine hjoined _ fun hnil => ?_
        obtain ⟨line, hline, hmem⟩ := List.mem_flatten.1 hnil
        exact (hpiles line hline).1 hmem
    _ = letters texts := by
        rw [List.flatten_flatten]
        exact letters_of_perm hall

/-- What is collected leaves no room for more. -/
theorem append_iff (h : Collects lines texts) (more : List String) :
    Collects lines (texts ++ more) ↔ more = [] := by
  constructor
  · intro hmore
    have hsum := hmore.letters_eq.symm.trans h.letters_eq
    rw [letters_append] at hsum
    cases more with
    | nil => rfl
    | cons text rest =>
      rw [letters_cons] at hsum
      omega
  · rintro rfl
    exact (List.append_nil texts).symm ▸ h

end Collects

/-! ## Open lines -/

namespace OpenLine

variable {l : OpenLine}

/-- The comments kept in a line itself so far. -/
def own (l : OpenLine) : List String :=
  ownRemarks l.comment (l.moves.reverse ++ l.last.toList)

/-- The comments kept so far in a line and in every line that branches from it. -/
def remarks (l : OpenLine) : List (List String) :=
  l.own :: (movesRemarks l.moves ++ linesRemarks l.branches ++ linesRemarks l.strays)

/-- In front of the first move a line has no moves, and its variations are not yet known to be
strays. -/
def Begun (l : OpenLine) : Prop :=
  l.last = none → l.moves = [] ∧ l.strays = []

/-- A line that has a move has begun. -/
theorem begun_of_last {m : Move} (h : l.last = some m) : l.Begun :=
  fun hnone => absurd (hnone.symm.trans h) (Option.some_ne_none m).symm

/-- So has a line with nothing in it. -/
theorem begun_new (id depth start : Nat) : (new id depth start).Begun :=
  fun _ => ⟨rfl, rfl⟩

/-- The order of the lines does not matter. -/
theorem linesRemarks_reverse (lines : List Variation) :
    (linesRemarks lines.reverse).Perm (linesRemarks lines) := by
  simp only [linesRemarks_eq]
  exact (List.reverse_perm lines).flatMap_right _

/-- Nor does that of the moves. -/
theorem movesRemarks_reverse (moves : List Move) :
    (movesRemarks moves.reverse).Perm (movesRemarks moves) := by
  simp only [movesRemarks_eq]
  exact (List.reverse_perm moves).flatMap_right _

/-- A line that is settled has no last move to add to. -/
theorem settle_last (l : OpenLine) : l.settle.last = none := by
  unfold settle
  split
  · rfl
  · assumption

/-- No branches wait for it either. -/
theorem settle_branches (l : OpenLine) : l.settle.branches = [] := by
  unfold settle
  split <;> rfl

/-- Settling a line keeps its own comments. -/
theorem own_settle (l : OpenLine) : l.settle.own = l.own := by
  unfold settle
  split
  · next m hlast => simp [own, ownRemarks, hlast]
  · rfl

/-- Finishing the last move only moves comments about. -/
theorem remarks_settle (h : l.Begun) : l.settle.remarks.Perm l.remarks := by
  rw [remarks, own_settle, remarks]
  refine List.Perm.cons _ ?_
  unfold settle
  split
  · next m hlast =>
    rw [movesRemarks, Move.remarks_eq, linesRemarks, List.append_nil]
    refine List.Perm.append_right _ ?_
    exact ((linesRemarks_reverse l.branches).append_right _).trans List.perm_append_comm
  · next hlast =>
    -- The variations so far are strays, and there are no others.
    obtain ⟨hmoves, hstrays⟩ := h hlast
    simpa [hmoves, hstrays, movesRemarks, linesRemarks] using linesRemarks_reverse l.branches

/-- Closing a line keeps its comments. -/
theorem remarks_close (h : l.Begun) (stop : Nat) : (l.close stop).remarks.Perm l.remarks := by
  refine List.Perm.trans ?_ (remarks_settle h)
  rw [Variation.remarks_eq, remarks, own, settle_last, settle_branches, Option.toList_none,
    List.append_nil, linesRemarks, List.append_nil]
  exact List.Perm.cons _ ((movesRemarks_reverse l.settle.moves).append_right _)

/-- A move has no comment yet. -/
theorem remarks_addMove (h : l.Begun) (san : String) (span : Span) (indicated : Option Nat)
    (wellFormed : Bool) :
    (l.addMove san span indicated wellFormed).remarks.Perm l.remarks := by
  have hsame : (l.addMove san span indicated wellFormed).remarks = l.settle.remarks := by
    simp [addMove, remarks, own, ownRemarks, settle_last]
  exact hsame ▸ remarks_settle h

open scoped List in
/-- A variation brings its comments into the line. -/
theorem remarks_addBranch (l : OpenLine) (v : Variation) :
    (l.addBranch v).remarks.Perm (v.remarks ++ l.remarks) := by
  have hcons : (l.addBranch v).remarks =
      l.own :: (movesRemarks l.moves ++ (v.remarks ++ linesRemarks l.branches) ++
        linesRemarks l.strays) := by
    rw [remarks, addBranch, linesRemarks]
    rfl
  calc (l.addBranch v).remarks
    _ = (l.own :: movesRemarks l.moves) ++ (v.remarks ++
          (linesRemarks l.branches ++ linesRemarks l.strays)) := by
        rw [hcons, List.cons_append, List.append_assoc, List.append_assoc]
    _ ~ v.remarks ++ ((l.own :: movesRemarks l.moves) ++
          (linesRemarks l.branches ++ linesRemarks l.strays)) :=
        List.perm_append_comm_assoc ..
    _ = v.remarks ++ l.remarks := by rw [remarks, List.cons_append, List.append_assoc]

/-- A glyph is no comment. -/
theorem remarks_addNag? {line : OpenLine} {nag : Nag} (h : l.addNag? nag = some line) :
    line.remarks = l.remarks := by
  obtain ⟨m, hlast, rfl⟩ := Option.map_eq_some_iff.1 h
  simp [remarks, own, ownRemarks, hlast]

/-- A comment goes to the end of the line itself. -/
theorem own_addComment (h : l.Begun) {text : String} (htext : text.isEmpty = false) :
    Collects.Adds l.own text (l.addComment text).own ∧
      (l.addComment text).remarks = (l.addComment text).own :: l.remarks.tail := by
  have hjoin (before : List String) (comment : Option String) :
      Collects.Adds (before ++ comment.toList) text
        (before ++ (joinComment comment text).toList) := by
    cases comment with
    | none => exact .inl (by simp [joinComment])
    | some comment => exact .inr ⟨before, comment, rfl, rfl⟩
  unfold addComment
  rw [htext, if_neg Bool.false_ne_true]
  split
  · -- The comment goes to the last move, or to the line if it has none.
    next m hlast =>
    refine ⟨?_, rfl⟩
    have := hjoin (ownRemarks l.comment l.moves.reverse) m.comment
    simpa [own, ownRemarks, hlast] using this
  · next hlast =>
    refine ⟨?_, rfl⟩
    obtain ⟨hmoves, -⟩ := h hlast
    simpa [own, ownRemarks, hlast, hmoves] using hjoin [] l.comment

/-- A line that has begun stays so with a comment. -/
theorem Begun.addComment (h : l.Begun) (text : String) : (l.addComment text).Begun := by
  unfold OpenLine.addComment
  split
  · exact h
  · split
    · exact begun_of_last rfl
    · exact h

/-- A line that takes a glyph has a move. -/
theorem Begun.addNag? {line : OpenLine} {nag : Nag} (h : l.addNag? nag = some line) :
    line.Begun := by
  obtain ⟨m, -, rfl⟩ := Option.map_eq_some_iff.1 h
  exact begun_of_last rfl

end OpenLine

/-! ## The pass -/

namespace Reader

variable {r r' : Reader} {lexeme : Lexeme} {texts : List String} {stop : Nat}

/-- The comments kept so far, in the lines not closed yet and in those that branch from them. -/
def remarks (r : Reader) : List (List String) :=
  (r.line :: r.outer).flatMap OpenLine.remarks

/-- All lines not closed yet are as they should be in front of their first move. -/
def Begun (r : Reader) : Prop :=
  ∀ l ∈ r.line :: r.outer, l.Begun

/-- A reader starts with a line that has begun. -/
theorem begun_start (pos : Nat) : (start pos).Begun := by
  intro l hl
  obtain rfl := List.mem_singleton.1 hl
  exact OpenLine.begun_new 0 0 pos

/-- At the start no comments have been collected. -/
theorem collects_start (pos : Nat) : Collects (start pos).remarks [] :=
  ⟨[[]], .refl _, by simp, .refl _⟩

/-- All lines of a reader have begun if the innermost one has and the rest had. -/
theorem Begun.of_line {line : OpenLine} (h : r.Begun) (hline : line.Begun) {number : Option Nat}
    {problems : Array Problem} :
    (⟨line, r.outer, number, r.opened, problems⟩ : Reader).Begun :=
  List.forall_mem_cons.2 ⟨hline, (List.forall_mem_cons.1 h).2⟩

/-- Closing a line hands its comments to the line around it. -/
theorem remarks_close_outer {line parent : OpenLine} (h : line.Begun) (stop : Nat)
    (outer : List OpenLine) :
    ((line :: parent :: outer).flatMap OpenLine.remarks).Perm
      ((parent.addBranch (line.close stop) :: outer).flatMap OpenLine.remarks) := by
  simp only [List.flatMap_cons]
  rw [← List.append_assoc]
  refine List.Perm.append_right _ ?_
  exact ((OpenLine.remarks_close h stop).symm.append_right _).trans
    (OpenLine.remarks_addBranch parent (line.close stop)).symm

/-- Closing all lines keeps their comments. -/
theorem remarks_closeAll {line : OpenLine} {outer : List OpenLine} (stop : Nat)
    (h : ∀ l ∈ line :: outer, l.Begun) :
    ((line :: outer).flatMap OpenLine.remarks).Perm (closeAll line stop outer).remarks := by
  -- On the lines around: each takes in the one inside it and is then the innermost.
  induction outer generalizing line with
  | nil =>
    rw [List.flatMap_singleton]
    exact (OpenLine.remarks_close (h line List.mem_cons_self) stop).symm
  | cons parent outer ih =>
    have ⟨hline, houter⟩ := List.forall_mem_cons.1 h
    have ⟨hparent, hrest⟩ := List.forall_mem_cons.1 houter
    exact (remarks_close_outer hline stop outer).trans
      (ih (List.forall_mem_cons.2 ⟨hparent, hrest⟩))

/-- A token moves the comments kept so far about, or opens a line that has none. -/
theorem remarks_step_token {token : Token} {span : Span} (hbegun : r.Begun)
    (hstep : r.step? (.token token span) = some r') :
    r'.Begun ∧ (r.remarks.Perm r'.remarks ∨ r'.remarks = [] :: r.remarks) := by
  have ⟨hline, houter⟩ := List.forall_mem_cons.1 hbegun
  have hsame {line : OpenLine} (h : r.line.remarks.Perm line.remarks) :
      r.remarks.Perm ((line :: r.outer).flatMap OpenLine.remarks) :=
    h.append_right _
  -- Only parentheses change which lines there are, and a closed one joins the line around it.
  cases token with
  | number | badNag | unexpected =>
    cases hstep
    exact ⟨hbegun, .inl (.refl _)⟩
  | san text wellFormed =>
    have hadd := OpenLine.remarks_addMove hline text span r.number wellFormed
    have hline' : (r.line.addMove text span r.number wellFormed).Begun :=
      OpenLine.begun_of_last rfl
    cases wellFormed <;> cases hstep <;> exact ⟨hbegun.of_line hline', .inl (hsame hadd.symm)⟩
  | nag nag =>
    simp only [step?] at hstep
    split at hstep
    · next line hadd =>
      cases hstep
      exact ⟨hbegun.of_line (.addNag? hadd),
        .inl (hsame (.of_eq (OpenLine.remarks_addNag? hadd).symm))⟩
    · cases hstep
      exact ⟨hbegun, .inl (.refl _)⟩
  | opening =>
    cases hstep
    obtain ⟨problems, heq⟩ := r.exists_enter_eq span
    rw [heq]
    exact ⟨List.forall_mem_cons.2 ⟨OpenLine.begun_new _ _ _, hbegun⟩, .inr rfl⟩
  | closing =>
    simp only [step?] at hstep
    split at hstep
    · cases hstep
    · next parent outer hcons =>
      cases hstep
      obtain ⟨hparent, hrest⟩ := List.forall_mem_cons.1 (hcons ▸ houter)
      refine ⟨List.forall_mem_cons.2 ⟨hparent, hrest⟩, .inl ?_⟩
      rw [remarks, hcons]
      exact remarks_close_outer hline span.start outer
  | marker | badMarker =>
    simp only [step?] at hstep
    split at hstep
    · cases hstep
    · cases hstep
      exact ⟨hbegun, .inl (.refl _)⟩

/-- One step keeps every comment there is, and the comment it takes in if that has some text. -/
theorem collects_step (hbegun : r.Begun) (h : Collects r.remarks texts)
    (hstep : r.step? lexeme = some r') :
    r'.Begun ∧ Collects r'.remarks (texts ++ lexeme.remark?.toList) := by
  -- A comment is collected, anything else collects nothing.
  have hline : r.line.Begun := hbegun _ List.mem_cons_self
  cases lexeme with
  | comment body text =>
    cases hstep
    refine ⟨hbegun.of_line (hline.addComment text), ?_⟩
    cases htext : text.isEmpty with
    | true => simpa [Lexeme.remark?, OpenLine.addComment, htext] using h
    | false =>
      obtain ⟨hown, hremarks⟩ := OpenLine.own_addComment hline htext
      simp only [Lexeme.remark?, htext, Bool.false_eq_true, if_false, Option.toList_some]
      rw [remarks, List.flatMap_cons, hremarks]
      exact h.snoc hown
  | openEnd problem =>
    cases hstep
    exact ⟨hbegun, (List.append_nil texts).symm ▸ h⟩
  | token token span =>
    obtain ⟨hbegun', hremarks⟩ := remarks_step_token hbegun hstep
    refine ⟨hbegun', (List.append_nil texts).symm ▸ ?_⟩
    rcases hremarks with hperm | hcons
    · exact h.of_perm hperm
    · exact hcons ▸ h.cons_nil

/-- Ending a pass closes the lines and keeps the comments. -/
theorem collects_finish (hbegun : r.Begun) (h : Collects r.remarks texts) (stop : Nat)
    (marker : Option (Outcome × Span)) :
    Collects (r.finish stop marker).mainLine.remarks texts :=
  h.of_perm (remarks_closeAll stop hbegun)

/-- A pass that halts keeps the comments it has, and halts at no comment. -/
theorem collects_halt {strict : Bool} {rest : List Lexeme} (hbegun : r.Begun)
    (h : Collects r.remarks texts) (hhalt : r.step? lexeme = none) :
    Collects (r.halt strict stop rest lexeme).mainLine.remarks texts ∧ lexeme.remark? = none := by
  obtain ⟨token, span, rfl⟩ := exists_token_of_halt hhalt
  refine ⟨?_, rfl⟩
  cases token with
  | marker outcome =>
    rw [halt, finishAt_eq]
    exact collects_finish hbegun h stop none
  | _ => exact collects_finish hbegun h stop none

/-- A pass keeps every comment that it takes in and that has some text. -/
theorem collects_run (hbegun : r.Begun) (h : Collects r.remarks texts) (strict : Bool)
    (stop : Nat) (lexemes : List Lexeme) :
    Collects (r.run strict stop lexemes).mainLine.remarks
      (texts ++ (r.taken true lexemes).filterMap Lexeme.remark?) := by
  -- On the lexemes, with what the state before them keeps as `texts`.
  induction lexemes generalizing r texts with
  | nil =>
    rw [run_nil, finishOpen_mainLine]
    exact collects_finish hbegun ((List.append_nil texts).symm ▸ h) stop none
  | cons lexeme rest ih =>
    cases hstep : r.step? lexeme with
    | none =>
      obtain ⟨hhalt, hnone⟩ := collects_halt hbegun h hstep
      rw [taken_of_halt ((advance?_true r lexeme).trans hstep), run_of_halt hstep,
        List.filterMap_cons_none hnone]
      exact (List.append_nil texts).symm ▸ hhalt
    | some r' =>
      obtain ⟨hbegun', h'⟩ := collects_step hbegun h hstep
      rw [taken_of_step hstep, run_of_step hstep]
      have := ih hbegun' h'
      rw [List.append_assoc] at this
      cases hremark : lexeme.remark? with
      | none => simpa [List.filterMap_cons_none hremark, hremark] using this
      | some text => simpa [List.filterMap_cons_some hremark, hremark] using this

end Reader

/-- A score keeps every comment that was taken in. -/
theorem Text.collects_score (t : Text) (strict : Bool) (s : Span) :
    Collects (t.score strict s).mainLine.remarks
      (((Reader.start s.start).taken true (t.lexemes s)).filterMap Lexeme.remark?) :=
  Reader.collects_run (Reader.begun_start _) (Reader.collects_start _) strict s.stop (t.lexemes s)

end Scorebook
