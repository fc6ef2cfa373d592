import Scorebook.Proofs.Movetext.Comments
import Scorebook.Proofs.Problem.Ranges

/-!
# Lines lie in their text

Every line of a score keeps the range of text it was read from. A line that is closed ends where its
parenthesis stands, and those that are never closed are made to end with the movetext, so that the
ranges of all lines reachable from the main line lie in the text.
-/

namespace Scorebook

variable {t : Text} {pos pos' stop : Nat}

/-- The line and all lines reachable from it lie in the text. -/
inductive Variation.LiesIn (t : Text) : Variation → Prop
  | intro {v : Variation} (span : t.Covers v.span) (children : ∀ c ∈ v.children, c.LiesIn t) :
      v.LiesIn t

/-- All lines visited from one that lies in the text do. -/
theorem Variation.LiesIn.covers {v : Variation} (h : v.LiesIn t) :
    ∀ b ∈ v.breadthFirst, t.Covers b.variation.span := by
  intro b hb
  have hlies : b.variation.LiesIn t := by
    refine forall_visitFrom (P := fun b => b.variation.LiesIn t) (fun b hb c hc => ?_)
      [⟨v, none⟩] #[] (List.forall_mem_singleton.2 h) nofun b (Array.mem_toList_iff.1 hb)
    obtain ⟨_, hchildren⟩ := hb
    exact hchildren c.variation (b.map_variation_next ▸ List.mem_map_of_mem hc)
  obtain ⟨hspan, -⟩ := hlies
  exact hspan

/-- The line starts in front of `pos`, and what was closed in it lies in the text. -/
structure OpenLine.LiesIn (t : Text) (pos : Nat) (l : OpenLine) : Prop where
  start_le : l.start ≤ pos
  moves : ∀ m ∈ l.moves, ∀ v ∈ m.variations, v.LiesIn t
  branches : ∀ v ∈ l.branches, v.LiesIn t

namespace OpenLine

variable {l : OpenLine}

/-- A line that was just opened has nothing in it. -/
theorem liesIn_new (t : Text) (id depth pos : Nat) : (OpenLine.new id depth pos).LiesIn t pos :=
  ⟨Nat.le_refl _, nofun, nofun⟩

theorem LiesIn.mono (h : l.LiesIn t pos) (hle : pos ≤ pos') : l.LiesIn t pos' :=
  ⟨Nat.le_trans h.start_le hle, h.moves, h.branches⟩

/-- Settling a line moves nothing. -/
theorem LiesIn.settle (h : l.LiesIn t pos) : l.settle.LiesIn t pos := by
  unfold OpenLine.settle
  split
  · refine ⟨h.start_le, List.forall_mem_cons.2 ⟨?_, h.moves⟩, nofun⟩
    exact fun v hv => h.branches v (List.mem_reverse.1 hv)
  · exact ⟨h.start_le, h.moves, nofun⟩

/-- A line that is closed behind all it has lies in the text. -/
theorem LiesIn.close (h : l.LiesIn t pos) (hpos : pos ≤ stop) (hstop : stop ≤ t.size) :
    (l.close stop).LiesIn t := by
  refine .intro ⟨Nat.le_trans h.settle.start_le hpos, hstop⟩ ?_
  intro c hc
  obtain ⟨m, hm, hbranch⟩ := List.mem_flatMap.1 hc
  exact h.settle.moves m (List.mem_reverse.1 hm) c hbranch

/-- A comment moves nothing. -/
theorem LiesIn.addComment (h : l.LiesIn t pos) (text : String) :
    (l.addComment text).LiesIn t pos := by
  unfold OpenLine.addComment
  split
  · exact h
  · split
    · exact ⟨h.start_le, h.moves, h.branches⟩
    · exact ⟨h.start_le, h.moves, h.branches⟩

/-- A move in the text may be added. -/
theorem LiesIn.addMove (h : l.LiesIn t pos) (san : String) (span : Span)
    (indicated : Option Nat) (wellFormed : Bool) :
    (l.addMove san span indicated wellFormed).LiesIn t pos :=
  ⟨h.settle.start_le, h.settle.moves, h.settle.branches⟩

/-- A glyph moves nothing. -/
theorem LiesIn.addNag {line : OpenLine} {nag : Nag} (h : l.LiesIn t pos)
    (hnag : l.addNag? nag = some line) : line.LiesIn t pos := by
  obtain ⟨m, -, rfl⟩ := Option.map_eq_some_iff.1 hnag
  exact ⟨h.start_le, h.moves, h.branches⟩

/-- A variation in the text may be added. -/
theorem LiesIn.addBranch {v : Variation} (h : l.LiesIn t pos) (hv : v.LiesIn t) :
    (l.addBranch v).LiesIn t pos :=
  ⟨h.start_le, h.moves, List.forall_mem_cons.2 ⟨hv, h.branches⟩⟩

end OpenLine

/-- All lines of the score lie in the text, and its marker is not in front of `pos`. -/
structure Score.LiesIn (t : Text) (pos : Nat) (score : Score) : Prop where
  mainLine : score.mainLine.LiesIn t
  marker : ∀ outcome span, score.marker = some (outcome, span) →
    pos ≤ span.start ∧ span.start ≤ t.size

namespace Reader

variable {strict : Bool} {r r' : Reader} {lexeme : Lexeme} {rest lexemes : List Lexeme}

/-- All lines that are open start in front of `pos`, and what was closed in them lies in the
text. -/
structure LiesIn (t : Text) (pos : Nat) (r : Reader) : Prop where
  line : r.line.LiesIn t pos
  outer : ∀ l ∈ r.outer, l.LiesIn t pos

theorem LiesIn.mono (h : r.LiesIn t pos) (hle : pos ≤ pos') : r.LiesIn t pos' :=
  ⟨h.line.mono hle, fun l hl => (h.outer l hl).mono hle⟩

/-- A problem moves nothing. -/
theorem LiesIn.note (h : r.LiesIn t pos) (problem : Problem) : (r.note problem).LiesIn t pos :=
  ⟨h.line, h.outer⟩

/-- A reader may go on with any line that lies in the text. -/
theorem LiesIn.withLine (h : r.LiesIn t pos) {line : OpenLine} (hline : line.LiesIn t pos)
    (number : Option Nat) (problems : Array Problem) :
    (⟨line, r.outer, number, r.opened, problems⟩ : Reader).LiesIn t pos :=
  ⟨hline, h.outer⟩

/-- A step goes on from behind the lexeme it takes in. -/
theorem LiesIn.step (h : r.LiesIn t pos) (hlaid : LaidOut t stop pos (lexeme :: rest))
    (hpos : pos ≤ stop) (hstop : stop ≤ t.size) (hstep : r.step? lexeme = some r') :
    ∃ pos', pos ≤ pos' ∧ pos' ≤ stop ∧ r'.LiesIn t pos' ∧ LaidOut t stop pos' rest := by
  cases lexeme with
  | comment body text =>
    cases hstep
    exact ⟨pos, Nat.le_refl _, hpos, h.withLine (h.line.addComment text) _ _, hlaid⟩
  | openEnd problem =>
    cases hstep
    exact ⟨pos, Nat.le_refl _, hpos, h.note problem, hlaid⟩
  | token token span =>
    obtain ⟨⟨hlow, hlt, hhigh⟩, -, -, hrest⟩ := hlaid
    -- Behind the token is behind everything there was before it.
    have hle : pos ≤ span.stop := by omega
    have hbehind := h.mono hle
    refine ⟨span.stop, hle, hhigh, ?_, hrest⟩
    cases token with
    | number n =>
      cases hstep
      exact hbehind.withLine hbehind.line _ _
    | san text wellFormed =>
      have hline := hbehind.line.addMove text span r.number wellFormed
      cases wellFormed <;> cases hstep <;> exact hbehind.withLine hline _ _
    | nag nag =>
      simp only [step?] at hstep
      split at hstep
      · next line hnag =>
        cases hstep
        exact hbehind.withLine (hbehind.line.addNag hnag) _ _
      · cases hstep
        exact hbehind.note _
    | badNag | unexpected =>
      cases hstep
      exact hbehind.note _
    | opening =>
      cases hstep
      have houter := List.forall_mem_cons.2 ⟨hbehind.line, hbehind.outer⟩
      unfold enter
      split <;> exact ⟨OpenLine.liesIn_new .., houter⟩
    | closing =>
      simp only [step?] at hstep
      split at hstep
      · cases hstep
      · next parent outer houter =>
        cases hstep
        obtain ⟨hparent, hlines⟩ := List.forall_mem_cons.1 (houter ▸ hbehind.outer)
        exact ⟨hparent.addBranch (h.line.close hlow (by omega)), hlines⟩
    | marker | badMarker =>
      simp only [step?] at hstep
      split at hstep
      · cases hstep
      · cases hstep
        exact hbehind.note _

/-- All lines that are still open may be closed at the end. -/
theorem LiesIn.closeAll {line : OpenLine} {outer : List OpenLine} (hline : line.LiesIn t pos)
    (houter : ∀ l ∈ outer, l.LiesIn t pos) (hpos : pos ≤ stop) (hstop : stop ≤ t.size) :
    (closeAll line stop outer).LiesIn t := by
  induction outer generalizing line with
  | nil => exact hline.close hpos hstop
  | cons parent outer ih =>
    obtain ⟨hparent, houter⟩ := List.forall_mem_cons.1 houter
    exact ih (hparent.addBranch (hline.close hpos hstop)) houter

/-- A pass that halts leaves all that it has in the text. -/
theorem LiesIn.halt (h : r.LiesIn t pos) (hlaid : LaidOut t stop pos (lexeme :: rest))
    (hpos : pos ≤ stop) (hstop : stop ≤ t.size) (hhalt : r.step? lexeme = none) :
    (r.halt strict stop rest lexeme).LiesIn t pos := by
  have hline := LiesIn.closeAll h.line h.outer hpos hstop
  -- A marker lies where its token does, and no other token leaves one.
  obtain ⟨token, span, rfl⟩ := exists_token_of_halt hhalt
  obtain ⟨⟨hlow, hlt, hhigh⟩, -⟩ := hlaid
  have hplace : pos ≤ span.start ∧ span.start ≤ t.size := by omega
  have hmarker {outcome outcome' : Outcome} {span' : Span}
      (heq : some (outcome, span) = some (outcome', span')) :
      pos ≤ span'.start ∧ span'.start ≤ t.size := by
    cases heq
    exact hplace
  cases token with
  | marker outcome =>
    rw [Reader.halt, finishAt_eq]
    exact ⟨hline, fun _ _ => hmarker⟩
  | badMarker => exact ⟨hline, fun _ _ => hmarker⟩
  | _ =>
    refine ⟨hline, fun outcome span hnone => ?_⟩
    cases hnone

/-- What is read from lexemes that are laid out in a text lies in it. -/
theorem LiesIn.run (h : r.LiesIn t pos) (hlaid : LaidOut t stop pos lexemes)
    (hpos : pos ≤ stop) (hstop : stop ≤ t.size) : (r.run strict stop lexemes).LiesIn t pos := by
  -- By induction on the lexemes, each of which lies behind those before it.
  induction lexemes generalizing r pos with
  | nil =>
    rw [run_nil]
    refine ⟨?_, nofun⟩
    rw [finishOpen_mainLine]
    exact LiesIn.closeAll h.line h.outer hpos hstop
  | cons lexeme rest ih =>
    cases hstep : r.step? lexeme with
    | none =>
      rw [run_of_halt hstep]
      exact h.halt hlaid hpos hstop hstep
    | some r' =>
      rw [run_of_step hstep]
      obtain ⟨pos', hle, hpos', hlies, hrest⟩ := h.step hlaid hpos hstop hstep
      obtain ⟨hmain, hmarker⟩ := ih hlies hrest hpos'
      refine ⟨hmain, fun outcome span hspan => ?_⟩
      obtain ⟨hlow, hhigh⟩ := hmarker outcome span hspan
      exact ⟨Nat.le_trans hle hlow, hhigh⟩

end Reader

/-- The score of movetext that lies in a text lies in it. -/
theorem Text.score_liesIn (strict : Bool) {s : Span} (h : t.Covers s) :
    (t.score strict s).LiesIn t s.start :=
  Reader.LiesIn.run ⟨OpenLine.liesIn_new .., List.forall_mem_nil _⟩ (t.laidOut_lexemes s) h.1 h.2

end Scorebook
