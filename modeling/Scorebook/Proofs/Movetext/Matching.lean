import Scorebook.Proofs.Game.Problems
import Scorebook.Proofs.Movetext.Descent
import Scorebook.Proofs.Movetext.Lexemes
import Scorebook.Proofs.Movetext.Steps
import Scorebook.Proofs.Reporter.Obliging

/-!
# Where parentheses fail to match

The pass over the lexemes can fail at a parenthesis without its partner and nowhere else. Which
parenthesis that is can be told from the lexemes in front of the first marker that counts, without
the tree: the first closing parenthesis that closes nothing (`Descent.unopened?`), or the innermost
one that is still open at the end (`Descent.unclosed`). The pass knows of its open parentheses only
by the lines it has not closed yet, which start behind them (`Reader.Within`).
-/

namespace Scorebook

namespace Descent

/-! ## Parentheses without their partners -/

/-- The parentheses still open behind a lexeme, the innermost first, where `opened` were open in
front of it. -/
def heed (opened : List Span) : Lexeme → List Span
  | .token .opening span => span :: opened
  | .token .closing _ => opened.tail
  | _ => opened

/-- The parentheses still open behind these lexemes, the innermost first. -/
def unclosed (opened : List Span) (lexemes : List Lexeme) : List Span :=
  lexemes.foldl heed opened

/-- The first closing parenthesis that closes nothing, `depth` parentheses having been opened
before. -/
def unopened? (depth : Nat) : List Lexeme → Option Span
  | [] => none
  | .token .opening _ :: rest => unopened? (depth + 1) rest
  | .token .closing span :: rest =>
    match depth with
    | 0 => some span
    | depth + 1 => unopened? depth rest
  | _ :: rest => unopened? depth rest

/-- What is wrong with the parentheses of these lexemes, `opened` being open in front of them. One
that closes nothing is found first. -/
def mismatch? (opened : List Span) (lexemes : List Lexeme) : Option Problem :=
  match unopened? opened.length lexemes with
  | some span => some (.fault .unmatchedCloseParen span)
  | none => (unclosed opened lexemes).head?.map (.fault .unmatchedOpenParen)

/-- Inside `opened` parentheses the lexeme neither closes one too many nor ends the game. -/
def Fits (opened : List Span) (lexeme : Lexeme) : Prop :=
  opened = [] → isMarker lexeme = false ∧ ∀ span, lexeme ≠ .token .closing span

variable {opened : List Span} {lexeme : Lexeme}

/-- A lexeme that fits is in front of the marker if there is one. -/
theorem beforeMarker_cons (h : Fits opened lexeme) (rest : List Lexeme) :
    beforeMarker opened.length (lexeme :: rest) =
      lexeme :: beforeMarker (heed opened lexeme).length rest := by
  fun_cases heed opened lexeme with
  | case1 span => rfl
  | case2 span => rw [beforeMarker, List.length_tail]
  | case3 _ hopening hclosing =>
    rw [beforeMarker, if_neg]
    · intro hends
      rw [Bool.and_eq_true, beq_iff_eq, List.length_eq_zero_iff] at hends
      rw [(h hends.2).1] at hends
      cases hends.1
    · exact hopening
    · exact hclosing

/-- The marker itself is not in front of it. -/
theorem beforeMarker_of_isMarker (h : isMarker lexeme = true) (rest : List Lexeme) :
    beforeMarker 0 (lexeme :: rest) = [] := by
  rw [beforeMarker, if_pos (by rw [h]; rfl)]
  · rintro span rfl
    cases h
  · rintro span rfl
    cases h

/-- Behind a lexeme that fits a parenthesis closes nothing if it does not close those opened there.
-/
theorem unopened?_cons (h : Fits opened lexeme) (rest : List Lexeme) :
    unopened? opened.length (lexeme :: rest) = unopened? (heed opened lexeme).length rest := by
  fun_cases heed opened lexeme with
  | case1 span => rfl
  | case2 span =>
    cases opened with
    | nil => exact absurd rfl ((h rfl).2 span)
    | cons => rfl
  | case3 _ hopening hclosing =>
    rw [unopened?]
    · exact hopening
    · exact hclosing

/-- Nothing is wrong exactly if every parenthesis has its partner. -/
theorem mismatch?_eq_none_iff (opened : List Span) (lexemes : List Lexeme) :
    mismatch? opened lexemes = none ↔ balanced opened.length lexemes = true := by
  generalize hdepth : opened.length = depth
  -- By the recursion of `balanced`, whose depth is the number of those left open.
  fun_induction balanced depth lexemes generalizing opened with
  | case1 depth =>
    subst hdepth
    cases opened <;> simp [mismatch?, unopened?, unclosed]
  | case2 depth span rest ih =>
    subst hdepth
    exact ih (span :: opened) rfl
  | case3 span rest => simp [mismatch?, hdepth, unopened?]
  | case4 span rest depth ih =>
    obtain ⟨last, opened, rfl⟩ := List.exists_cons_of_length_eq_add_one hdepth
    exact ih opened (Nat.succ.inj hdepth)
  | case5 depth lexeme rest hopening hclosing ih =>
    have hheed : heed opened lexeme = opened := by
      rw [heed]
      · exact hopening
      · exact hclosing
    rw [← ih opened hdepth, mismatch?, mismatch?, unclosed, List.foldl_cons, hheed, unopened?]
    · rfl
    · exact hopening
    · exact hclosing

end Descent

open Descent

/-! ## The pass -/

/-- What a pass ends at that `read` leads up to: a marker, a bad one, or the end of the text, where
a marker is missed. -/
inductive Score.EndsBehind (score : Score) (stop : Nat) (lexemes read : List Lexeme) : Prop
  | marker {outcome : Outcome} {span : Span} {rest : List Lexeme}
      (hlexemes : lexemes = read ++ .token (.marker outcome) span :: rest)
      (hmarker : score.marker = some (outcome, span))
  | badMarker {span : Span} {rest : List Lexeme}
      (hlexemes : lexemes = read ++ .token .badMarker span :: rest)
      (hmarker : score.marker = some (.undefined, span))
  | missing (hlexemes : lexemes = read) (hmarker : score.marker = none)
      (hmissing : .fault .missingTerminationMarker ⟨stop, stop⟩ ∈ score.problems)

/-- Among recoverable problems there is no critical one. -/
theorem Recoverable.find?_eq_none {problems : List Problem} (h : Recoverable problems) :
    problems.find? Problem.isCritical = none := by
  rw [List.find?_eq_none]
  intro p hp
  simp [h p hp]

namespace Reader

variable {strict : Bool} {stop : Nat} {opened : List Span} {r r' : Reader} {lexeme : Lexeme}
  {lexemes : List Lexeme}

/-- The lines not closed yet are those of these parentheses, and nothing critical was noted. -/
structure Within (opened : List Span) (r : Reader) : Prop where
  starts : r.starts = opened.map Span.stop
  recoverable : Recoverable r.problems.toList

/-- A reader starts outside all parentheses. -/
theorem Within.start (pos : Nat) : (start pos).Within [] :=
  ⟨rfl, .nil⟩

/-- A reader is in its main line if nothing is open. -/
theorem Within.outer_eq_nil_iff (h : r.Within opened) : r.outer = [] ↔ opened = [] := by
  have hlength := congrArg List.length h.starts
  simp only [Reader.starts, List.length_dropLast, List.length_map, List.length_cons] at hlength
  rw [← List.length_eq_zero_iff, ← List.length_eq_zero_iff]
  omega

/-- A problem that is not critical leaves the reader where it is. -/
theorem Within.note (h : r.Within opened) {problem : Problem}
    (hproblem : problem.isCritical = false) :
    (r.note problem).Within opened where
  starts := h.starts
  recoverable := by
    rw [Reader.note, Array.toList_push]
    exact h.recoverable.append (.cons hproblem .nil)

/-- So does whatever happens to its line. -/
theorem Within.withLine (h : r.Within opened) {line : OpenLine} (hline : line.start = r.line.start)
    (number : Option Nat) : Reader.Within opened { r with line, number } :=
  ⟨(starts_of_line hline).trans h.starts, h.recoverable⟩

/-- A reader that enters a variation is within its parenthesis. -/
theorem Within.enter (h : r.Within opened) (span : Span) :
    (r.enter span).Within (span :: opened) := by
  have hnoted : (if r.line.last.isNone then r.note (.fault .variationWithoutMove span)
      else r).Within opened := by
    split
    · exact h.note rfl
    · exact h
  unfold Reader.enter
  generalize (if r.line.last.isNone then _ else r) = r' at hnoted ⊢
  exact ⟨congrArg (List.cons span.stop) hnoted.starts, hnoted.recoverable⟩

/-- A step keeps count of the open parentheses and notes nothing critical. -/
theorem Within.step (h : r.Within opened) (hstep : r.step? lexeme = some r')
    (hlexeme : ∀ p, lexeme = .openEnd p → p.isCritical = false) :
    r'.Within (heed opened lexeme) := by
  -- A parenthesis changes the lines that are open; of anything else at most a note is made.
  cases lexeme with
  | comment body text =>
    cases hstep
    exact h.withLine (addComment_start ..) r.number
  | openEnd problem =>
    cases hstep
    exact h.note (hlexeme problem rfl)
  | token token span =>
    cases token with
    | number n =>
      cases hstep
      exact h.withLine rfl (some n)
    | san text wellFormed =>
      have hstart : (r.line.addMove text span r.number wellFormed).start = r.line.start :=
        settle_start r.line
      have hmove := h.withLine hstart none
      cases wellFormed with
      | true =>
        cases hstep
        exact hmove
      | false =>
        cases hstep
        exact hmove.note rfl
    | nag nag =>
      simp only [step?] at hstep
      split at hstep
      · next line hline =>
        cases hstep
        exact h.withLine (addNag?_start hline) r.number
      · cases hstep
        exact h.note rfl
    | badNag | unexpected =>
      cases hstep
      exact h.note rfl
    | opening =>
      cases hstep
      exact h.enter span
    | closing =>
      simp only [step?] at hstep
      split at hstep
      · cases hstep
      · next parent outer houter =>
        cases hstep
        have hstarts := h.starts
        rw [Reader.starts, houter] at hstarts
        refine ⟨?_, h.recoverable⟩
        show _ = opened.tail.map Span.stop
        rw [List.map_tail, ← hstarts]
        rfl
    | marker | badMarker =>
      simp only [step?] at hstep
      split at hstep
      · cases hstep
      · cases hstep
        exact h.note rfl

/-- Where the pass goes on, the lexeme fits. -/
theorem Within.fits (h : r.Within opened) (hstep : r.step? lexeme = some r') :
    Fits opened lexeme := by
  intro hnil
  have houter : r.outer = [] := h.outer_eq_nil_iff.2 hnil
  refine ⟨?_, ?_⟩
  · fun_cases isMarker lexeme with
    | case1 | case2 => simp [step?, houter] at hstep
    | case3 => rfl
  · rintro span rfl
    simp [step?, houter] at hstep

/-- The pass ends outside all parentheses, at a marker or at a closing parenthesis. -/
theorem outer_of_halt (hhalt : r.step? lexeme = none) :
    r.outer = [] ∧ (isMarker lexeme = true ∨ ∃ span, lexeme = .token .closing span) := by
  obtain ⟨token, span, rfl⟩ := exists_token_of_halt hhalt
  cases token with
  | marker | badMarker =>
    simp only [step?] at hhalt
    split at hhalt
    · next hempty => exact ⟨List.isEmpty_iff.1 hempty, .inl rfl⟩
    · cases hhalt
  | closing =>
    simp only [step?] at hhalt
    split at hhalt
    · next houter => exact ⟨houter, .inr ⟨span, rfl⟩⟩
    · cases hhalt
  | nag nag =>
    simp only [step?] at hhalt
    split at hhalt <;> cases hhalt
  | _ => cases hhalt

/-- How a pass gets through what stands in front of the first marker that counts: it stops at a
closing parenthesis that closes nothing, or it comes to what stands behind. -/
inductive Passes (strict : Bool) (stop : Nat) (opened : List Span) (r : Reader)
    (lexemes : List Lexeme) : Prop
  | stopped {r' : Reader} {span : Span}
      (hspan : unopened? opened.length (beforeMarker opened.length lexemes) = some span)
      (hrecoverable : Recoverable r'.problems.toList)
      (hrun : r.run strict stop lexemes =
        (r'.note (.fault .unmatchedCloseParen span)).finish stop none)
  | through {r' : Reader} {tail : List Lexeme}
      (hnone : unopened? opened.length (beforeMarker opened.length lexemes) = none)
      (hwithin : r'.Within (unclosed opened (beforeMarker opened.length lexemes)))
      (hlexemes : lexemes = beforeMarker opened.length lexemes ++ tail)
      (htail : tail = [] ∨
        ∃ marker rest, tail = marker :: rest ∧ isMarker marker = true ∧ r'.outer = [])
      (hrun : r.run strict stop lexemes = r'.run strict stop tail)

/-- A reader within parentheses passes lexemes as these say. -/
theorem Within.passes (h : r.Within opened) (strict : Bool) (stop : Nat)
    (hlexemes : ∀ p, .openEnd p ∈ lexemes → p.isCritical = false) :
    Passes strict stop opened r lexemes := by
  -- By induction on the lexemes in front of the marker, which end with a mismatch or without.
  induction lexemes generalizing opened r with
  | nil => exact .through rfl h rfl (.inl rfl) rfl
  | cons lexeme rest ih =>
    cases hstep : r.step? lexeme with
    | some r' =>
      have hfits := h.fits hstep
      have hafter := h.step hstep fun p hp => hlexemes p (hp ▸ List.mem_cons_self)
      have hread := beforeMarker_cons hfits rest
      have hunopened := unopened?_cons hfits (beforeMarker (heed opened lexeme).length rest)
      rw [← hread] at hunopened
      cases ih hafter fun p hp => hlexemes p (List.mem_cons_of_mem lexeme hp) with
      | stopped hspan hrecoverable hrun =>
        exact .stopped (hunopened.trans hspan) hrecoverable ((run_of_step hstep ..).trans hrun)
      | through hnone hwithin hsplit htail hrun =>
        refine .through (hunopened.trans hnone) ?_ ?_ htail ((run_of_step hstep ..).trans hrun)
        · rw [hread]
          exact hwithin
        · rw [hread, List.cons_append, ← hsplit]
    | none =>
      obtain ⟨houter, hkind⟩ := outer_of_halt hstep
      obtain rfl := h.outer_eq_nil_iff.1 houter
      -- Outside all parentheses a marker ends the pass, and a closing one is the mismatch.
      rcases hkind with hmarker | ⟨span, rfl⟩
      · have hread := beforeMarker_of_isMarker hmarker rest
        refine .through ?_ ?_ ?_ (.inr ⟨lexeme, rest, rfl, hmarker, houter⟩) rfl
        · rw [List.length_nil, hread]
          rfl
        · rw [List.length_nil, hread]
          exact h
        · rw [List.length_nil, hread]
          rfl
      · exact .stopped rfl h.recoverable (run_of_halt hstep ..)

/-- Behind recoverable problems the one noted last decides. -/
theorem find?_note_finish (h : Recoverable r.problems.toList) (problem : Problem) (stop : Nat)
    (marker : Option (Outcome × Span)) :
    ((r.note problem).finish stop marker).problems.find? Problem.isCritical =
      if problem.isCritical then some problem else none := by
  rw [finish, note, Array.toList_push, List.find?_append, h.find?_eq_none]
  cases hcritical : problem.isCritical <;> simp [hcritical]

/-- Where the pass comes to the end or to a marker that counts, it fails exactly if a parenthesis is
open, and names the innermost. -/
theorem Within.ends (h : r.Within opened) (hwide : ∀ span ∈ opened, span.stop = span.start + 1)
    {tail : List Lexeme} (htail : tail = [] ∨
      ∃ marker rest, tail = marker :: rest ∧ isMarker marker = true ∧ r.outer = [])
    (strict : Bool) (stop : Nat) :
    (r.run strict stop tail).problems.find? Problem.isCritical =
        opened.head?.map (.fault .unmatchedOpenParen) ∧
      (opened = [] → ∀ read, (r.run strict stop tail).EndsBehind stop (read ++ tail) read) := by
  -- Behind them is nothing or a marker. Only in front of the end can lines be open.
  rcases htail with rfl | ⟨marker, rest, rfl, hmarker, houter⟩
  · cases opened with
    | nil =>
      have hempty : r.outer.isEmpty = true := List.isEmpty_iff.2 (h.outer_eq_nil_iff.2 rfl)
      simp only [run_nil, finishOpen, hempty, if_true]
      refine ⟨find?_note_finish h.recoverable _ stop _, fun _ read => ?_⟩
      exact .missing (List.append_nil read) rfl (Array.mem_toList_iff.2 (Array.mem_push_self))
    | cons span opened =>
      obtain ⟨parent, outer, houter⟩ :=
        List.exists_cons_of_ne_nil (mt h.outer_eq_nil_iff.1 (List.cons_ne_nil span opened))
      -- The innermost open line starts behind its parenthesis, which is the last one opened.
      have hstart : r.line.start = span.stop := by
        have hstarts := h.starts
        rw [Reader.starts, houter] at hstarts
        exact (List.cons.inj hstarts).1
      have hspan : (⟨r.line.start - 1, r.line.start⟩ : Span) = span := by
        rw [hstart, hwide span List.mem_cons_self]
        exact congrArg (Span.mk span.start) (hwide span List.mem_cons_self).symm
      simp only [run_nil, finishOpen, houter, hspan]
      exact ⟨find?_note_finish h.recoverable _ stop _,
        fun hnil => absurd hnil (List.cons_ne_nil span opened)⟩
  · obtain rfl := h.outer_eq_nil_iff.1 houter
    unfold isMarker at hmarker
    split at hmarker
    · next outcome span =>
      rw [run, pass, if_pos (List.isEmpty_iff.2 houter), finishAt_eq]
      refine ⟨Recoverable.find?_eq_none (h.recoverable.append fun p hp => ?_),
        fun _ read => .marker rfl rfl⟩
      split at hp
      · obtain ⟨_, -, rfl⟩ := List.mem_map.1 hp
        rfl
      · cases hp
    · next span =>
      rw [run, pass, if_pos (List.isEmpty_iff.2 houter)]
      exact ⟨find?_note_finish h.recoverable _ stop _, fun _ read => .badMarker rfl rfl⟩
    · cases hmarker

end Reader

/-! ## The statement -/

/-- A parenthesis that is left open was opened by one of the lexemes. -/
theorem Descent.mem_of_mem_unclosed {opened : List Span} {lexemes : List Lexeme} {span : Span}
    (h : span ∈ unclosed opened lexemes) : span ∈ opened ∨ .token .opening span ∈ lexemes := by
  induction lexemes generalizing opened with
  | nil => exact .inl h
  | cons lexeme rest ih =>
    rcases ih h with hheed | hrest
    · unfold heed at hheed
      split at hheed
      · rcases List.mem_cons.1 hheed with rfl | hold
        · exact .inr List.mem_cons_self
        · exact .inl hold
      · exact .inl (List.mem_of_mem_tail hheed)
      · exact .inl hheed
    · exact .inr (List.mem_cons_of_mem lexeme hrest)

/-- The first critical problem of a score is what is wrong with its parentheses. Where nothing is,
the score ends behind what was read. -/
theorem Text.find?_isCritical_score (t : Text) (strict : Bool) (s : Span) :
    (t.score strict s).problems.find? Problem.isCritical =
        mismatch? [] (beforeMarker 0 (t.lexemes s)) ∧
      (mismatch? [] (beforeMarker 0 (t.lexemes s)) = none →
        (t.score strict s).EndsBehind s.stop (t.lexemes s) (beforeMarker 0 (t.lexemes s))) := by
  have hends (p : Problem) (hp : .openEnd p ∈ t.lexemes s) : p.isCritical = false :=
    (isOfPair_of_mem_lexemes hp).isCritical
  rw [mismatch?, List.length_nil]
  -- The first mismatch stops the pass; without any, it is read to the marker or to the end.
  cases (Reader.Within.start s.start).passes strict s.stop hends with
  | stopped hspan hrecoverable hrun =>
    rw [List.length_nil] at hspan
    rw [Text.score, hrun, hspan]
    exact ⟨Reader.find?_note_finish hrecoverable _ s.stop none,
      fun hnone => absurd hnone (Option.some_ne_none _)⟩
  | through hnone hwithin hsplit htail hrun =>
    rw [List.length_nil] at hnone hwithin hsplit
    have hwide (span : Span) (hspan : span ∈ unclosed [] (beforeMarker 0 (t.lexemes s))) :
        span.stop = span.start + 1 := by
      apply (t.laidOut_lexemes s).opening
      rw [hsplit]
      exact List.mem_append_left _ ((mem_of_mem_unclosed hspan).resolve_left List.not_mem_nil)
    obtain ⟨hfound, hbehind⟩ := hwithin.ends hwide htail strict s.stop
    rw [Text.score, hrun, hnone]
    refine ⟨hfound, fun hmatched => ?_⟩
    have hread := hbehind (List.head?_eq_none_iff.1 (Option.map_eq_none_iff.1 hmatched))
      (beforeMarker 0 (t.lexemes s))
    rwa [← hsplit] at hread

/-- Movetext is accepted exactly if its parentheses match up to the first marker that counts. To
whoever objects to nothing, reading it fails at the first closing parenthesis there that closes
nothing, or else at the innermost one still open at the end. Where it does not fail, the marker of
the score is the one that ended it, and the lack of one is a problem at the end. -/
theorem Text.score_accepted_iff_balanced (buffer : Buffer) (strict : Bool) (s : Span) {r : Reporter}
    (hr : r.Obliging) :
    let lexemes := buffer.text.lexemes s
    let read := beforeMarker 0 lexemes
    let score := buffer.text.score strict s
    let failure := (r.reportAll buffer score.problems).1
    (failure = none ↔ balanced 0 read = true) ∧
      failure = (mismatch? [] read).map .fatal ∧
      (failure = none → score.EndsBehind s.stop lexemes read) := by
  intro lexemes read score failure
  obtain ⟨hfound, hends⟩ := buffer.text.find?_isCritical_score strict s
  have hfailure : failure = (mismatch? [] read).map .fatal := by
    rw [← hfound]
    exact (hr.reportAll buffer score.problems).1
  have hnone : failure = none ↔ mismatch? [] read = none := by
    rw [hfailure, Option.map_eq_none_iff]
  exact ⟨hnone.trans (mismatch?_eq_none_iff [] read), hfailure, fun h => hends (hnone.1 h)⟩

/-- The movetext `e4 {)} (d4 * (c4`. -/
def Descent.openSample : Text :=
  .ofBytes ⟨#[0x65, 0x34, 0x20, 0x7b, 0x29, 0x7d, 0x20, 0x28, 0x64, 0x34, 0x20, 0x2a, 0x20, 0x28,
    0x63, 0x34]⟩

/-- Neither the parenthesis in its comment nor the marker in its variation counts, and of the two
variations left open it is the inner one that is named. -/
theorem Text.score_accepted_iff_balanced_of_open :
    Reporter.empty.Obliging ∧
      (Reporter.empty.reportAll ⟨0, Descent.openSample⟩
        (Descent.openSample.score true ⟨0, 16⟩).problems).1 =
          some (.fatal (.fault .unmatchedOpenParen ⟨13, 14⟩)) := by
  refine ⟨.empty, ?_⟩
  rw [(Text.score_accepted_iff_balanced ⟨0, Descent.openSample⟩ true ⟨0, 16⟩ .empty).2.1]
  decide +kernel

end Scorebook
