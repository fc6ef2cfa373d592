import Scorebook.Game
import Scorebook.Proofs.Recoverable

/-!
# The problems of a game

Whatever is wrong with a game is wrong with its text: reading one knows nothing of catalogues and
files. And next to nothing of it is critical, for a game can be given in spite of any problem but a
parenthesis without its partner.
-/

namespace Scorebook

/-- The problem is one of the text, and not of the catalogue or the system. -/
def Problem.IsOfText : Problem → Prop
  | fault .. | tokensAfterTermination .. => True
  | gameOutOfRange .. | hashMismatch .. | io _ => False

/-- Every fault is about the text. -/
theorem Problem.isOfText_fault (kind : Fault) (span : Span) : (fault kind span).IsOfText :=
  trivial

/-- The problem is a parenthesis without its partner. -/
def Problem.IsUnmatched (p : Problem) : Prop :=
  ∃ span, p = .fault .unmatchedOpenParen span ∨ p = .fault .unmatchedCloseParen span

/-- A problem of a pair is about the text. -/
theorem Problem.IsOfPair.isOfText {p : Problem} (h : p.IsOfPair) : p.IsOfText := by
  obtain ⟨kind, span, rfl, -⟩ := h
  trivial

/-- Nothing else about a text is critical. -/
theorem Problem.IsOfText.isUnmatched {p : Problem} (h : p.IsOfText)
    (hcritical : p.isCritical = true) : p.IsUnmatched := by
  cases p with
  | fault kind span =>
    cases kind with
    | unmatchedOpenParen => exact ⟨span, .inl rfl⟩
    | unmatchedCloseParen => exact ⟨span, .inr rfl⟩
    | _ => cases hcritical
  | tokensAfterTermination => cases hcritical
  | gameOutOfRange | hashMismatch | io => cases h

/-! ## Lexemes -/

/-- Movetext that is left open is left open by a gap. -/
theorem Text.isOfPair_of_mem_lexemesFrom {t : Text} {pos : Nat} {lexemes : Array Lexeme}
    {problem : Problem} (hbefore : .openEnd problem ∈ lexemes → problem.IsOfPair)
    (h : .openEnd problem ∈ t.lexemesFrom pos lexemes) : problem.IsOfPair := by
  have hgap {pos : Nat} {lexemes : Array Lexeme}
      (hbefore : .openEnd problem ∈ lexemes → problem.IsOfPair)
      (h : .openEnd problem ∈ lexemes ++ t.gapLexemes (t.gap pos)) : problem.IsOfPair := by
    rcases Array.mem_append.1 h with hold | hnew
    · exact hbefore hold
    · rcases Array.mem_append.1 hnew with hcomment | hproblem
      · obtain ⟨body, -, hbody⟩ := Array.mem_map.1 hcomment
        cases hbody
      · obtain ⟨problem', hmem, heq⟩ := Array.mem_map.1 hproblem
        cases heq
        exact isOfPair_of_gapFrom (Option.mem_toArray.1 hmem)
  -- Only a gap brings forth an open end; the token behind it is none.
  fun_induction Text.lexemesFrom t pos lexemes with
  | case1 pos lexemes gap lexemes' hend => exact hgap hbefore h
  | case2 pos lexemes gap lexemes' first hfirst read ih =>
    refine ih ?_ h
    intro hmem
    rcases Array.mem_push.1 hmem with hold | htoken
    · exact hgap hbefore hold
    · cases htoken

/-- What is never ended in a text is at fault as a gap is. -/
theorem Text.isOfPair_of_mem_lexemes {t : Text} {s : Span} {problem : Problem}
    (h : .openEnd problem ∈ t.lexemes s) : problem.IsOfPair :=
  isOfPair_of_mem_lexemesFrom (fun hnone => absurd hnone (Array.not_mem_empty _))
    (Array.mem_toList_iff.1 h)

/-! ## Scores -/

namespace Reader

/-- All problems noted so far are of the text. -/
def Sound (r : Reader) : Prop :=
  ∀ p ∈ r.problems, p.IsOfText

/-- A reader that has read nothing has no problems. -/
theorem Sound.start (pos : Nat) : (Reader.start pos).Sound :=
  fun p hp => absurd hp (Array.not_mem_empty p)

variable {r : Reader}

/-- A reader stays sound when it notes a problem of the text. -/
theorem Sound.note (h : r.Sound) {problem : Problem} (hproblem : problem.IsOfText) :
    (r.note problem).Sound := by
  intro p hp
  rcases Array.mem_push.1 hp with hold | rfl
  · exact h p hold
  · exact hproblem

/-- Entering a variation notes nothing that is not about the text. -/
theorem Sound.enter (h : r.Sound) (span : Span) : (r.enter span).Sound := by
  unfold Reader.enter
  split
  · exact h.note (Problem.isOfText_fault .variationWithoutMove span)
  · exact h

/-- At the end only problems of the text are left. -/
theorem Sound.finish (h : r.Sound) (stop : Nat) (marker : Option (Outcome × Span)) :
    ∀ p ∈ (r.finish stop marker).problems, p.IsOfText :=
  fun p hp => h p (Array.mem_toList_iff.1 hp)

/-- So they are at a marker. -/
theorem Sound.finishAt (h : r.Sound) (strict : Bool) (stop : Nat) (outcome : Outcome) (span : Span)
    (rest : List Lexeme) : ∀ p ∈ (r.finishAt strict stop outcome span rest).problems,
      p.IsOfText := by
  unfold Reader.finishAt
  apply Sound.finish
  split
  · split
    · exact h.note trivial
    · exact h
  · exact h

/-- What one pass over lexemes finds is of the text. -/
theorem Sound.pass (h : r.Sound) {halts strict : Bool} {stop : Nat} {lexemes : List Lexeme}
    (hlexemes : ∀ p, .openEnd p ∈ lexemes → p.IsOfText) :
    ∀ p ∈ (r.pass halts strict stop lexemes).problems, p.IsOfText := by
  -- By induction on the lexemes: whatever a lexeme has noted is one of the problems of a text.
  induction lexemes generalizing r with
  | nil =>
    apply Sound.finish
    split
    · exact h.note trivial
    · split
      · exact h.note trivial
      · have hopen := h.note (Problem.isOfText_fault .unmatchedOpenParen
          ⟨r.line.start - 1, r.line.start⟩)
        exact hopen.note trivial
  | cons lexeme rest ih =>
    have ih {r : Reader} (h : r.Sound) :=
      ih h fun p hp => hlexemes p (List.mem_cons_of_mem lexeme hp)
    cases lexeme with
    | comment body text => exact ih h
    | openEnd problem => exact ih (h.note (hlexemes problem List.mem_cons_self))
    | token token span =>
      cases token with
      | number n => exact ih h
      | san text wellFormed =>
        apply ih
        split
        · exact h
        · exact Sound.note (r := { r with
            line := r.line.addMove text span r.number wellFormed, number := none }) h trivial
      | nag nag =>
        simp only [Reader.pass]
        split
        · exact ih h
        · exact ih (h.note trivial)
      | badNag | unexpected => exact ih (h.note trivial)
      | opening => exact ih (h.enter span)
      | closing =>
        simp only [Reader.pass]
        split
        · have hnoted := h.note (Problem.isOfText_fault .unmatchedCloseParen span)
          split
          · exact hnoted.finish stop none
          · exact ih hnoted
        · exact ih h
      | marker outcome =>
        simp only [Reader.pass]
        split
        · exact h.finishAt strict stop outcome span rest
        · exact ih (h.note trivial)
      | badMarker =>
        simp only [Reader.pass]
        split
        · exact (h.note (Problem.isOfText_fault _ _)).finish stop _
        · exact ih (h.note trivial)

end Reader

/-- All problems of reading movetext are about the text. -/
theorem Text.isOfText_of_mem_score {t : Text} {strict : Bool} {s : Span} {problem : Problem}
    (h : problem ∈ (t.score strict s).problems) : problem.IsOfText := by
  refine (Reader.Sound.start s.start).pass ?_ problem h
  intro p hp
  exact (isOfPair_of_mem_lexemes hp).isOfText

/-- Only a parenthesis without its partner can keep a game from being given. -/
theorem Game.isUnmatched_of_isCritical {buffer : Buffer} {strict : Bool} {n : Nat} {entry : Entry}
    {problem : Problem} (h : problem ∈ (Game.read buffer strict n entry).problems)
    (hcritical : problem.isCritical = true) : problem.IsUnmatched := by
  rcases List.mem_append.1 h with hheader | hscore
  · -- All of a header can be passed over.
    have hnone : Recoverable (#[] : Array Problem).toList := .nil
    have hrecoverable := Text.recoverable_headerFrom hnone problem hheader
    rw [hcritical] at hrecoverable
    cases hrecoverable
  · exact (Text.isOfText_of_mem_score hscore).isUnmatched hcritical

end Scorebook
