import Scorebook.Movetext.Score

/-!
# The pass step by step

The pass over the lexemes takes in one lexeme after the other until one of them ends it: a
termination marker outside all parentheses, or a closing parenthesis that closes nothing if the pass
halts there. Here it is told as a step function and what happens at the end (`Reader.pass_cons`), so
that what holds of all passes can be shown of one step. `Reader.taken` is what a pass takes in.
Every problem has its place in it: at a token, at a comment or escaped line that is never ended, or
where the movetext ends.

A step of the pass that halts (`Reader.step?`) is a step of either pass (`Reader.advance?`). The
other one makes one step more, over the parenthesis.
-/

namespace Scorebook

/-- Is this the fault that a token is noted for? -/
def Fault.isOf : Fault → Token → Bool
  | badNag, .badNag | badSan, .san .. | badTerminationMarker, .badMarker
  | markerInVariation, .marker _ | markerInVariation, .badMarker | nagWithoutMove, .nag _
  | unexpectedCharacter, .unexpected | unmatchedCloseParen, .closing
  | variationWithoutMove, .opening => true
  | _, _ => false

/-- Where a token ends. -/
def Lexeme.stopOr (stop : Nat) : Lexeme → Nat
  | .token _ span => span.stop
  | _ => stop

namespace Reader

variable {halts strict : Bool} {stop : Nat} {r r' : Reader} {lexeme : Lexeme}
  {rest lexemes : List Lexeme}

/-- Takes in one lexeme. There is no next state where the pass that halts ends. -/
def step? (r : Reader) : Lexeme → Option Reader
  | .comment _ text => some { r with line := r.line.addComment text }
  | .openEnd problem => some (r.note problem)
  | .token token span =>
    match token with
    | .number n => some { r with number := some n }
    | .san text wellFormed =>
      let r := { r with line := r.line.addMove text span r.number wellFormed, number := none }
      some (if wellFormed then r else r.note (.fault .badSan span))
    | .nag nag =>
      match r.line.addNag? nag with
      | some line => some { r with line }
      | none => some (r.note (.fault .nagWithoutMove span))
    | .badNag => some (r.note (.fault .badNag span))
    | .unexpected => some (r.note (.fault .unexpectedCharacter span))
    | .opening => some (r.enter span)
    | .closing =>
      match r.outer with
      | [] => none
      | parent :: outer =>
        some { r with line := parent.addBranch (r.line.close span.start), outer, number := none }
    | .marker _ | .badMarker =>
      if r.outer.isEmpty then none else some (r.note (.fault .markerInVariation span))

/-- Takes in one lexeme, in a pass that may go on behind a closing parenthesis that closes
nothing. -/
def advance? (halts : Bool) (r : Reader) (lexeme : Lexeme) : Option Reader :=
  match r.step? lexeme, lexeme with
  | some r', _ => some r'
  | none, .token .closing span =>
    if halts then none else some (r.note (.fault .unmatchedCloseParen span))
  | none, _ => none

/-- Ends the pass at this lexeme. -/
def halt (r : Reader) (strict : Bool) (stop : Nat) (rest : List Lexeme) : Lexeme → Score
  | .token (.marker outcome) span => r.finishAt strict stop outcome span rest
  | .token .badMarker span =>
    (r.note (.fault .badTerminationMarker span)).finish stop (some (.undefined, span))
  | .token _ span => (r.note (.fault .unmatchedCloseParen span)).finish stop none
  | _ => r.finish stop none

/-- Where no critical problem stands in the way a pass goes on whether or not it halts at them. -/
theorem advance?_of_step (h : r.step? lexeme = some r') : r.advance? halts lexeme = some r' := by
  simp only [advance?, h]

/-- The pass that halts makes no other steps. -/
@[simp] theorem advance?_true (r : Reader) (lexeme : Lexeme) :
    r.advance? true lexeme = r.step? lexeme := by
  unfold advance?
  split
  · next h => exact h.symm
  · next h => exact h.symm
  · next h => exact h.symm

/-- A step is one of the pass that halts, or goes over a parenthesis that closes nothing. -/
theorem step_or_skip (h : r.advance? halts lexeme = some r') :
    r.step? lexeme = some r' ∨ halts = false ∧ r.outer = [] ∧
      ∃ span, lexeme = .token .closing span ∧ r' = r.note (.fault .unmatchedCloseParen span) := by
  unfold advance? at h
  split at h
  · next hstep => exact .inl (hstep.trans h)
  · next span hstep =>
    cases halts with
    | true => cases h
    | false =>
      have houter : r.outer = [] := by
        simp only [step?] at hstep
        split at hstep
        · assumption
        · cases hstep
      exact .inr ⟨rfl, houter, span, rfl, (Option.some.inj h).symm⟩
  · cases h

/-- Where either pass ends, the one that halts does. -/
theorem step?_of_advance (h : r.advance? halts lexeme = none) : r.step? lexeme = none := by
  cases hstep : r.step? lexeme with
  | none => rfl
  | some r' => rw [advance?_of_step hstep] at h; cases h

/-- The pass takes a step and goes on, or ends. -/
theorem pass_cons (halts strict : Bool) (stop : Nat) (r : Reader) (lexeme : Lexeme)
    (rest : List Lexeme) :
    r.pass halts strict stop (lexeme :: rest) =
      match r.advance? halts lexeme with
      | some r' => r'.pass halts strict stop rest
      | none => r.halt strict stop rest lexeme := by
  cases lexeme with
  | comment | openEnd => rfl
  | token token span =>
    cases token with
    | number | san | badNag | unexpected | opening => rfl
    | nag nag =>
      simp only [pass, advance?, step?]
      cases r.line.addNag? nag <;> rfl
    | closing =>
      simp only [pass, advance?, step?]
      cases r.outer with
      | nil => cases halts <;> rfl
      | cons parent outer => rfl
    | marker | badMarker =>
      simp only [pass, advance?, step?]
      cases r.outer.isEmpty <;> rfl

/-- A pass that goes on behind a lexeme passes the rest. -/
theorem pass_of_advance (h : r.advance? halts lexeme = some r') (strict : Bool) (stop : Nat)
    (rest : List Lexeme) :
    r.pass halts strict stop (lexeme :: rest) = r'.pass halts strict stop rest := by
  rw [pass_cons, h]

/-- A pass that does not go on halts at the lexeme. -/
theorem pass_of_halt (h : r.advance? halts lexeme = none) (strict : Bool) (stop : Nat)
    (rest : List Lexeme) :
    r.pass halts strict stop (lexeme :: rest) = r.halt strict stop rest lexeme := by
  rw [pass_cons, h]

/-- The open lines are closed at the end of the text, whatever is noted there. -/
@[simp] theorem finishOpen_mainLine (r : Reader) (halts : Bool) (stop : Nat) :
    (r.finishOpen halts stop).mainLine = closeAll r.line stop r.outer := by
  unfold finishOpen finish
  split
  · rfl
  · cases halts <;> rfl

/-- A movetext that ends without a marker has none. -/
@[simp] theorem finishOpen_marker (r : Reader) (halts : Bool) (stop : Nat) :
    (r.finishOpen halts stop).marker = none :=
  rfl

/-- Entering a variation opens a line one deeper around which all others wait. -/
theorem exists_enter_eq (r : Reader) (span : Span) :
    ∃ problems, r.enter span =
      ⟨.new r.opened (oneMore r.line.depth) span.stop, r.line :: r.outer, none, r.opened + 1,
        problems⟩ := by
  unfold enter
  by_cases hlast : r.line.last.isNone = true
  · rw [if_pos hlast]
    exact ⟨_, rfl⟩
  · rw [if_neg hlast]
    exact ⟨_, rfl⟩

theorem run_nil (strict : Bool) (stop : Nat) (r : Reader) :
    r.run strict stop [] = r.finishOpen true stop :=
  rfl

/-- A run takes one step after the other. -/
theorem run_of_step (h : r.step? lexeme = some r') (strict : Bool) (stop : Nat)
    (rest : List Lexeme) : r.run strict stop (lexeme :: rest) = r'.run strict stop rest :=
  pass_of_advance (advance?_of_step h) strict stop rest

/-- A run that cannot step halts at the lexeme. -/
theorem run_of_halt (h : r.step? lexeme = none) (strict : Bool) (stop : Nat)
    (rest : List Lexeme) : r.run strict stop (lexeme :: rest) = r.halt strict stop rest lexeme :=
  pass_of_halt ((advance?_true r lexeme).trans h) strict stop rest

/-- A pass ends at a token. -/
theorem exists_token_of_halt (h : r.step? lexeme = none) :
    ∃ token span, lexeme = .token token span := by
  cases lexeme with
  | comment | openEnd => cases h
  | token token span => exact ⟨token, span, rfl⟩

/-- Ending at a marker, with the advice that there is more. -/
theorem finishAt_eq (r : Reader) (strict : Bool) (stop : Nat) (outcome : Outcome) (span : Span)
    (rest : List Lexeme) :
    r.finishAt strict stop outcome span rest =
      ⟨closeAll r.line stop r.outer, some (outcome, span), r.problems.toList ++
        if strict then (firstToken? rest).toList.map fun extra =>
          .tokensAfterTermination span ⟨extra.start, stop⟩
        else []⟩ := by
  unfold finishAt finish
  cases firstToken? rest with
  | none => simp
  | some extra => cases strict <;> simp [note]

/-! ## What is taken in -/

/-- The lexemes that the pass takes in, the one it ends at included. -/
def taken (halts : Bool) (r : Reader) : List Lexeme → List Lexeme
  | [] => []
  | lexeme :: rest =>
    lexeme ::
      match r.advance? halts lexeme with
      | some r' => r'.taken halts rest
      | none => []

/-- Where the pass ends: behind the token it ends at, or where the movetext does. -/
def reach (halts : Bool) (stop : Nat) (r : Reader) : List Lexeme → Nat
  | [] => stop
  | lexeme :: rest =>
    match r.advance? halts lexeme with
    | some r' => r'.reach halts stop rest
    | none => lexeme.stopOr stop

theorem taken_of_advance (h : r.advance? halts lexeme = some r') (rest : List Lexeme) :
    r.taken halts (lexeme :: rest) = lexeme :: r'.taken halts rest := by
  rw [taken, h]

theorem taken_of_step (h : r.step? lexeme = some r') (rest : List Lexeme) :
    r.taken halts (lexeme :: rest) = lexeme :: r'.taken halts rest :=
  taken_of_advance (advance?_of_step h) rest

theorem taken_of_halt (h : r.advance? halts lexeme = none) (rest : List Lexeme) :
    r.taken halts (lexeme :: rest) = [lexeme] := by
  rw [taken, h]

/-- Only lexemes that are there are taken. -/
theorem taken_subset (halts : Bool) (r : Reader) (lexemes : List Lexeme) :
    r.taken halts lexemes ⊆ lexemes := by
  induction lexemes generalizing r with
  | nil => exact List.Subset.refl _
  | cons lexeme rest ih =>
    cases hstep : r.advance? halts lexeme with
    | some r' => rw [taken_of_advance hstep]; exact List.cons_subset_cons lexeme (ih r')
    | none => rw [taken_of_halt hstep]; exact List.cons_subset_cons lexeme (List.nil_subset rest)

/-- What the pass can note of the lexemes it takes in. -/
inductive Notes (stop : Nat) (lexemes : List Lexeme) : Problem → Prop
  | openEnd {problem : Problem} (hmem : .openEnd problem ∈ lexemes) : Notes stop lexemes problem
  | token {token : Token} {span : Span} {kind : Fault} (hmem : .token token span ∈ lexemes)
      (hkind : kind.isOf token = true) : Notes stop lexemes (.fault kind span)
  | unmatched {span : Span} (hmem : .token .opening span ∈ lexemes) :
      Notes stop lexemes (.fault .unmatchedOpenParen ⟨span.stop - 1, span.stop⟩)
  | missing : Notes stop lexemes (.fault .missingTerminationMarker ⟨stop, stop⟩)

/-- What is noted about some lexemes is noted about more. -/
theorem Notes.mono {problem : Problem} (h : Notes stop rest problem) (hsub : rest ⊆ lexemes) :
    Notes stop lexemes problem := by
  cases h with
  | openEnd hmem => exact .openEnd (hsub hmem)
  | token hmem hkind => exact .token (hsub hmem) hkind
  | unmatched hmem => exact .unmatched (hsub hmem)
  | missing => exact .missing

/-- The first token is one of the lexemes. -/
theorem mem_of_firstToken? {span : Span} (h : firstToken? lexemes = some span) :
    ∃ token, .token token span ∈ lexemes := by
  induction lexemes with
  | nil => cases h
  | cons lexeme rest ih =>
    cases lexeme with
    | token token first =>
      cases h
      exact ⟨token, List.mem_cons_self⟩
    | comment | openEnd =>
      obtain ⟨token, hmem⟩ := ih h
      exact ⟨token, List.mem_cons_of_mem _ hmem⟩

/-- The pass ends at a marker behind these lexemes, and this is the advice it is ended with. -/
structure Advises (strict : Bool) (stop : Nat) (taken lexemes : List Lexeme) (problem : Problem) :
    Prop where
  strict : strict = true
  split : ∃ before outcome marker rest extra,
    taken = before ++ [.token (.marker outcome) marker] ∧
      lexemes = before ++ .token (.marker outcome) marker :: rest ∧
      firstToken? rest = some extra ∧
      problem = .tokensAfterTermination marker ⟨extra.start, stop⟩

/-- Advice about the rest is advice about all. -/
theorem Advises.cons {problem : Problem}
    (h : Advises strict stop (r.taken halts rest) rest problem) (lexeme : Lexeme) :
    Advises strict stop (lexeme :: r.taken halts rest) (lexeme :: rest) problem := by
  obtain ⟨hstrict, before, outcome, marker, behind, extra, htaken, hlexemes, hextra, hproblem⟩ := h
  exact ⟨hstrict, lexeme :: before, outcome, marker, behind, extra,
    by rw [htaken, List.cons_append], by rw [hlexemes, List.cons_append], hextra, hproblem⟩

/-- Where the lines around the main line start that are not closed yet. -/
def starts (r : Reader) : List Nat :=
  ((r.line :: r.outer).map OpenLine.start).dropLast

/-- The lines not closed yet were opened by these lexemes. -/
def OpenedBy (r : Reader) (lexemes : List Lexeme) : Prop :=
  ∀ pos ∈ r.starts, ∃ span, .token .opening span ∈ lexemes ∧ pos = span.stop

theorem settle_start (l : OpenLine) : l.settle.start = l.start := by
  unfold OpenLine.settle
  split <;> rfl

theorem addComment_start (l : OpenLine) (text : String) : (l.addComment text).start = l.start := by
  unfold OpenLine.addComment
  split
  · rfl
  · split <;> rfl

theorem addNag?_start {l line : OpenLine} {nag : Nag} (h : l.addNag? nag = some line) :
    line.start = l.start := by
  obtain ⟨_, -, rfl⟩ := Option.map_eq_some_iff.1 h
  rfl

/-- What one step opens and notes. -/
structure StepNotes (lexeme : Lexeme) (r r' : Reader) : Prop where
  starts : r'.starts ⊆ r.starts ∨
    ∃ span, lexeme = .token .opening span ∧ r'.starts = span.stop :: r.starts
  problems : ∀ p ∈ r'.problems, p ∈ r.problems ∨ lexeme = .openEnd p ∨
    ∃ token span kind, lexeme = .token token span ∧ kind.isOf token = true ∧ p = .fault kind span

theorem starts_of_line {line : OpenLine} (h : line.start = r.line.start) {number : Option Nat}
    {problems : Array Problem} :
    (⟨line, r.outer, number, r.opened, problems⟩ : Reader).starts = r.starts := by
  simp only [starts, List.map_cons, h]

theorem mem_note {problem p : Problem} (h : p ∈ (r.note problem).problems) :
    p ∈ r.problems ∨ p = problem :=
  Array.mem_push.1 h

/-- A fault of a token is noted at the token. -/
theorem stepNotes_of_token {token : Token} {span : Span} {kind : Fault}
    (hkind : kind.isOf token = true) (hstarts : r'.starts = r.starts)
    (hproblems : r'.problems = r.problems) :
    StepNotes (.token token span) r (r'.note (.fault kind span)) where
  starts := .inl (hstarts ▸ List.Subset.refl _)
  problems p hp := by
    rcases mem_note hp with hold | rfl
    · exact .inl (hproblems ▸ hold)
    · exact .inr (.inr ⟨token, span, kind, rfl, hkind, rfl⟩)

/-- A step that adds no problem notes nothing. -/
theorem stepNotes_of_same (hstarts : r'.starts ⊆ r.starts) (hproblems : r'.problems = r.problems) :
    StepNotes lexeme r r' :=
  ⟨.inl hstarts, fun _ hp => .inl (hproblems ▸ hp)⟩

/-- What a step notes is about its lexeme, or about the line it opens. -/
theorem stepNotes_of_step (h : r.step? lexeme = some r') : StepNotes lexeme r r' := by
  -- The lines that are open start where they did, unless one is opened or closed.
  have hsame {line : OpenLine} (hline : line.start = r.line.start) {number : Option Nat} :
      (⟨line, r.outer, number, r.opened, r.problems⟩ : Reader).starts ⊆ r.starts :=
    starts_of_line hline ▸ List.Subset.refl _
  cases lexeme with
  | comment body text =>
    cases h
    exact stepNotes_of_same (hsame (addComment_start ..)) rfl
  | openEnd problem =>
    cases h
    refine ⟨.inl (List.Subset.refl _), fun p hp => ?_⟩
    rcases mem_note hp with hold | rfl
    · exact .inl hold
    · exact .inr (.inl rfl)
  | token token span =>
    cases token with
    | number n =>
      cases h
      exact stepNotes_of_same (hsame rfl) rfl
    | san text wellFormed =>
      have hline : (r.line.addMove text span r.number wellFormed).start = r.line.start :=
        settle_start r.line
      cases wellFormed with
      | true =>
        cases h
        exact stepNotes_of_same (hsame hline) rfl
      | false =>
        cases h
        exact stepNotes_of_token rfl (starts_of_line hline) rfl
    | nag nag =>
      simp only [step?] at h
      split at h
      · next line hline =>
        cases h
        exact stepNotes_of_same (hsame (addNag?_start hline)) rfl
      · cases h
        exact stepNotes_of_token rfl rfl rfl
    | badNag | unexpected =>
      cases h
      exact stepNotes_of_token rfl rfl rfl
    | opening =>
      cases h
      refine ⟨.inr ⟨span, rfl, ?_⟩, fun p hp => ?_⟩
      · unfold enter
        split <;> rfl
      · unfold enter at hp
        split at hp
        · -- A variation that follows no move is noted, any other is just entered.
          have hnotes : StepNotes (.token .opening span) r
              (r.note (.fault .variationWithoutMove span)) := stepNotes_of_token rfl rfl rfl
          exact hnotes.problems p hp
        · exact .inl hp
    | closing =>
      simp only [step?] at h
      split at h
      · cases h
      · next parent outer houter =>
        cases h
        refine stepNotes_of_same ?_ rfl
        -- The line around is one of those that were open.
        simp only [starts, houter, List.map_cons, OpenLine.addBranch]
        exact List.subset_cons_self ..
    | marker | badMarker =>
      simp only [step?] at h
      split at h
      · cases h
      · cases h
        exact stepNotes_of_token rfl rfl rfl

/-- So is what a pass notes that goes on behind critical problems. -/
theorem stepNotes (h : r.advance? halts lexeme = some r') : StepNotes lexeme r r' := by
  rcases step_or_skip h with hstep | ⟨-, -, span, rfl, rfl⟩
  · exact stepNotes_of_step hstep
  · exact stepNotes_of_token rfl rfl rfl

theorem OpenedBy.step (h : r.OpenedBy lexemes) (hstep : r.advance? halts lexeme = some r') :
    r'.OpenedBy (lexemes ++ [lexeme]) := by
  have hkept (pos : Nat) (hpos : pos ∈ r.starts) :
      ∃ span, .token .opening span ∈ lexemes ++ [lexeme] ∧ pos = span.stop := by
    obtain ⟨span, hmem, heq⟩ := h pos hpos
    exact ⟨span, List.mem_append_left _ hmem, heq⟩
  intro pos hpos
  rcases (stepNotes hstep).starts with hsub | ⟨span, rfl, hstarts⟩
  · exact hkept pos (hsub hpos)
  · rw [hstarts] at hpos
    rcases List.mem_cons.1 hpos with rfl | hold
    · exact ⟨span, List.mem_append_right _ List.mem_cons_self, rfl⟩
    · exact hkept pos hold

/-- At the end of the movetext the innermost line still open is noted, or the marker missed. -/
theorem notes_finishOpen (h : r.OpenedBy lexemes) {p : Problem}
    (hp : p ∈ (r.finishOpen halts stop).problems) : p ∈ r.problems ∨ Notes stop lexemes p := by
  -- Both endings note a missing marker, the one with open lines notes these before it.
  have hmissing {r' : Reader} (hp : p ∈ (r'.note (.fault .missingTerminationMarker
      ⟨stop, stop⟩)).problems) : p ∈ r'.problems ∨ Notes stop lexemes p := by
    refine (mem_note hp).imp_right ?_
    rintro rfl
    exact .missing
  replace hp := Array.mem_toList_iff.1 hp
  split at hp
  · exact hmissing hp
  · next houter =>
    -- The innermost open line starts behind the parenthesis that opened it.
    have hline : r.line.start ∈ r.starts := by
      obtain ⟨parent, outer, hcons⟩ := List.exists_cons_of_ne_nil (mt List.isEmpty_iff.2 houter)
      simp [starts, hcons]
    obtain ⟨span, hmem, hstart⟩ := h _ hline
    have hopen (hp : p ∈ (r.note (.fault .unmatchedOpenParen
        ⟨r.line.start - 1, r.line.start⟩)).problems) : p ∈ r.problems ∨ Notes stop lexemes p := by
      refine (mem_note hp).imp_right ?_
      rintro rfl
      rw [hstart]
      exact .unmatched hmem
    split at hp
    · exact hopen hp
    · exact (hmissing hp).elim hopen .inr

/-- What a pass notes when it halts is about the lexeme it halts at, or advice about what follows.
-/
theorem notes_halt {p : Problem} (hhalt : r.step? lexeme = none)
    (hp : p ∈ (r.halt strict stop rest lexeme).problems) :
    p ∈ r.problems ∨ Notes stop [lexeme] p ∨ Advises strict stop [lexeme] (lexeme :: rest) p := by
  -- Of one token a halted pass notes one fault at most, of the kind the token has.
  have hnoted {token : Token} {span : Span} {kind : Fault} (hkind : kind.isOf token = true)
      (hp : p ∈ (r.note (.fault kind span)).problems.toList) :
      p ∈ r.problems ∨ Notes stop [.token token span] p ∨
        Advises strict stop [.token token span] (.token token span :: rest) p := by
    rcases mem_note (Array.mem_toList_iff.1 hp) with hold | rfl
    · exact .inl hold
    · exact .inr (.inl (.token List.mem_cons_self hkind))
  obtain ⟨token, span, rfl⟩ := exists_token_of_halt hhalt
  cases token with
  | marker outcome =>
    simp only [halt, finishAt_eq, List.mem_append, Array.mem_toList_iff] at hp
    -- At the marker, in strict mode, the lexemes behind it are advised against.
    refine hp.imp_right fun hp => .inr ?_
    split at hp
    · next hstrict =>
      obtain ⟨extra, hextra, rfl⟩ := List.mem_map.1 hp
      exact ⟨hstrict, [], outcome, span, rest, extra, rfl, rfl, Option.mem_toList.1 hextra, rfl⟩
    · cases hp
  | closing | badMarker => exact hnoted rfl hp
  | nag nag =>
    simp only [step?] at hhalt
    split at hhalt <;> cases hhalt
  | _ => cases hhalt

/-- Every problem of a pass was there before, lies at a lexeme taken in or at the end, or is the
advice that there is more. -/
theorem notes_pass {earlier : List Lexeme} (h : r.OpenedBy earlier) {p : Problem}
    (hp : p ∈ (r.pass halts strict stop lexemes).problems) :
    p ∈ r.problems ∨ Notes stop (earlier ++ r.taken halts lexemes) p ∨
      Advises strict stop (r.taken halts lexemes) lexemes p := by
  -- By induction on the lexemes: those taken so far have opened the lines that are open.
  induction lexemes generalizing r earlier with
  | nil =>
    rw [taken, List.append_nil]
    exact (notes_finishOpen h hp).imp_right .inl
  | cons lexeme rest ih =>
    cases hstep : r.advance? halts lexeme with
    | none =>
      rw [taken_of_halt hstep]
      rw [pass_of_halt hstep] at hp
      exact (notes_halt (step?_of_advance hstep) hp).imp_right
        (.imp_left (·.mono (List.subset_append_right ..)))
    | some r' =>
      rw [taken_of_advance hstep, List.append_cons]
      rw [pass_of_advance hstep] at hp
      have hmem : lexeme ∈ earlier ++ [lexeme] ++ r'.taken halts rest := by simp
      rcases ih (h.step hstep) hp with hbefore | hnotes | hadvises
      · -- What one step notes is of its lexeme, which is among those taken.
        rcases (stepNotes hstep).problems p hbefore with
          hold | rfl | ⟨token, span, kind, rfl, hkind, rfl⟩
        · exact .inl hold
        · exact .inr (.inl (.openEnd hmem))
        · exact .inr (.inl (.token hmem hkind))
      · exact .inr (.inl hnotes)
      · exact .inr (.inr (hadvises.cons lexeme))

end Reader

end Scorebook
