import Scorebook.Proofs.Movetext.Steps
import Scorebook.Proofs.Movetext.Words

/-!
# What is in the gaps does not matter

A score without places and comments is `Score.bare`. Everything the pass does to a reader it does to
the reader without places and comments as well, and comments it does not take in at all, so the bare
score is a score of the tokens alone (`Reader.run_bare`). Two movetexts that have the same words,
however these are spaced, commented and escaped, therefore have the same bare score
(`Text.gaps_are_transparent`).
-/

namespace Scorebook

/-! ## Without places and comments -/

/-- The problem without its place. -/
def Problem.bare : Problem → Problem
  | .fault kind _ => .fault kind ⟨0, 0⟩
  | .gameOutOfRange game _ => .gameOutOfRange game ⟨0, 0⟩
  | .hashMismatch game _ => .hashMismatch game ⟨0, 0⟩
  | .tokensAfterTermination _ _ => .tokensAfterTermination ⟨0, 0⟩ ⟨0, 0⟩
  | .io reason => .io reason

mutual

/-- The line without its place and comment, and without those of all that is in it. -/
def Variation.bare : Variation → Variation
  | ⟨id, depth, _, _, moves, strays⟩ =>
    ⟨id, depth, ⟨0, 0⟩, none, bareMoves moves, bareVariations strays⟩

/-- The moves without places and comments. -/
def bareMoves : List Move → List Move
  | [] => []
  | m :: rest => m.bare :: bareMoves rest

/-- The move without its place and comment, and without those of its alternatives. -/
def Move.bare : Move → Move
  | ⟨san, _, number, indicated, _, nags, wellFormed, variations⟩ =>
    ⟨san, ⟨0, 0⟩, number, indicated, none, nags, wellFormed, bareVariations variations⟩

/-- The lines without places and comments. -/
def bareVariations : List Variation → List Variation
  | [] => []
  | v :: rest => v.bare :: bareVariations rest

end

@[simp] theorem bareMoves_eq_map (moves : List Move) : bareMoves moves = moves.map Move.bare := by
  induction moves with
  | nil => rfl
  | cons m moves ih => rw [bareMoves, ih, List.map_cons]

@[simp] theorem bareVariations_eq_map (vs : List Variation) :
    bareVariations vs = vs.map Variation.bare := by
  induction vs with
  | nil => rfl
  | cons v vs ih => rw [bareVariations, ih, List.map_cons]

theorem Move.bare_eq (m : Move) :
    m.bare = ⟨m.san, ⟨0, 0⟩, m.number, m.indicated, none, m.nags, m.wellFormed,
      m.variations.map Variation.bare⟩ := by
  cases m
  rw [bare, bareVariations_eq_map]

/-- The score without places and comments. -/
def Score.bare (score : Score) : Score :=
  ⟨score.mainLine.bare, score.marker.map fun (outcome, _) => (outcome, ⟨0, 0⟩),
    score.problems.map Problem.bare⟩

@[simp] theorem Problem.isAdvisory_bare (p : Problem) : p.bare.isAdvisory = p.isAdvisory := by
  cases p with
  | fault kind span => cases kind <;> rfl
  | _ => rfl

@[simp] theorem Problem.verdict_bare (p : Problem) : p.bare.verdict = p.verdict := by
  cases p <;> rfl

/-- Where problems lie and what is commented does not show in the verdict. -/
@[simp] theorem Score.verdict_bare (score : Score) : score.bare.verdict = score.verdict := by
  simp only [verdict, bare, Verdict.ofProblems, List.find?_map, Function.comp_def,
    Problem.isAdvisory_bare, Option.map_map, Problem.verdict_bare]

/-- The lexeme without its place. Comments are left out. -/
def Lexeme.bare? : Lexeme → Option Lexeme
  | .comment _ _ => none
  | .openEnd problem => some (.openEnd problem.bare)
  | .token kind _ => some (.token kind ⟨0, 0⟩)

/-! ## Lines without places and comments -/

namespace OpenLine

/-- The line without places and comments. -/
def bare (l : OpenLine) : OpenLine :=
  ⟨l.id, l.depth, 0, none, l.moves.map Move.bare, l.last.map Move.bare,
    l.branches.map Variation.bare, l.strays.map Variation.bare⟩

@[simp] theorem bare_new (id depth start : Nat) : (new id depth start).bare = new id depth 0 :=
  rfl

@[simp] theorem bare_settle (l : OpenLine) : l.settle.bare = l.bare.settle := by
  obtain ⟨id, depth, start, comment, moves, last, branches, strays⟩ := l
  cases last with
  | none => simp [settle, bare]
  | some m => simp [settle, bare, Move.bare_eq]

@[simp] theorem bare_close (l : OpenLine) (stop : Nat) : (l.close stop).bare = l.bare.close 0 := by
  simp only [close, Variation.bare, ← bare_settle]
  simp [bare]

@[simp] theorem bare_addComment (l : OpenLine) (text : String) :
    (l.addComment text).bare = l.bare := by
  obtain ⟨id, depth, start, comment, moves, last, branches, strays⟩ := l
  unfold addComment
  split
  · rfl
  · cases last with
    | none => rfl
    | some m => simp [bare, Move.bare_eq]

@[simp] theorem bare_addMove (l : OpenLine) (san : String) (span : Span) (indicated : Option Nat)
    (wellFormed : Bool) :
    (l.addMove san span indicated wellFormed).bare =
      l.bare.addMove san ⟨0, 0⟩ indicated wellFormed := by
  have hcount : l.bare.count = l.count := by
    obtain ⟨id, depth, start, comment, moves, last, branches, strays⟩ := l
    cases last <;> simp [bare, count, Move.bare_eq]
  simp only [addMove, hcount, ← bare_settle]
  simp [bare, Move.bare_eq]

theorem bare_addNag? (l : OpenLine) (nag : Nag) :
    (l.addNag? nag).map bare = l.bare.addNag? nag := by
  obtain ⟨id, depth, start, comment, moves, last, branches, strays⟩ := l
  cases last <;> simp [bare, addNag?, Move.bare_eq]

@[simp] theorem bare_addBranch (l : OpenLine) (v : Variation) :
    (l.addBranch v).bare = l.bare.addBranch v.bare := by
  simp [addBranch, bare]

end OpenLine

/-! ## The pass without places and comments -/

namespace Reader

/-- The reader without places and comments. -/
def bare (r : Reader) : Reader :=
  ⟨r.line.bare, r.outer.map OpenLine.bare, r.number, r.opened, r.problems.map Problem.bare⟩

@[simp] theorem bare_start (pos : Nat) : (start pos).bare = start 0 := by
  simp [start, bare]

@[simp] theorem bare_note (r : Reader) (problem : Problem) :
    (r.note problem).bare = r.bare.note problem.bare := by
  simp [note, bare]

/-- Entering a variation does not depend on places. -/
@[simp] theorem bare_enter (r : Reader) (span : Span) :
    (r.enter span).bare = r.bare.enter ⟨0, 0⟩ := by
  have hlast : r.bare.line.last.isNone = r.line.last.isNone := by simp [bare, OpenLine.bare]
  unfold enter
  rw [hlast]
  cases r.line.last.isNone <;> simp [bare, note, Problem.bare, OpenLine.bare, OpenLine.new]

theorem bare_closeAll (line : OpenLine) (stop : Nat) (outer : List OpenLine) :
    (closeAll line stop outer).bare = closeAll line.bare 0 (outer.map OpenLine.bare) := by
  induction outer generalizing line with
  | nil => exact OpenLine.bare_close line stop
  | cons parent outer ih =>
    rw [closeAll, ih, List.map_cons, closeAll, OpenLine.bare_addBranch, OpenLine.bare_close]

theorem bare_finish (r : Reader) (stop : Nat) (marker : Option (Outcome × Span)) :
    (r.finish stop marker).bare =
      r.bare.finish 0 (marker.map fun (outcome, _) => (outcome, ⟨0, 0⟩)) := by
  simp [finish, Score.bare, bare_closeAll, bare]

theorem bare_finishOpen (r : Reader) (halts : Bool) (stop : Nat) :
    (r.finishOpen halts stop).bare = r.bare.finishOpen halts 0 := by
  have houter : r.bare.outer.isEmpty = r.outer.isEmpty := by simp [bare]
  have hstart : r.bare.line.start = 0 := rfl
  unfold finishOpen
  rw [bare_finish, houter, hstart]
  cases r.outer.isEmpty <;> cases halts <;> simp [Problem.bare]

/-- The first token is the first one without its place as well. -/
theorem firstToken?_bare (lexemes : List Lexeme) :
    firstToken? (lexemes.filterMap Lexeme.bare?) =
      (firstToken? lexemes).map fun _ => ⟨0, 0⟩ := by
  induction lexemes with
  | nil => rfl
  | cons lexeme rest ih =>
    cases lexeme with
    | comment body text => exact ih
    | openEnd problem => exact ih
    | token token span => rfl

theorem bare_finishAt (r : Reader) (strict : Bool) (stop : Nat) (outcome : Outcome) (span : Span)
    (rest : List Lexeme) :
    (r.finishAt strict stop outcome span rest).bare =
      r.bare.finishAt strict 0 outcome ⟨0, 0⟩ (rest.filterMap Lexeme.bare?) := by
  unfold finishAt
  rw [bare_finish, firstToken?_bare]
  cases firstToken? rest with
  | none => rfl
  | some extra => cases strict <;> simp [Problem.bare]

/-- One token does to the bare reader what it does to the reader. -/
theorem bare_step? (r : Reader) (token : Token) (span : Span) :
    (r.step? (.token token span)).map bare = r.bare.step? (.token token ⟨0, 0⟩) := by
  -- The places that a step notes are laid aside on both sides.
  cases token with
  | number n => rfl
  | san text wellFormed =>
    cases wellFormed <;> simp [step?, note, bare, Problem.bare]
  | nag nag =>
    simp only [step?]
    rw [show r.bare.line = r.line.bare from rfl, ← OpenLine.bare_addNag?]
    cases r.line.addNag? nag with
    | none => simp [Problem.bare]
    | some line => rfl
  | badNag | unexpected => simp [step?, Problem.bare]
  | opening => simp [step?]
  | closing =>
    obtain ⟨line, outer, number, opened, problems⟩ := r
    cases outer with
    | nil => rfl
    | cons parent outer => simp [step?, bare]
  | marker | badMarker =>
    have houter : r.bare.outer.isEmpty = r.outer.isEmpty := by simp [bare]
    simp only [step?, houter]
    cases r.outer.isEmpty <;> simp [Problem.bare]

/-- So does one token in a pass that may go on behind a critical problem. -/
theorem bare_advance? (halts : Bool) (r : Reader) (token : Token) (span : Span) :
    (r.advance? halts (.token token span)).map bare =
      r.bare.advance? halts (.token token ⟨0, 0⟩) := by
  have hstep := bare_step? r token span
  cases hnext : r.step? (.token token span) with
  | some r' =>
    rw [hnext] at hstep
    rw [advance?_of_step hnext, advance?_of_step hstep.symm]
    rfl
  | none =>
    rw [hnext] at hstep
    replace hstep : r.bare.step? (.token token ⟨0, 0⟩) = none := hstep.symm
    simp only [advance?, hnext, hstep]
    cases token with
    | closing => cases halts <;> simp [Problem.bare]
    | _ => rfl

/-- Nor does halting at a token. -/
theorem bare_halt (r : Reader) (strict : Bool) (stop : Nat) (rest : List Lexeme) (token : Token)
    (span : Span) :
    (r.halt strict stop rest (.token token span)).bare =
      r.bare.halt strict 0 (rest.filterMap Lexeme.bare?) (.token token ⟨0, 0⟩) := by
  cases token with
  | marker outcome => exact bare_finishAt ..
  | _ => simp [halt, bare_finish, Problem.bare]

/-- Without places and comments, a pass is a pass over the tokens without their places. -/
theorem pass_bare (halts strict : Bool) (stop : Nat) (r : Reader) (lexemes : List Lexeme) :
    (r.pass halts strict stop lexemes).bare =
      r.bare.pass halts strict 0 (lexemes.filterMap Lexeme.bare?) := by
  -- By induction on the lexemes, of which only the tokens are left.
  induction lexemes generalizing r with
  | nil => exact bare_finishOpen r halts stop
  | cons lexeme rest ih =>
    cases lexeme with
    | comment body text =>
      have hline : ({ r with line := r.line.addComment text } : Reader).bare = r.bare := by
        simp [bare]
      rw [pass_of_advance (advance?_of_step rfl), ih, hline]
      rfl
    | openEnd problem =>
      rw [pass_of_advance (advance?_of_step rfl), ih, bare_note]
      rfl
    | token token span =>
      have hcons : (Lexeme.token token span :: rest).filterMap Lexeme.bare? =
          .token token ⟨0, 0⟩ :: rest.filterMap Lexeme.bare? := rfl
      have hstep := bare_advance? halts r token span
      cases hnext : r.advance? halts (.token token span) with
      | some r' =>
        rw [hnext] at hstep
        rw [pass_of_advance hnext, ih, hcons, pass_of_advance hstep.symm]
      | none =>
        rw [hnext] at hstep
        rw [pass_of_halt hnext, hcons, pass_of_halt hstep.symm, bare_halt]

end Reader

/-! ## Words and gaps -/

namespace Text

variable {t : Text} {pos : Nat} {words : List (List UInt8)}

/-- From `pos` to the end of the text these words stand in this order. There are gaps between them,
and there may be one in front of the first and one behind the last. All gaps are closed. -/
inductive Separated (t : Text) : Nat → List (List UInt8) → Prop
  | nil {pos : Nat} (hstop : (t.gap pos).stop = t.size) (hclosed : (t.gap pos).problem? = none) :
    Separated t pos []
  | cons {pos : Nat} {word : List UInt8} {words : List (List UInt8)}
    (hword : t.holdsAt (t.gap pos).stop word = true)
    (hapart : (t.gap pos).stop + word.length = t.size ∨
      (t.gap pos).stop + word.length < (t.gap ((t.gap pos).stop + word.length)).stop)
    (hrest : Separated t ((t.gap pos).stop + word.length) words) : Separated t pos (word :: words)

/-- A gap that leaves nothing open has no tokens. -/
theorem filterMap_bare?_gapLexemes {gap : Gap} (h : gap.problem? = none) :
    (t.gapLexemes gap).toList.filterMap Lexeme.bare? = [] := by
  simp [gapLexemes, h, List.filterMap_map, Function.comp_def, Lexeme.bare?]

/-- Between words and gaps there are the tokens of the words, and no others. -/
theorem Separated.tokens (h : t.Separated pos words) (hwhole : ∀ word ∈ words, ReadsWhole word) :
    (t.lexemesAt pos).filterMap Lexeme.bare? =
      words.map fun word => .token (readWord word).1 ⟨0, 0⟩ := by
  -- By induction on the words, each with the gap in front of it.
  induction h with
  | nil hstop hclosed =>
    rw [lexemesAt_eq, hstop, getElem?_eq_none_iff.2 (Nat.le_refl _), List.append_nil,
      filterMap_bare?_gapLexemes hclosed]
    rfl
  | @cons pos word words hword hapart hrest ih =>
    obtain ⟨hread, hreads⟩ := List.forall_mem_cons.1 hwhole
    have hend : (t.gap pos).stop + word.length = t.size ∨
        t.inGap ((t.gap pos).stop + word.length) = true := by
      refine hapart.imp_right fun hlt => ?_
      cases hgap : t.inGap ((t.gap pos).stop + word.length) with
      | true => rfl
      | false =>
        rw [gap_of_not_inGap hgap] at hlt
        exact absurd hlt (Nat.lt_irrefl _)
    obtain ⟨first, hfirst, htoken⟩ :=
      (hread.standsAt hword (inGap_gap_stop t pos) hend).tokenAt hread
    rw [lexemesAt_eq, hfirst, List.filterMap_append,
      filterMap_bare?_gapLexemes (gap_problem?_of_stop_lt (lt_size_of_getElem? hfirst)),
      List.nil_append]
    simp only [htoken]
    rw [List.map_cons, ← ih hreads]
    rfl

/-- What is in the gaps does not matter, whether or not reading halts at critical problems. Two
movetexts with the same words, of which each is one token, have the same tree but for places and
comments: the same lines in the same places of the tree, the same moves with their numbers, glyphs
and verdicts. They have the same marker, the same kinds of problems in the same order and the same
verdict. -/
theorem gaps_are_transparent (t t' : Text) (s s' : Span) (halts strict : Bool)
    (words : List (List UInt8)) (hwhole : ∀ word ∈ words, ReadsWhole word)
    (h : (t.upTo s.stop).Separated s.start words)
    (h' : (t'.upTo s'.stop).Separated s'.start words) :
    (t.parse halts strict s).bare = (t'.parse halts strict s').bare ∧
      (t.parse halts strict s).verdict = (t'.parse halts strict s').verdict := by
  have hbare : (t.parse halts strict s).bare = (t'.parse halts strict s').bare := by
    have htokens : (t.lexemes s).filterMap Lexeme.bare? = _ := h.tokens hwhole
    have htokens' : (t'.lexemes s').filterMap Lexeme.bare? = _ := h'.tokens hwhole
    rw [parse, parse, Reader.pass_bare, Reader.pass_bare, htokens, htokens', Reader.bare_start,
      Reader.bare_start]
  exact ⟨hbare, by rw [← Score.verdict_bare, hbare, Score.verdict_bare]⟩

/-- The movetext `e4 ) e5 *`. -/
def spacedSample : Text :=
  .ofBytes [0x65, 0x34, 0x20, 0x29, 0x20, 0x65, 0x35, 0x20, 0x2a].toByteArray

/-- The same words with a comment in braces, an escaped line and a comment up to the end of its
line in between. -/
def commentedMoves : Text :=
  .ofBytes [0x65, 0x34, 0x7b, 0x28, 0x7d, 0x29, 0x0a, 0x25, 0x29, 0x0a, 0x65, 0x35, 0x3b, 0x78,
    0x0a, 0x2a].toByteArray

/-- Both are read alike, a parenthesis in a comment or an escaped line being none. The one that
closes nothing is a problem in both. Reading that goes on behind it finds both moves and the
marker. -/
theorem gaps_are_transparent_to_moves :
    (spacedSample.parse false true ⟨0, 9⟩).bare =
        (commentedMoves.parse false true ⟨0, 16⟩).bare ∧
      (commentedMoves.parse false true ⟨0, 16⟩).mainLine.moves.map Move.san = ["e4", "e5"] ∧
      (commentedMoves.parse false true ⟨0, 16⟩).marker.isSome ∧
      (spacedSample.parse true true ⟨0, 9⟩).bare =
        (commentedMoves.parse true true ⟨0, 16⟩).bare := by
  have hwhole : ∀ word ∈ [[0x65, 0x34], [Byte.closeParen], [0x65, 0x35], [Byte.star]],
      ReadsWhole word := by
    have hwords : ∀ word ∈ [[0x65, 0x34], [Byte.closeParen], [0x65, 0x35], [Byte.star]],
        word ≠ [] ∧ (readWord word).2 = word.length := by
      decide +kernel
    exact fun word hword => ⟨(hwords word hword).1, (hwords word hword).2⟩
  have hspaced : (spacedSample.upTo 9).Separated 0
      [[0x65, 0x34], [Byte.closeParen], [0x65, 0x35], [Byte.star]] :=
    .cons (by decide +kernel) (by decide +kernel) <|
      .cons (by decide +kernel) (by decide +kernel) <|
        .cons (by decide +kernel) (by decide +kernel) <|
          .cons (by decide +kernel) (by decide +kernel) <|
            .nil (by decide +kernel) (by decide +kernel)
  have hcommented : (commentedMoves.upTo 16).Separated 0
      [[0x65, 0x34], [Byte.closeParen], [0x65, 0x35], [Byte.star]] :=
    .cons (by decide +kernel) (by decide +kernel) <|
      .cons (by decide +kernel) (by decide +kernel) <|
        .cons (by decide +kernel) (by decide +kernel) <|
          .cons (by decide +kernel) (by decide +kernel) <|
            .nil (by decide +kernel) (by decide +kernel)
  have halike (halts : Bool) := gaps_are_transparent spacedSample commentedMoves ⟨0, 9⟩ ⟨0, 16⟩
    halts true _ hwhole hspaced hcommented
  exact ⟨(halike false).1, by decide +kernel, by decide +kernel, (halike true).1⟩

end Text

end Scorebook
