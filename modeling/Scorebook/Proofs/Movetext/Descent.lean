import Scorebook.Proofs.Movetext.Parts
import Scorebook.Proofs.Movetext.Steps

/-!
# Movetext read by descent

The pass over the lexemes keeps a stack of lines that are not closed yet. Here the same movetext is
read the way its grammar is written down: a line consists of parts, a part may be a parenthesised
line, and what is in the parentheses is read in the same way.

The main statement, `Text.score_by_descent`, says that both readings give the same tree wherever the
parentheses match.
-/

namespace Scorebook

namespace Descent

/-! ## Parenthesised groups -/

/-- The lexemes up to the closing parenthesis that leaves `depth` more than it enters, the place of
that parenthesis, and the lexemes behind it. -/
def splitGroup? (depth : Nat) : List Lexeme → Option (List Lexeme × Span × List Lexeme)
  | [] => none
  | .token .opening span :: rest =>
    (splitGroup? (depth + 1) rest).map fun (inner, close, behind) =>
      (.token .opening span :: inner, close, behind)
  | .token .closing span :: rest =>
    match depth with
    | 0 => some ([], span, rest)
    | depth + 1 =>
      (splitGroup? depth rest).map fun (inner, close, behind) =>
        (.token .closing span :: inner, close, behind)
  | lexeme :: rest =>
    (splitGroup? depth rest).map fun (inner, close, behind) => (lexeme :: inner, close, behind)

/-- Does every parenthesis have its partner, `depth` of them having been opened before? -/
def balanced (depth : Nat) : List Lexeme → Bool
  | [] => depth == 0
  | .token .opening _ :: rest => balanced (depth + 1) rest
  | .token .closing _ :: rest =>
    match depth with
    | 0 => false
    | depth + 1 => balanced depth rest
  | _ :: rest => balanced depth rest

/-- Does the lexeme end a game outside parentheses? -/
def isMarker : Lexeme → Bool
  | .token (.marker _) _ | .token .badMarker _ => true
  | _ => false

/-- The lexemes in front of the first termination marker outside all parentheses. -/
def beforeMarker (depth : Nat) : List Lexeme → List Lexeme
  | [] => []
  | .token .opening span :: rest => .token .opening span :: beforeMarker (depth + 1) rest
  | .token .closing span :: rest => .token .closing span :: beforeMarker (depth - 1) rest
  | lexeme :: rest =>
    if isMarker lexeme && depth == 0 then [] else lexeme :: beforeMarker depth rest

/-- The number of opening parentheses. -/
def openings (lexemes : List Lexeme) : Nat :=
  lexemes.countP fun
    | .token .opening _ => true
    | _ => false

/-- Opening parentheses are counted part by part. -/
theorem openings_append (xs ys : List Lexeme) :
    openings (xs ++ ys) = openings xs + openings ys :=
  List.countP_append

/-- An opening parenthesis counts. -/
theorem openings_opening (span : Span) (lexemes : List Lexeme) :
    openings (.token .opening span :: lexemes) = openings lexemes + 1 :=
  List.countP_cons_of_pos rfl

/-- A closing parenthesis does not. -/
theorem openings_closing (span : Span) (lexemes : List Lexeme) :
    openings (.token .closing span :: lexemes) = openings lexemes :=
  List.countP_cons_of_neg Bool.false_ne_true

/-- Nor does anything else. -/
theorem openings_plain {lexeme : Lexeme} (h : ∀ span, lexeme ≠ .token .opening span)
    (lexemes : List Lexeme) : openings (lexeme :: lexemes) = openings lexemes := by
  apply List.countP_cons_of_neg
  split
  · next span => exact absurd rfl (h span)
  · exact Bool.false_ne_true

/-- What a lexeme that is no parenthesis adds to its line. -/
def plainPart? : Lexeme → Option LinePart
  | .comment _ text => some (.comment text)
  | .token (.number n) _ => some (.number n)
  | .token (.san text wellFormed) span => some (.move text span wellFormed)
  | .token (.nag nag) _ => some (.nag nag)
  | _ => none

/-- A group ends at its closing parenthesis. -/
theorem splitGroup?_eq_some {depth : Nat} {lexemes inner behind : List Lexeme} {close : Span}
    (h : splitGroup? depth lexemes = some (inner, close, behind)) :
    lexemes = inner ++ .token .closing close :: behind := by
  -- By the recursion of `splitGroup?`: each lexeme skipped is the first of the inner ones.
  fun_induction splitGroup? depth lexemes generalizing inner with
  | case1 => cases h
  | case2 depth span rest ih =>
    obtain ⟨⟨inner', close', behind'⟩, hsplit, heq⟩ := Option.map_eq_some_iff.1 h
    cases heq
    rw [ih hsplit]
    rfl
  | case3 span rest =>
    cases h
    rfl
  | case4 depth span rest ih =>
    obtain ⟨⟨inner', close', behind'⟩, hsplit, heq⟩ := Option.map_eq_some_iff.1 h
    cases heq
    rw [ih hsplit]
    rfl
  | case5 depth lexeme rest _ _ ih =>
    obtain ⟨⟨inner', close', behind'⟩, hsplit, heq⟩ := Option.map_eq_some_iff.1 h
    cases heq
    rw [ih hsplit]
    rfl

/-- The parts of a line at this depth that consists of these lexemes. The variations in it are
numbered from `opened` on. -/
def parts (depth opened : Nat) (lexemes : List Lexeme) : List LinePart :=
  match lexemes with
  | [] => []
  | .token .opening span :: rest =>
    match _hsplit : splitGroup? 0 rest with
    | none => []
    | some (inner, close, behind) =>
      .branch (line opened (oneMore depth) ⟨span.stop, close.start⟩
          (parts (oneMore depth) (opened + 1) inner)) ::
        parts depth (opened + 1 + openings inner) behind
  | lexeme :: rest => (plainPart? lexeme).toList ++ parts depth opened rest
termination_by lexemes.length
decreasing_by
  · rw [splitGroup?_eq_some _hsplit]
    simp only [List.length_cons, List.length_append]
    omega
  · rw [splitGroup?_eq_some _hsplit]
    simp only [List.length_cons, List.length_append]
    omega
  · exact Nat.lt_succ_self _
/-! ## Matching parentheses -/

/-- Inside `depth` parentheses of a group and `outer` around it, the closing parenthesis of the
group is found, and parentheses match in the group and behind it. -/
theorem exists_splitGroup? (depth outer : Nat) {lexemes : List Lexeme}
    (h : balanced (depth + 1 + outer) lexemes = true) :
    ∃ inner close behind, splitGroup? depth lexemes = some (inner, close, behind) ∧
      balanced depth inner = true ∧ balanced outer behind = true := by
  -- The depth counts the parentheses opened within the group, `outer` those around it.
  fun_induction splitGroup? depth lexemes with
  | case1 depth =>
    rw [balanced, beq_iff_eq] at h
    omega
  | case2 depth span rest ih =>
    rw [balanced, show depth + 1 + outer + 1 = depth + 1 + 1 + outer by omega] at h
    obtain ⟨inner, close, behind, hsplit, hinner, hbehind⟩ := ih h
    exact ⟨.token .opening span :: inner, close, behind, by rw [hsplit]; rfl, hinner, hbehind⟩
  | case3 span rest =>
    rw [show 0 + 1 + outer = outer + 1 by omega, balanced] at h
    exact ⟨[], span, rest, rfl, rfl, h⟩
  | case4 span rest depth ih =>
    rw [show depth.succ + 1 + outer = depth + 1 + outer + 1 by omega, balanced] at h
    obtain ⟨inner, close, behind, hsplit, hinner, hbehind⟩ := ih h
    exact ⟨.token .closing span :: inner, close, behind, by rw [hsplit]; rfl, hinner, hbehind⟩
  | case5 depth lexeme rest hopening hclosing ih =>
    have hstep (k : Nat) (rest : List Lexeme) :
        balanced k (lexeme :: rest) = balanced k rest := by
      rw [balanced]
      · exact hopening
      · exact hclosing
    rw [hstep] at h
    obtain ⟨inner, close, behind, hsplit, hinner, hbehind⟩ := ih h
    exact ⟨lexeme :: inner, close, behind, by rw [hsplit]; rfl, (hstep ..).trans hinner, hbehind⟩

/-- Inside a group no marker counts. -/
theorem beforeMarker_append {depth : Nat} {inner : List Lexeme}
    (h : balanced depth inner = true) (behind : List Lexeme) :
    beforeMarker (depth + 1) (inner ++ behind) = inner ++ beforeMarker 1 behind := by
  -- The depth of `balanced` is one less than that of `beforeMarker`, so no marker is outermost.
  fun_induction balanced depth inner with
  | case1 depth =>
    rw [beq_iff_eq] at h
    subst h
    rfl
  | case2 depth span rest ih =>
    rw [List.cons_append, beforeMarker, ih h]
    rfl
  | case3 => cases h
  | case4 span rest depth ih =>
    rw [List.cons_append, beforeMarker, Nat.add_sub_cancel, ih h]
    rfl
  | case5 depth lexeme rest hopening hclosing ih =>
    rw [List.cons_append, beforeMarker, if_neg (by simp), ih h]
    · rfl
    · exact hopening
    · exact hclosing

/-- What follows the lexemes in front of the first marker is a marker, or nothing. -/
theorem exists_eq_beforeMarker_append (depth : Nat) (lexemes : List Lexeme) :
    ∃ tail, lexemes = beforeMarker depth lexemes ++ tail ∧
      (tail = [] ∨ ∃ marker rest, tail = marker :: rest ∧ isMarker marker = true) := by
  fun_induction beforeMarker depth lexemes with
  | case1 => exact ⟨[], rfl, .inl rfl⟩
  | case2 depth span rest ih | case3 depth span rest ih =>
    obtain ⟨tail, heq, htail⟩ := ih
    exact ⟨tail, congrArg (List.cons _) heq, htail⟩
  | case4 depth lexeme rest _ _ hmarker =>
    rw [Bool.and_eq_true] at hmarker
    exact ⟨lexeme :: rest, rfl, .inr ⟨lexeme, rest, rfl, hmarker.1⟩⟩
  | case5 depth lexeme rest _ _ _ ih =>
    obtain ⟨tail, heq, htail⟩ := ih
    exact ⟨tail, congrArg (List.cons _) heq, htail⟩

/-- In front of the first marker there is no other. -/
theorem beforeMarker_beforeMarker (depth : Nat) (lexemes : List Lexeme) :
    beforeMarker depth (beforeMarker depth lexemes) = beforeMarker depth lexemes := by
  fun_induction beforeMarker depth lexemes with
  | case1 | case4 => rfl
  | case2 depth span rest ih | case3 depth span rest ih => rw [beforeMarker, ih]
  | case5 depth lexeme rest hopening hclosing hmarker ih =>
    rw [beforeMarker, if_neg hmarker, ih]
    · exact hopening
    · exact hclosing

/-- If no marker ends the game in front of the end, none does behind a group. -/
theorem beforeMarker_behind_group {span close : Span} {inner behind : List Lexeme}
    (hinner : balanced 0 inner = true)
    (h : beforeMarker 0 (.token .opening span :: (inner ++ .token .closing close :: behind)) =
      .token .opening span :: (inner ++ .token .closing close :: behind)) :
    beforeMarker 0 behind = behind := by
  rw [beforeMarker, beforeMarker_append hinner, beforeMarker] at h
  simpa using h

/-- If no marker ends the game in front of the end, neither does the first lexeme, nor one behind
it. -/
theorem beforeMarker_behind_plain {lexeme : Lexeme} {behind : List Lexeme}
    (hopening : ∀ span, lexeme ≠ .token .opening span)
    (hclosing : ∀ span, lexeme ≠ .token .closing span)
    (h : beforeMarker 0 (lexeme :: behind) = lexeme :: behind) :
    isMarker lexeme = false ∧ beforeMarker 0 behind = behind := by
  rw [beforeMarker] at h
  · split at h
    · cases h
    · next hnot => exact ⟨by simpa using hnot, (List.cons.inj h).2⟩
  · exact hopening
  · exact hclosing

end Descent

/-! ## The pass -/

open Descent

namespace Reader

variable {halts strict : Bool} {stop : Nat}

/-- The current line of the pass. -/
def current (r : Reader) : LineReader :=
  ⟨r.line, r.number⟩

/-- The pass with this in place of its current line, after it has opened so many variations and
noted these problems. -/
def withLine (r : Reader) (l : LineReader) (opened : Nat) (problems : Array Problem) : Reader :=
  { r with line := l.line, number := l.number, opened, problems }

/-- A lexeme that is no parenthesis, and no marker that would end the game, adds its part to the
current line. -/
theorem pass_plain (halts strict : Bool) (stop : Nat) (r : Reader) {lexeme : Lexeme}
    (hopening : ∀ span, lexeme ≠ .token .opening span)
    (hclosing : ∀ span, lexeme ≠ .token .closing span)
    (hmarker : r.outer = [] → isMarker lexeme = false) :
    ∃ problems, ∀ rest, r.pass halts strict stop (lexeme :: rest) =
      (r.withLine (r.current.takeAll (plainPart? lexeme).toList) r.opened problems).pass halts
        strict stop rest := by
  -- A lexeme without a part is noted at most, and so is a marker within parentheses.
  cases lexeme with
  | comment body text => exact ⟨r.problems, fun _ => rfl⟩
  | openEnd problem => exact ⟨_, fun _ => rfl⟩
  | token token span =>
    cases token with
    | opening => exact absurd rfl (hopening span)
    | closing => exact absurd rfl (hclosing span)
    | number n => exact ⟨r.problems, fun _ => rfl⟩
    | san text wellFormed =>
      cases wellFormed with
      | true => exact ⟨_, fun _ => rfl⟩
      | false => exact ⟨_, fun _ => rfl⟩
    | nag nag =>
      simp only [pass, plainPart?, Option.toList_some, current, LineReader.takeAll, List.foldl_cons,
        List.foldl_nil, LineReader.take]
      cases r.line.addNag? nag with
      | none => exact ⟨_, fun _ => rfl⟩
      | some line => exact ⟨_, fun _ => rfl⟩
    | badNag => exact ⟨_, fun _ => rfl⟩
    | unexpected => exact ⟨_, fun _ => rfl⟩
    | marker outcome | badMarker =>
      have hinside : r.outer.isEmpty = false := by
        cases hempty : r.outer with
        | nil => cases hmarker hempty
        | cons => rfl
      simp only [pass, hinside, Bool.false_eq_true, if_false]
      exact ⟨_, fun _ => rfl⟩

/-- What is no parenthesis and no marker of the main line is one part of the line that is open. -/
theorem run_plain (strict : Bool) (stop : Nat) (r : Reader) {lexeme : Lexeme}
    (hopening : ∀ span, lexeme ≠ .token .opening span)
    (hclosing : ∀ span, lexeme ≠ .token .closing span)
    (hmarker : r.outer = [] → isMarker lexeme = false) :
    ∃ problems, ∀ rest, r.run strict stop (lexeme :: rest) =
      (r.withLine (r.current.takeAll (plainPart? lexeme).toList) r.opened problems).run strict stop
        rest :=
  r.pass_plain true strict stop hopening hclosing hmarker

/-- Lexemes in which parentheses match and no marker ends the game are read as the parts of the
current line. -/
theorem pass_parts (halts strict : Bool) (stop : Nat) {lexemes : List Lexeme} (r : Reader)
    (rest : List Lexeme) (hbalanced : balanced 0 lexemes = true)
    (hmarker : r.outer = [] → beforeMarker 0 lexemes = lexemes) :
    ∃ problems, r.pass halts strict stop (lexemes ++ rest) =
      (r.withLine (r.current.takeAll (parts r.line.depth r.opened lexemes))
        (r.opened + openings lexemes) problems).pass halts strict stop rest := by
  -- By the recursion of `parts`, which takes a whole group in one step.
  generalize hdepth : r.line.depth = depth
  generalize hopened : r.opened = opened
  fun_induction parts depth opened lexemes generalizing r rest with
  | case1 depth opened =>
    exact ⟨r.problems, by rw [← hopened]; rfl⟩
  -- No group ends here, so the lexemes would not be balanced.
  | case2 depth opened span behind hsplit =>
    rw [balanced] at hbalanced
    obtain ⟨_, _, _, hsome, -⟩ := exists_splitGroup? 0 0 hbalanced
    rw [hsome] at hsplit
    cases hsplit
  | case3 depth opened span group inner close behind hsplit ihinner ihbehind =>
    subst hdepth hopened
    rw [balanced] at hbalanced
    obtain ⟨_, _, _, hsome, hinner, hbehind⟩ :=
      exists_splitGroup? 0 0 hbalanced
    cases hsplit.symm.trans hsome
    have hgroup := splitGroup?_eq_some hsplit
    -- Markers within the group do not end the game, those behind it do.
    have hmarker' (houter : r.outer = []) : beforeMarker 0 behind = behind :=
      beforeMarker_behind_group hinner (hgroup ▸ hmarker houter)
    obtain ⟨_, henter⟩ := r.exists_enter_eq span
    -- The inner lexemes are read on the stack that the opening parenthesis leaves.
    obtain ⟨problems, hread⟩ := ihinner (r.enter span) (.token .closing close :: (behind ++ rest))
      hinner (by rw [henter]; nofun) (by rw [henter]; rfl) (by rw [henter])
    rw [henter] at hread
    -- The closed line is one part more of the line around it.
    let branch := Descent.line r.opened (oneMore r.line.depth) ⟨span.stop, close.start⟩
      (parts (oneMore r.line.depth) (r.opened + 1) inner)
    obtain ⟨problems', hrest⟩ := ihbehind
      (r.withLine (r.current.take (.branch branch)) (r.opened + 1 + openings inner) problems) rest
      hbehind hmarker' rfl rfl
    refine ⟨problems', ?_⟩
    have hopenings : r.opened + openings (.token .opening span :: group) =
        r.opened + 1 + openings inner + openings behind := by
      rw [hgroup, openings_opening, openings_append, openings_closing]
      omega
    have hlexemes : .token .opening span :: group ++ rest =
        .token .opening span :: (inner ++ .token .closing close :: (behind ++ rest)) := by
      simp [hgroup]
    have hclosed : ((r.withLine (r.current.take (.branch branch)) (r.opened + 1 + openings inner)
          problems).pass halts strict stop (behind ++ rest)) =
        r.pass halts strict stop (.token .opening span :: group ++ rest) := by
      rw [hlexemes, pass, henter, hread, pass]
      simp only [withLine, current]
      rw [LineReader.close_takeAll_new]
      rfl
    rw [← hclosed, hrest, hopenings]
    rfl
  | case4 depth opened lexeme behind hopening ih =>
    subst hdepth hopened
    have hclosing (span : Span) : lexeme ≠ .token .closing span := by
      rintro rfl
      rw [balanced] at hbalanced
      cases hbalanced
    rw [balanced] at hbalanced
    · have hplain (houter : r.outer = []) :
          isMarker lexeme = false ∧ beforeMarker 0 behind = behind :=
        beforeMarker_behind_plain hopening hclosing (hmarker houter)
      obtain ⟨problems, hstep⟩ := r.pass_plain halts strict stop hopening hclosing
        fun houter => (hplain houter).1
      obtain ⟨problems', hrest⟩ := ih
        (r.withLine (r.current.takeAll (plainPart? lexeme).toList) r.opened problems) rest hbalanced
        (fun houter => (hplain houter).2) (LineReader.takeAll_depth ..) rfl
      refine ⟨problems', ?_⟩
      rw [List.cons_append, hstep, hrest, openings_plain hopening, LineReader.takeAll_append]
      rfl
    · exact hopening
    · exact hclosing

/-- Outside all parentheses the pass ends at a marker or where the lexemes end. -/
theorem mainLine_of_ending {r : Reader} {tail : List Lexeme} (houter : r.outer = [])
    (htail : tail = [] ∨ ∃ marker rest, tail = marker :: rest ∧ isMarker marker = true) :
    (r.pass halts strict stop tail).mainLine = r.line.close stop := by
  obtain ⟨line, outer, number, opened, problems⟩ := r
  obtain rfl : outer = [] := houter
  obtain rfl | ⟨marker, rest, rfl, hmarker⟩ := htail
  · rfl
  · cases marker with
    | token token span =>
      cases token with
      | marker outcome =>
        show (finishAt _ strict stop outcome span rest).mainLine = _
        unfold finishAt
        split
        · split <;> rfl
        · rfl
      | badMarker => rfl
      | _ => cases hmarker
    | _ => cases hmarker

end Reader

/-! ## The statement -/

/-- The tree of movetext is the one its grammar describes, if its parentheses match up to the first
termination marker outside of them, whether or not critical problems end the pass. The moves of a
line are those at its own level, in order. What stands behind a move at that level, up to the next
move, belongs to the move: its glyphs, its comments joined by single blanks, and the parenthesised
lines as its alternatives, each read in the same way. What stands in front of the first move belongs
to the line. -/
theorem Text.score_by_descent (t : Text) (halts strict : Bool) (s : Span)
    (hbalanced : balanced 0 (beforeMarker 0 (t.lexemes s)) = true) :
    (t.parse halts strict s).mainLine =
      Descent.line 0 0 s (parts 0 1 (beforeMarker 0 (t.lexemes s))) := by
  obtain ⟨tail, hlexemes, htail⟩ := exists_eq_beforeMarker_append 0 (t.lexemes s)
  obtain ⟨problems, hread⟩ := (Reader.start s.start).pass_parts halts strict s.stop tail hbalanced
    fun _ => beforeMarker_beforeMarker ..
  rw [← hlexemes] at hread
  rw [Text.parse, hread]
  rw [Reader.mainLine_of_ending rfl htail]
  exact LineReader.close_takeAll_new 0 0 s.start s.stop _

/-- The movetext `1. e4 {a} (1. d4 ({x} c4) d5) $1 {b} e5 *`. -/
def Descent.sample : Text :=
  .ofBytes ⟨#[0x31, 0x2e, 0x20, 0x65, 0x34, 0x20, 0x7b, 0x61, 0x7d, 0x20, 0x28, 0x31, 0x2e, 0x20,
    0x64, 0x34, 0x20, 0x28, 0x7b, 0x78, 0x7d, 0x20, 0x63, 0x34, 0x29, 0x20, 0x64, 0x35, 0x29, 0x20,
    0x24, 0x31, 0x20, 0x7b, 0x62, 0x7d, 0x20, 0x65, 0x35, 0x20, 0x2a]⟩

/-- Its second comment stands behind the variation and belongs to the first move. -/
theorem Text.score_by_descent_of_nested :
    balanced 0 (beforeMarker 0 (Descent.sample.lexemes ⟨0, 41⟩)) = true ∧
      (Descent.sample.parse false true ⟨0, 41⟩).mainLine.moves.map
        (fun m => (m.san, m.comment, m.nags.toList, m.variations.length)) =
          [("e4", some "a b", [⟨1⟩], 1), ("e5", none, [], 0)] := by
  have hbalanced : balanced 0 (beforeMarker 0 (Descent.sample.lexemes ⟨0, 41⟩)) = true := by
    decide +kernel
  refine ⟨hbalanced, ?_⟩
  rw [Text.score_by_descent Descent.sample false true ⟨0, 41⟩ hbalanced]
  decide +kernel

end Scorebook
