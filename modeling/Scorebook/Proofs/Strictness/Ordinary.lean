import Scorebook.Proofs.Movetext.Agreement

/-!
# What strict reading adds

Advisory problems are looked for in strict reading only, and nothing depends on them: they end
nothing and have no part in a verdict. So whatever is read, lenient reading gives what strict
reading gives, less the advisory problems. `ordinary` takes them out of a list, and the lemmas here
take them out of headers, items, scans, scores and games.
-/

namespace Scorebook

/-- The problems that are looked for in any reading. -/
def ordinary (problems : List Problem) : List Problem :=
  problems.filter (!·.isAdvisory)

@[simp] theorem ordinary_append (problems problems' : List Problem) :
    ordinary (problems ++ problems') = ordinary problems ++ ordinary problems' :=
  List.filter_append ..

/-- Advice is left out. -/
theorem ordinary_cons_of_advisory {p : Problem} (h : p.isAdvisory = true) (rest : List Problem) :
    ordinary (p :: rest) = ordinary rest :=
  List.filter_cons_of_neg (by simp [h])

/-- Any other problem stays. -/
theorem ordinary_cons_of_not_advisory {p : Problem} (h : p.isAdvisory = false)
    (rest : List Problem) : ordinary (p :: rest) = p :: ordinary rest :=
  List.filter_cons_of_pos (by simp [h])

/-- Where there is no advice nothing is left out. -/
theorem ordinary_eq_self {problems : List Problem} (h : ∀ p ∈ problems, p.isAdvisory = false) :
    ordinary problems = problems :=
  List.filter_eq_self.2 fun p hp => by simp [h p hp]

/-- Where there is only advice nothing stays. -/
theorem ordinary_eq_nil {problems : List Problem} (h : ∀ p ∈ problems, p.isAdvisory = true) :
    ordinary problems = [] :=
  List.filter_eq_nil_iff.2 fun p hp => by simp [h p hp]

/-- Advisory problems have no part in a verdict. -/
@[simp] theorem Verdict.ofProblems_ordinary (problems : List Problem) :
    ofProblems (ordinary problems) = ofProblems problems := by
  simp [ofProblems, ordinary, List.find?_filter]

/-- Advisory problems end nothing. -/
theorem Problem.isCritical_of_isAdvisory {p : Problem} (h : p.isAdvisory = true) :
    p.isCritical = false := by
  cases p with
  | fault kind span => cases kind <;> first | rfl | cases h
  | tokensAfterTermination => rfl
  | gameOutOfRange | hashMismatch | io => cases h

/-- The header with ordinary problems only. -/
def Header.ordinary (h : Header) : Header :=
  { h with problems := Scorebook.ordinary h.problems }

/-- The score with ordinary problems only. -/
def Score.ordinary (score : Score) : Score :=
  { score with problems := Scorebook.ordinary score.problems }

/-- The game with ordinary problems only. -/
def Game.ordinary (g : Game) : Game :=
  { g with
    headerProblems := Scorebook.ordinary g.headerProblems
    score := g.score.ordinary }

/-- Without advice a game has its other problems. -/
theorem Game.problems_ordinary (g : Game) :
    g.ordinary.problems = Scorebook.ordinary g.problems :=
  (ordinary_append g.headerProblems g.score.problems).symm

namespace Text

variable {t : Text} {pos start stop : Nat}

/-! ## Headers -/

/-- Tabs are only advised against. -/
theorem ordinary_tabsInTag (t : Text) (start : Nat) : ordinary (t.tabsInTag start) = [] := by
  refine ordinary_eq_nil fun p hp => ?_
  obtain ⟨i, rfl, -⟩ := of_mem_tabsInTag hp
  rfl

/-- A gap is no matter of advice. -/
theorem ordinary_gap (t : Text) (pos : Nat) :
    ordinary (t.gap pos).problem?.toList = (t.gap pos).problem?.toList :=
  ordinary_eq_self fun _ hp => (isOfPair_of_gapFrom (Option.mem_toList.1 hp)).isAdvisory

/-- Without advice both ways of reading find the same header. -/
theorem headerFrom_ordinary (tags : Array RawTag) (problems : Array Problem)
    {lenient : Array Problem} (h : lenient.toList = ordinary problems.toList) :
    t.headerFrom false start pos stop tags lenient =
      (t.headerFrom true start pos stop tags problems).ordinary := by
  -- The tabs that are noted in strict mode only are advice.
  have hwarned (pos : Nat) (problems : Array Problem) :
      ordinary (problems ++ t.tabsInTag pos).toList = ordinary problems.toList := by
    rw [Array.toList_appendList, ordinary_append, ordinary_tabsInTag, List.append_nil]
  -- By the recursion of the header, with all problems so far ordinary but for advice.
  fun_induction headerFrom t true start pos stop tags problems generalizing lenient with
  | case1 pos stop tags problems hb warned tag next hpair gap =>
    rename_i ih
    rw [headerFrom_of_tagPair hb hpair]
    apply ih
    rw [if_neg Bool.false_ne_true, Array.toList_appendList, Array.toList_appendList,
      ordinary_append, ordinary_gap, h]
    exact congrArg (· ++ _) (hwarned pos problems).symm
  | case2 pos stop tags problems hb warned problem hpair next gap =>
    rename_i ih
    rw [headerFrom_of_problem hb hpair]
    apply ih
    rw [if_neg Bool.false_ne_true, Array.toList_appendList, Array.toList_appendList,
      ordinary_append, ordinary_cons_of_not_advisory (isOfPair_of_tagPair hpair).isAdvisory,
      ordinary_gap, h]
    exact congrArg (· ++ _) (hwarned pos problems).symm
  | case3 pos stop tags problems hb =>
    rw [headerFrom_of_ne hb, h]
    rfl

/-- A header is read alike, less the tabs in its values. -/
theorem header_ordinary (t : Text) (start : Nat) :
    t.header false start = (t.header true start).ordinary :=
  headerFrom_ordinary #[] #[] rfl

/-! ## Scans -/

/-- Scanning movetext gives no advice. -/
theorem ordinary_movetextFrom {last : Nat} {problems : Array Problem}
    (h : ordinary problems.toList = problems.toList) :
    ordinary (t.movetextFrom pos last problems).problems =
      (t.movetextFrom pos last problems).problems := by
  have hgap (pos : Nat) {problems : Array Problem}
      (h : ordinary problems.toList = problems.toList) :
      ordinary (problems ++ (t.gap pos).problem?.toList).toList =
        (problems ++ (t.gap pos).problem?.toList).toList := by
    rw [Array.toList_appendList, ordinary_append, ordinary_gap, h]
  fun_induction movetextFrom t pos last problems with
  | case1 pos last problems gap problems' hend => exact hgap pos h
  | case2 pos last problems gap problems' hend stop ih => exact ih (hgap pos h)

/-- Without advice both ways of reading catalogue a game alike. -/
theorem scanGame_ordinary (t : Text) (start : Nat) :
    t.scanGame false start = ((t.scanGame true start).1, (t.scanGame true start).2.1,
      ordinary (t.scanGame true start).2.2) := by
  simp only [scanGame, header_ordinary, Header.ordinary, Verdict.ofProblems_ordinary,
    ordinary_append]
  rw [ordinary_movetextFrom rfl]

/-- A scan comes upon the same items, and in them upon the same problems, less the tabs. -/
theorem nextItem_ordinary (t : Text) (pos : Nat) :
    t.nextItem false pos = ((t.nextItem true pos).1, ordinary (t.nextItem true pos).2) := by
  have hitem (pos : Nat) :
      t.itemAt false pos = ((t.itemAt true pos).1, ordinary (t.itemAt true pos).2) := by
    unfold itemAt
    split
    · rfl
    · split
      · simp only [scanGame_ordinary]
      · rfl
  simp only [nextItem, hitem, ordinary_append, ordinary_gap]

/-- Both ways of reading find the same games. -/
theorem gamesFrom_lenient (t : Text) (pos : Nat) :
    t.gamesFrom false pos = t.gamesFrom true pos := by
  fun_induction gamesFrom t true pos with
  | case1 pos problems hitem =>
    exact gamesFrom_of_nothing (by rw [nextItem_ordinary, hitem])
  | case2 pos next problems hitem ih =>
    rw [gamesFrom_of_stray (by rw [nextItem_ordinary, hitem]), ih]
  | case3 pos entry next problems hitem ih =>
    rw [gamesFrom_of_game (by rw [nextItem_ordinary, hitem]), ih]

/-- The games of a text are the same in either reading. -/
theorem games_lenient (t : Text) : t.games false = t.games true := by
  simp only [games, scannedGames, gamesFrom_lenient]

/-! ## Scores -/

end Text

/-- All that strict reading does to a pass is to add advice to its problems. -/
theorem Reader.exists_advice (stop : Nat) (r : Reader) (lexemes : List Lexeme) :
    ∃ advice, ordinary advice = [] ∧
      (r.run true stop lexemes).mainLine = (r.run false stop lexemes).mainLine ∧
      (r.run true stop lexemes).marker = (r.run false stop lexemes).marker ∧
      (r.run true stop lexemes).problems = (r.run false stop lexemes).problems ++ advice := by
  -- By induction on the lexemes. The mode matters where a marker ends the pass.
  induction lexemes generalizing r with
  | nil => exact ⟨[], rfl, rfl, rfl, (List.append_nil _).symm⟩
  | cons lexeme rest ih =>
    cases hstep : r.step? lexeme with
    | some r' =>
      rw [run_of_step hstep, run_of_step hstep]
      exact ih r'
    | none =>
      obtain ⟨token, span, rfl⟩ := exists_token_of_halt hstep
      rw [run_of_halt hstep, run_of_halt hstep]
      cases token with
      | marker outcome =>
        simp only [halt, finishAt_eq, if_true, Bool.false_eq_true, if_false, List.append_nil]
        refine ⟨_, ordinary_eq_nil fun p hp => ?_, trivial, trivial, rfl⟩
        obtain ⟨extra, -, rfl⟩ := List.mem_map.1 hp
        rfl
      | _ => exact ⟨[], rfl, rfl, rfl, (List.append_nil _).symm⟩

/-- What is noted about lexemes is no advice, unless the end that they leave open is. -/
theorem Reader.Notes.isAdvisory {stop : Nat} {lexemes : List Lexeme} {p : Problem}
    (h : Notes stop lexemes p) (hopen : ∀ p, .openEnd p ∈ lexemes → p.isAdvisory = false) :
    p.isAdvisory = false := by
  cases h with
  | openEnd hmem => exact hopen p hmem
  | @token _ _ kind _ hkind => cases kind <;> first | rfl | cases hkind
  | unmatched | missing => rfl

namespace Text

variable {t : Text} {pos start stop : Nat}

/-- What the lexemes of a text bring with them is the problem of a gap. -/
theorem exists_gap_of_openEnd {p : Problem} (h : .openEnd p ∈ t.lexemesAt pos) :
    ∃ from_, pos ≤ from_ ∧ (t.gap from_).problem? = some p := by
  -- By induction on what is left behind `pos`: the gap itself or one further on.
  induction hleft : t.size - pos using Nat.strongRecOn generalizing pos with
  | ind left ih =>
    rw [lexemesAt_eq] at h
    rcases List.mem_append.1 h with hmem | hmem
    · rcases mem_gapLexemes hmem with ⟨_, -, heq⟩ | ⟨_, hproblem, heq⟩
      · cases heq
      · cases heq
        exact ⟨pos, Nat.le_refl pos, hproblem⟩
    · split at hmem
      · cases hmem
      · next first hfirst =>
        have hgap := t.le_gap_stop pos
        have hlt := lt_size_of_getElem? hfirst
        have htoken := lt_tokenAt hfirst
        rcases List.mem_cons.1 hmem with heq | hmem
        · cases heq
        · obtain ⟨from_, hle, hproblem⟩ := ih _ (by omega) hmem rfl
          exact ⟨from_, by omega, hproblem⟩

/-- A score is read alike, less the text behind its marker. -/
theorem score_ordinary (t : Text) (s : Span) : t.score false s = (t.score true s).ordinary := by
  obtain ⟨advice, hadvice, hline, hmarker, hproblems⟩ :=
    Reader.exists_advice s.stop (Reader.start s.start) (t.lexemes s)
  -- The lenient pass advises against nothing, as what it notes is of no such kind.
  have hplain : ordinary (t.score false s).problems = (t.score false s).problems := by
    refine ordinary_eq_self fun p hp => ?_
    have hnone : (Reader.start s.start).OpenedBy [] := nofun
    rcases Reader.notes_pass hnone hp with hbefore | hnotes | ⟨hstrict, -⟩
    · exact absurd hbefore (Array.not_mem_empty _)
    · refine hnotes.isAdvisory fun q hq => ?_
      obtain ⟨_, -, hgap⟩ := exists_gap_of_openEnd (Reader.taken_subset _ _ _ hq)
      exact (isOfPair_of_gapFrom hgap).isAdvisory
    · cases hstrict
  have hall : (t.score true s).ordinary.problems = (t.score false s).problems := by
    show ordinary ((Reader.start s.start).run true s.stop (t.lexemes s)).problems = _
    rw [hproblems, ordinary_append, hadvice, List.append_nil]
    exact hplain
  calc t.score false s
      = ⟨(t.score false s).mainLine, (t.score false s).marker, (t.score false s).problems⟩ := rfl
    _ = ⟨(t.score true s).mainLine, (t.score true s).marker,
          (t.score true s).ordinary.problems⟩ := by
      rw [hall, score, score, hline, hmarker]

end Text

/-- A game is read alike, less its advisory problems. -/
theorem Game.read_ordinary (buffer : Buffer) (n : Nat) (entry : Entry) :
    Game.read buffer false n entry = (Game.read buffer true n entry).ordinary := by
  simp only [read, Text.header_ordinary, Text.score_ordinary]
  rfl

end Scorebook
