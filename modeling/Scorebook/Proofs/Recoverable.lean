import Scorebook.Catalogue

/-!
# Cataloguing finds nothing critical

A critical problem ends whatever found it, heard or not. Cataloguing knows headers and the
boundaries of games only, and everything that can be wrong with those can be passed over: an
unclosed comment, a malformed pair, stray text. So a scan to which nobody listens always reaches
its target or the end of the text.
-/

namespace Scorebook

/-- Every problem of the list can be passed over. -/
def Recoverable (problems : List Problem) : Prop :=
  ∀ problem ∈ problems, problem.isCritical = false

theorem Recoverable.nil : Recoverable [] := by
  intro _ h
  cases h

/-- A problem that is not critical, in front of others that are none. -/
theorem Recoverable.cons {problem : Problem} {rest : List Problem}
    (h : problem.isCritical = false) (hrest : Recoverable rest) :
    Recoverable (problem :: rest) := by
  intro p hp
  rcases List.mem_cons.1 hp with rfl | hp
  · exact h
  · exact hrest p hp

/-- Problems that are not critical stay so when they are joined. -/
theorem Recoverable.append {first last : List Problem}
    (hfirst : Recoverable first) (hlast : Recoverable last) : Recoverable (first ++ last) := by
  intro p hp
  rcases List.mem_append.1 hp with hp | hp
  · exact hfirst p hp
  · exact hlast p hp

/-! ## The problems of gaps and tag pairs -/

/-- The faults a gap or a tag pair can have. -/
def Fault.isOfPair : Fault → Bool
  | badTagName | controlInTagValue | missingTagValue | unclosedComment | unclosedEscape
  | unclosedTag | unclosedTagValue => true
  | _ => false

/-- The problem is one that a gap or a tag pair can have. -/
def Problem.IsOfPair (p : Problem) : Prop :=
  ∃ kind span, p = .fault kind span ∧ kind.isOfPair = true

/-- No problem of a pair is critical. -/
theorem Problem.IsOfPair.isCritical {p : Problem} (h : p.IsOfPair) : p.isCritical = false := by
  obtain ⟨kind, span, rfl, hkind⟩ := h
  cases kind <;> first | rfl | cases hkind

/-- No problem of a pair is advisory. -/
theorem Problem.IsOfPair.isAdvisory {p : Problem} (h : p.IsOfPair) : p.isAdvisory = false := by
  obtain ⟨kind, span, rfl, hkind⟩ := h
  cases kind <;> first | rfl | cases hkind

namespace Text

variable {t : Text} {pos start : Nat} {problem : Problem}

/-- What a gap leaves open is a problem of a pair. -/
theorem isOfPair_of_gapFrom {comments : Array Span}
    (h : (t.gapFrom pos comments).problem? = some problem) : problem.IsOfPair := by
  fun_induction gapFrom t pos comments with
  | case1 | case8 => cases h
  | case4 | case7 =>
    cases h
    exact ⟨_, _, rfl, rfl⟩
  | case2 _ _ _ _ _ ih => exact ih h
  | case3 _ _ _ _ _ _ _ _ ih => exact ih h
  | case5 _ _ _ _ _ _ ih => exact ih h
  | case6 _ _ _ _ _ _ _ _ _ _ ih => exact ih h

/-- A gap in a pair fails with a problem of the pair. -/
theorem isOfPair_of_gapInTag (h : t.gapInTag pos = .error problem) : problem.IsOfPair := by
  unfold gapInTag at h
  split at h
  · next found hfound =>
    cases h
    exact isOfPair_of_gapFrom hfound
  · cases h

/-- A name fails with a problem of the pair. -/
theorem isOfPair_of_tagName (h : t.tagName start = .error problem) : problem.IsOfPair := by
  unfold tagName at h
  split at h
  · next hgap => cases h; exact isOfPair_of_gapInTag hgap
  · simp only at h
    split at h
    · cases h; exact ⟨_, _, rfl, rfl⟩
    · split at h
      · next hgap => cases h; exact isOfPair_of_gapInTag hgap
      · cases h

/-- A value fails with a problem of the pair. -/
theorem isOfPair_of_tagValue {quote : Nat} (h : t.tagValue start quote = .error problem) :
    problem.IsOfPair := by
  unfold tagValue at h
  split at h
  · simp only at h
    split at h
    · cases h
    · split at h <;> cases h <;> exact ⟨_, _, rfl, rfl⟩
  · cases h; exact ⟨_, _, rfl, rfl⟩

/-- A pair fails with a problem of its kind. -/
theorem isOfPair_of_tagPair (h : t.tagPair start = .error problem) : problem.IsOfPair := by
  unfold tagPair at h
  split at h
  · next hname => cases h; exact isOfPair_of_tagName hname
  · split at h
    · next hvalue => cases h; exact isOfPair_of_tagValue hvalue
    · split at h
      · next hgap => cases h; exact isOfPair_of_gapInTag hgap
      · split at h <;> cases h
        exact ⟨_, _, rfl, rfl⟩

/-! ## Gaps and tabs -/

/-- A gap has no critical problem. -/
theorem recoverable_gap (t : Text) (pos : Nat) : Recoverable (t.gap pos).problem?.toList := by
  intro problem hproblem
  exact (isOfPair_of_gapFrom (Option.mem_toList.1 hproblem)).isCritical

/-- What is found between two offsets is a tab there. -/
theorem of_mem_tabsBetween {stop : Nat} {tabs : Array Problem} {p : Problem}
    (hp : p ∈ t.tabsBetween stop pos tabs) :
    p ∈ tabs ∨ ∃ i, p = .fault .tabInTagValue ⟨i, i + 1⟩ ∧ t[i]? = some Byte.tab := by
  fun_induction tabsBetween t stop pos tabs with
  | case1 pos tabs hlt ih =>
    rcases ih hp with hold | hfound
    · split at hold
      · next htab =>
        rcases Array.mem_push.1 hold with hold | rfl
        · exact .inl hold
        · obtain ⟨b, hb, heq⟩ := (Option.any_eq_true ..).1 htab
          exact .inr ⟨pos, rfl, beq_iff_eq.1 heq ▸ hb⟩
      · exact .inl hold
    · exact .inr hfound
  | case2 => exact .inl hp

/-- Of a tag pair strict reading notes the tabs in its value. -/
theorem of_mem_tabsInTag {p : Problem} (hp : p ∈ t.tabsInTag start) :
    ∃ i, p = .fault .tabInTagValue ⟨i, i + 1⟩ ∧ t[i]? = some Byte.tab := by
  unfold tabsInTag at hp
  split at hp
  · cases hp
  · split at hp
    · exact (of_mem_tabsBetween (Array.mem_toList_iff.1 hp)).resolve_left
        (Array.not_mem_empty p)
    · cases hp

/-- Tabs in a value are not critical. -/
theorem recoverable_tabsInTag (t : Text) (start : Nat) : Recoverable (t.tabsInTag start) := by
  intro p hp
  obtain ⟨i, rfl, -⟩ := of_mem_tabsInTag hp
  rfl

/-! ## Headers, movetext and items -/

section Forall

variable {P : Problem → Prop}

/-- The problems of a header are those of its pairs, of the gaps behind them and of tabs. -/
theorem forall_headerFrom {strict : Bool} {stop : Nat} {tags : Array RawTag}
    {problems : Array Problem}
    (hpair : ∀ pos p, t[pos]? = some Byte.openBracket → t.tagPair pos = .error p → P p)
    (hgap : ∀ pos p, (t.gap pos).problem? = some p → P p)
    (htab : ∀ start, ∀ p ∈ t.tabsInTag start, P p) (h : ∀ p ∈ problems.toList, P p) :
    ∀ p ∈ (t.headerFrom strict start pos stop tags problems).problems, P p := by
  have happend {problems : Array Problem} {more : List Problem} (h : ∀ p ∈ problems.toList, P p)
      (hmore : ∀ p ∈ more, P p) : ∀ p ∈ (problems ++ more).toList, P p := by
    rw [Array.toList_appendList]
    exact fun p hp => (List.mem_append.1 hp).elim (h p) (hmore p)
  have hwarned (pos : Nat) {problems : Array Problem} (h : ∀ p ∈ problems.toList, P p) :
      ∀ p ∈ (if strict then problems ++ t.tabsInTag pos else problems).toList, P p := by
    split
    · exact happend h (htab pos)
    · exact h
  have hgap (pos : Nat) : ∀ p ∈ (t.gap pos).problem?.toList, P p :=
    fun p hp => hgap pos p (Option.mem_toList.1 hp)
  fun_induction headerFrom t strict start pos stop tags problems with
  | case1 pos stop tags problems _ warned tag next hread gap ih =>
    exact ih (happend (hwarned pos h) (hgap next))
  | case2 pos stop tags problems hb warned problem hread next gap ih =>
    refine ih (happend (hwarned pos h) fun p hp => ?_)
    rcases List.mem_cons.1 hp with rfl | hp
    · exact hpair pos p hb hread
    · exact hgap next p hp
  | case3 => exact h

/-- The problems of movetext are those of the gaps in it. -/
theorem forall_movetextFrom {last : Nat} {problems : Array Problem}
    (hgap : ∀ pos p, (t.gap pos).problem? = some p → P p) (h : ∀ p ∈ problems.toList, P p) :
    ∀ p ∈ (t.movetextFrom pos last problems).problems, P p := by
  have happend (pos : Nat) {problems : Array Problem} (h : ∀ p ∈ problems.toList, P p) :
      ∀ p ∈ (problems ++ (t.gap pos).problem?.toList).toList, P p := by
    rw [Array.toList_appendList]
    intro p hp
    rcases List.mem_append.1 hp with hold | hnew
    · exact h p hold
    · exact hgap pos p (Option.mem_toList.1 hnew)
  fun_induction movetextFrom t pos last problems with
  | case1 pos last problems => exact happend pos h
  | case2 pos last problems gap warned hend stop ih => exact ih (happend pos h)

/-- What holds of the problems of pairs, of gaps and of tabs holds of all problems of cataloguing a
game. -/
theorem forall_scanGame (strict : Bool)
    (hpair : ∀ pos p, t[pos]? = some Byte.openBracket → t.tagPair pos = .error p → P p)
    (hgap : ∀ pos p, (t.gap pos).problem? = some p → P p)
    (htab : ∀ start, ∀ p ∈ t.tabsInTag start, P p) (start : Nat) :
    ∀ p ∈ (t.scanGame strict start).2.2, P p := by
  intro p hp
  rcases List.mem_append.1 hp with hheader | hmovetext
  · exact forall_headerFrom hpair hgap htab (List.forall_mem_nil _) p hheader
  · exact forall_movetextFrom hgap (List.forall_mem_nil _) p hmovetext

end Forall

/-- Reading pairs adds no critical problem. -/
theorem recoverable_headerFrom {strict : Bool} {stop : Nat} {tags : Array RawTag}
    {problems : Array Problem} (h : Recoverable problems.toList) :
    Recoverable (t.headerFrom strict start pos stop tags problems).problems :=
  forall_headerFrom (fun _ _ _ hpair => (isOfPair_of_tagPair hpair).isCritical)
    (fun _ _ hgap => (isOfPair_of_gapFrom hgap).isCritical) (recoverable_tabsInTag t) h

/-- Cataloguing a game runs into no critical problem. -/
theorem recoverable_scanGame (t : Text) (strict : Bool) (start : Nat) :
    Recoverable (t.scanGame strict start).2.2 :=
  forall_scanGame strict (fun _ _ _ hpair => (isOfPair_of_tagPair hpair).isCritical)
    (fun _ _ hgap => (isOfPair_of_gapFrom hgap).isCritical) (recoverable_tabsInTag t) start

/-- Nor does looking at what comes next. -/
theorem recoverable_itemAt (t : Text) (strict : Bool) (pos : Nat) :
    Recoverable (t.itemAt strict pos).2 := by
  unfold itemAt
  split
  · exact .nil
  · split
    · exact recoverable_scanGame t strict pos
    · exact .cons rfl .nil

/-- No step of a scan runs into anything critical. -/
theorem recoverable_nextItem (t : Text) (strict : Bool) (pos : Nat) :
    Recoverable (t.nextItem strict pos).2 :=
  (recoverable_gap t pos).append (recoverable_itemAt t strict (t.gap pos).stop)

end Text

/-! ## Reporting without a handler -/

namespace Reporter

/-- Where nobody listens a problem that is not critical is passed over. -/
theorem report_of_handler_none {r : Reporter} (h : r.handler = none) (buffer : Buffer)
    {problem : Problem} (hproblem : problem.isCritical = false) :
    r.report buffer problem = (none, r) := by
  simp [report, h, hproblem]

/-- When nobody listens, recoverable problems stop nothing and leave no trace. -/
theorem reportAll_of_handler_none {r : Reporter} (h : r.handler = none) (buffer : Buffer)
    {problems : List Problem} (hproblems : Recoverable problems) :
    r.reportAll buffer problems = (none, r) := by
  induction problems with
  | nil => rfl
  | cons problem rest ih =>
    rw [reportAll, report_of_handler_none h buffer (hproblems problem List.mem_cons_self)]
    exact ih fun p hp => hproblems p (List.mem_cons_of_mem problem hp)

/-! ## What a failure is about -/

variable {r : Reporter} {failure : Failure}

/-- A critical problem is fatal, whoever listens. -/
theorem report_of_isCritical (r : Reporter) (buffer : Buffer) {problem : Problem}
    (h : problem.isCritical = true) : (r.report buffer problem).1 = some (.fatal problem) := by
  unfold report
  simp only [h, if_true]

/-- A report that fails fails with its problem. -/
theorem problem?_of_report {buffer : Buffer} {problem : Problem}
    (h : (r.report buffer problem).1 = some failure) : failure.problem? = some problem := by
  cases hcritical : problem.isCritical with
  | true =>
    rw [report_of_isCritical r buffer hcritical] at h
    cases h
    rfl
  | false =>
    unfold report at h
    simp only [hcritical, Bool.false_eq_true, if_false] at h
    cases hh : r.handler with
    | none =>
      rw [hh] at h
      cases h
    | some heard =>
      rw [hh] at h
      simp only at h
      cases hproceed : (r.deliver heard buffer problem).1 with
      | true =>
        rw [hproceed] at h
        cases h
      | false =>
        rw [hproceed] at h
        cases h
        rfl

/-- Reports fail with one of the problems reported. -/
theorem exists_mem_of_reportAll {buffer : Buffer} {problems : List Problem}
    (h : (r.reportAll buffer problems).1 = some failure) :
    ∃ problem ∈ problems, failure.problem? = some problem := by
  induction problems generalizing r with
  | nil => cases h
  | cons problem rest ih =>
    rw [reportAll] at h
    rcases hreport : r.report buffer problem with ⟨answer, r'⟩
    rw [hreport] at h
    cases answer with
    | some first =>
      cases h
      exact ⟨problem, List.mem_cons_self, problem?_of_report (congrArg Prod.fst hreport)⟩
    | none =>
      obtain ⟨problem', hmem, hproblem⟩ := ih h
      exact ⟨problem', List.mem_cons_of_mem problem hmem, hproblem⟩

/-- Reports that fail with none of the problems are of nothing critical. -/
theorem recoverable_of_reportAll {buffer : Buffer} {problems : List Problem}
    (h : (r.reportAll buffer problems).1 = none) : Recoverable problems := by
  induction problems generalizing r with
  | nil => exact .nil
  | cons problem rest ih =>
    rw [reportAll] at h
    rcases hreport : r.report buffer problem with ⟨_ | first, r'⟩
    · rw [hreport] at h
      refine .cons (Bool.eq_false_iff.2 fun hcritical => ?_) (ih h)
      have hfatal := report_of_isCritical r buffer hcritical
      rw [hreport] at hfatal
      cases hfatal
    · rw [hreport] at h
      cases h

end Reporter

namespace Catalogue

variable {strict : Bool} {buffer : Buffer} {target pos : Nat} {c : Catalogue} {r : Reporter}
  {failure : Failure}

/-- A scan fails with nothing critical. -/
theorem recoverable_of_extendFrom (h : (extendFrom strict buffer target pos c r).1 = some failure) :
    ∃ problem, failure.problem? = some problem ∧ problem.isCritical = false := by
  have hreports {pos : Nat} {r r' : Reporter} {item : Item} {problems : List Problem}
      {first : Failure} (hitem : buffer.text.nextItem strict pos = (item, problems))
      (hreport : r.reportAll buffer problems = (some first, r')) (h : some first = some failure) :
      ∃ problem, failure.problem? = some problem ∧ problem.isCritical = false := by
    cases h
    obtain ⟨problem, hmem, hproblem⟩ :=
      Reporter.exists_mem_of_reportAll (congrArg Prod.fst hreport)
    refine ⟨problem, hproblem, Text.recoverable_nextItem buffer.text strict pos problem ?_⟩
    rw [hitem]
    exact hmem
  fun_induction extendFrom strict buffer target pos c r with
  | case1 _ _ _ _ _ hitem _ _ hreport | case3 _ _ _ _ _ _ hitem _ _ hreport
  | case5 _ _ _ _ _ _ _ hitem _ _ hreport => exact hreports hitem hreport h
  | case2 | case7 => cases h
  | case4 _ _ _ _ _ _ _ _ _ ih | case6 _ _ _ _ _ _ _ _ _ _ ih => exact ih h

/-- A request for games fails with nothing critical. -/
theorem recoverable_of_ensure (h : (c.ensure strict buffer target r).1 = .error failure) :
    ∃ problem, failure.problem? = some problem ∧ problem.isCritical = false := by
  unfold ensure at h
  split at h
  · cases h
  · split at h
    · next _ _ _ hscan =>
      cases h
      exact recoverable_of_extendFrom (congrArg Prod.fst hscan)
    · cases h

end Catalogue

end Scorebook
