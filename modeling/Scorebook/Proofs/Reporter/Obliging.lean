import Scorebook.Proofs.Recoverable

/-!
# Handlers that always go on

A handler that accepts every report stops nothing but what cannot be helped: of a list of problems
only a critical one ends the operation that found them, and which one it is does not depend on what
was reported before. So to whoever asks a database for something, such a handler is as good as none.
An answer may depend on how many reports there were, so what counts for the next operation is that
every report to come is accepted.
-/

namespace Scorebook

/-- The handler accepts every report. -/
def Handler.Obliging (h : Handler) : Prop :=
  ∀ n report, h.accepts n report = true

namespace Reporter

/-- Whoever listens accepts every report. -/
def Obliging (r : Reporter) : Prop :=
  ∀ h, r.handler = some h → h.Obliging

/-- Whoever listens accepts every report from now on. -/
def Yielding (r : Reporter) : Prop :=
  ∀ h, r.handler = some h → ∀ n report, r.calls < n → h.accepts n report = true

theorem Obliging.empty : Reporter.empty.Obliging := by
  intro h hnone
  cases hnone

/-- A reporter that always goes on goes on with any number of reports. -/
theorem Obliging.yielding {r : Reporter} (hr : r.Obliging) : r.Yielding :=
  fun h hh n report _ => hr h hh n report

/-! ## The handler stays -/

/-- Delivering a problem keeps the handler. -/
theorem deliver_handler (r : Reporter) (h : Handler) (buffer : Buffer) (problem : Problem) :
    (r.deliver h buffer problem).2.handler = r.handler := by
  unfold deliver
  simp only
  split <;> rfl

/-- So does reporting it. -/
theorem report_handler (r : Reporter) (buffer : Buffer) (problem : Problem) :
    (r.report buffer problem).2.handler = r.handler := by
  unfold report
  cases hh : r.handler with
  | none => exact hh
  | some h => exact (r.deliver_handler h buffer problem).trans hh

/-- So does reporting any number of problems. -/
theorem reportAll_handler (r : Reporter) (buffer : Buffer) (problems : List Problem) :
    (r.reportAll buffer problems).2.handler = r.handler := by
  induction problems generalizing r with
  | nil => rfl
  | cons problem rest ih =>
    have hfirst := r.report_handler buffer problem
    rw [reportAll]
    generalize r.report buffer problem = result at hfirst ⊢
    obtain ⟨answer, r'⟩ := result
    cases answer with
    | some failure => exact hfirst
    | none => exact (ih r').trans hfirst

/-- A handler is called no less often than before. -/
theorem le_calls_report (r : Reporter) (buffer : Buffer) (problem : Problem) :
    r.calls ≤ (r.report buffer problem).2.calls := by
  unfold report
  cases r.handler with
  | none => exact Nat.le_refl _
  | some h =>
    simp only [deliver]
    split
    · exact Nat.le_refl _
    · exact Nat.le_succ _

/-- Whether a reporter is obliging is a matter of its handler. -/
theorem Obliging.of_handler_eq {r r' : Reporter} (hr : r.Obliging)
    (heq : r'.handler = r.handler) : r'.Obliging := by
  intro h hh
  exact hr h (heq ▸ hh)

/-- A reporter that yields does so after any calls. -/
theorem Yielding.of_le {r r' : Reporter} (hr : r.Yielding) (heq : r'.handler = r.handler)
    (hle : r.calls ≤ r'.calls) : r'.Yielding :=
  fun h hh n report hn => hr h (heq ▸ hh) n report (Nat.lt_of_le_of_lt hle hn)

/-! ## What is answered -/

variable {r : Reporter}

/-- A handler that yields accepts what it is told. -/
theorem Yielding.deliver (hr : r.Yielding) {h : Handler} (hh : r.handler = some h)
    (buffer : Buffer) (problem : Problem) : (r.deliver h buffer problem).1 = true := by
  unfold Reporter.deliver
  simp only
  split
  · rfl
  · exact hr h hh _ _ (Nat.lt_succ_self _)

/-- One report fails exactly if its problem is critical. -/
theorem Yielding.report (hr : r.Yielding) (buffer : Buffer) (problem : Problem) :
    (r.report buffer problem).1 =
        (if problem.isCritical then some (.fatal problem) else none) ∧
      (r.report buffer problem).2.Yielding := by
  refine ⟨?_, hr.of_le (r.report_handler buffer problem) (r.le_calls_report buffer problem)⟩
  unfold Reporter.report
  cases hh : r.handler with
  | none => rfl
  | some h =>
    have hgo := hr.deliver hh buffer problem
    simp only [hgo, if_true]

/-- A list of reports fails at its first critical problem. -/
theorem Yielding.reportAll (hr : r.Yielding) (buffer : Buffer) (problems : List Problem) :
    (r.reportAll buffer problems).1 = (problems.find? Problem.isCritical).map .fatal ∧
      (r.reportAll buffer problems).2.Yielding := by
  -- By induction on the problems, up to the first critical one, which alone is a failure.
  induction problems generalizing r with
  | nil => exact ⟨rfl, hr⟩
  | cons problem rest ih =>
    obtain ⟨hanswer, hafter⟩ := hr.report buffer problem
    rw [Reporter.reportAll, List.find?_cons]
    generalize r.report buffer problem = result at hanswer hafter
    obtain ⟨answer, r'⟩ := result
    simp only at hanswer hafter
    cases hcritical : problem.isCritical with
    | true =>
      rw [hcritical, if_pos rfl] at hanswer
      subst hanswer
      exact ⟨rfl, hafter⟩
    | false =>
      rw [hcritical, if_neg Bool.false_ne_true] at hanswer
      subst hanswer
      exact ih hafter

/-- Where nobody declines problems that are not critical are passed over. -/
theorem Yielding.reportAll_of_recoverable (hr : r.Yielding) (buffer : Buffer)
    {problems : List Problem} (hproblems : Recoverable problems) :
    (r.reportAll buffer problems).1 = none := by
  have hnone : problems.find? Problem.isCritical = none := by
    rw [List.find?_eq_none]
    intro p hp
    simp [hproblems p hp]
  rw [(hr.reportAll buffer problems).1, hnone]
  rfl

/-- Where nobody declines only a critical problem fails. -/
theorem Obliging.reportAll (hr : r.Obliging) (buffer : Buffer) (problems : List Problem) :
    (r.reportAll buffer problems).1 = (problems.find? Problem.isCritical).map .fatal ∧
      (r.reportAll buffer problems).2.Obliging :=
  ⟨(hr.yielding.reportAll buffer problems).1,
    hr.of_handler_eq (r.reportAll_handler buffer problems)⟩

/-- A reporter stays obliging when problems are mentioned. -/
theorem Obliging.mention (hr : r.Obliging) (buffer : Buffer) (problems : List Problem) :
    (r.mention buffer problems).Obliging := by
  induction problems generalizing r with
  | nil => exact hr
  | cons problem rest ih => exact ih (hr.of_handler_eq (r.report_handler buffer problem))

end Reporter

/-! ## Cataloguing -/

namespace Catalogue

/-- A scan keeps the handler. -/
theorem extendFrom_handler (strict : Bool) (buffer : Buffer) (target pos : Nat) (c : Catalogue)
    (r : Reporter) : (extendFrom strict buffer target pos c r).2.2.handler = r.handler := by
  have hreports {r r' : Reporter} {answer : Option Failure} {problems : List Problem}
      (hreport : r.reportAll buffer problems = (answer, r')) : r'.handler = r.handler := by
    have hkept := r.reportAll_handler buffer problems
    rwa [hreport] at hkept
  fun_induction extendFrom strict buffer target pos c r with
  | case1 _ _ _ _ _ _ _ _ hreport | case2 _ _ _ _ _ _ _ hreport
  | case3 _ _ _ _ _ _ _ _ _ hreport | case5 _ _ _ _ _ _ _ _ _ _ hreport =>
    exact hreports hreport
  | case4 _ _ _ _ _ _ _ _ hreport ih | case6 _ _ _ _ _ _ _ _ _ hreport ih =>
    exact ih.trans (hreports hreport)
  | case7 => rfl

/-- A scan never fails where every report to come is accepted. -/
theorem extendFrom_of_yielding (strict : Bool) (buffer : Buffer) (target pos : Nat)
    (c : Catalogue) {r : Reporter} (hr : r.Yielding) :
    (extendFrom strict buffer target pos c r).1 = none ∧
      (extendFrom strict buffer target pos c r).2.2.Yielding := by
  -- All that an item is reported with is recoverable, so the reporter goes on.
  have hreports (pos : Nat) {r : Reporter} (hr : r.Yielding) {item : Item}
      {problems : List Problem} (hitem : buffer.text.nextItem strict pos = (item, problems)) :
      (r.reportAll buffer problems).1 = none ∧ (r.reportAll buffer problems).2.Yielding := by
    have hrecoverable := Text.recoverable_nextItem buffer.text strict pos
    rw [hitem] at hrecoverable
    exact ⟨hr.reportAll_of_recoverable buffer hrecoverable, (hr.reportAll buffer problems).2⟩
  fun_induction extendFrom strict buffer target pos c r with
  | case1 pos c r hlt problems hitem failure r' hreport
  | case3 pos c r hlt next problems hitem failure r' hreport
  | case5 pos c r hlt entry next problems hitem failure r' hreport =>
    have := (hreports pos hr hitem).1
    rw [hreport] at this
    cases this
  | case2 pos c r hlt problems hitem r' hreport =>
    have := (hreports pos hr hitem).2
    rw [hreport] at this
    exact ⟨rfl, this⟩
  | case4 pos c r hlt next problems hitem r' hreport ih
  | case6 pos c r hlt entry next problems hitem r' hreport ih =>
    have := (hreports pos hr hitem).2
    rw [hreport] at this
    exact ih this
  | case7 => exact ⟨rfl, hr⟩

/-- A request is answered where every report to come is accepted. -/
theorem ensure_of_yielding (strict : Bool) (buffer : Buffer) (target : Nat) (c : Catalogue)
    {r : Reporter} (hr : r.Yielding) :
    (c.ensure strict buffer target r).1 =
        .ok (c.ensure strict buffer target r).2.1.entries.size ∧
      (c.ensure strict buffer target r).2.2.Yielding := by
  unfold ensure
  split
  · exact ⟨rfl, hr⟩
  · obtain ⟨hnone, hafter⟩ :=
      extendFrom_of_yielding strict buffer target (scanStart buffer.text c.resume) c hr
    generalize extendFrom strict buffer target (scanStart buffer.text c.resume) c r = result
      at hnone hafter
    obtain ⟨failure, c', r'⟩ := result
    cases hnone
    exact ⟨rfl, hafter⟩

/-- So does a request for games. -/
theorem ensure_handler (c : Catalogue) (strict : Bool) (buffer : Buffer) (target : Nat)
    (r : Reporter) : (c.ensure strict buffer target r).2.2.handler = r.handler := by
  unfold ensure
  split
  · rfl
  · have hkept :=
      extendFrom_handler strict buffer target (scanStart buffer.text c.resume) c r
    generalize extendFrom strict buffer target (scanStart buffer.text c.resume) c r = result
      at hkept
    obtain ⟨failure, c', r'⟩ := result
    cases failure <;> exact hkept

/-- Where nobody declines a request for games is answered. -/
theorem ensure_of_obliging (strict : Bool) (buffer : Buffer) (target : Nat) (c : Catalogue)
    {r : Reporter} (hr : r.Obliging) :
    (c.ensure strict buffer target r).1 =
        .ok (c.ensure strict buffer target r).2.1.entries.size ∧
      (c.ensure strict buffer target r).2.2.Obliging :=
  ⟨(ensure_of_yielding strict buffer target c hr.yielding).1,
    hr.of_handler_eq (ensure_handler c strict buffer target r)⟩

end Catalogue

end Scorebook
