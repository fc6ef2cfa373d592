import Scorebook.Proofs.Reporter.Hearing

/-!
# What a reporter recalls

To a listener who has heard nothing before, the reports passed on are those of the problems told
since, each mark once: the first problem that leaves a mark is passed on, and every later one of the
same mark is passed over. So as far as marks go, what was passed on and what was told are the same,
and nothing was passed on exactly if nothing was told.
-/

namespace Scorebook

/-- The mark a report was passed on under. -/
def Report.mark (report : Report) : Mark :=
  ⟨report.verdict, report.place⟩

namespace Reporter

variable {r : Reporter} {t : Text} {buffer : Buffer} {told problems : List Problem} {p : Problem}

/-- The reports passed on are those of these problems, each mark once, and their marks are all that
is known. -/
structure Recalls (r : Reporter) (t : Text) (told : List Problem) : Prop where
  attends : r.Attends t
  reports : ∀ report ∈ r.delivered.toList, ∃ p ∈ told, report = reportOf t p
  heard : ∀ p, r.Knows t p → ∃ report ∈ r.delivered.toList, report.mark = p.mark t
  knows : ∀ p ∈ told, r.Knows t p

/-- Whoever comes to listen to a reporter that has passed on nothing recalls nothing. -/
theorem recalls_nil (h : r.delivered = #[]) (hseen : ∀ mark, mark ∉ r.seen)
    (hattends : r.Attends t) : r.Recalls t [] where
  attends := hattends
  reports := by simp [h]
  heard := fun p hknows => absurd hknows (hseen _)
  knows := fun p hp => absurd hp List.not_mem_nil

/-- What was told twice is recalled as if told once. -/
theorem Recalls.of_subset (h : r.Recalls t (told ++ problems)) (hsub : problems ⊆ told) :
    r.Recalls t told where
  attends := h.attends
  reports := by
    intro report hreport
    obtain ⟨p, hp, heq⟩ := h.reports report hreport
    exact ⟨p, (List.mem_append.1 hp).elim id (hsub ·), heq⟩
  heard := h.heard
  knows := fun p hp => h.knows p (List.mem_append_left _ hp)

/-- What was told before need not be told to be recalled. -/
theorem Recalls.append_of_subset (h : r.Recalls t told) (hsub : problems ⊆ told) :
    r.Recalls t (told ++ problems) where
  attends := h.attends
  reports := by
    intro report hreport
    obtain ⟨p, hp, heq⟩ := h.reports report hreport
    exact ⟨p, List.mem_append_left _ hp, heq⟩
  heard := h.heard
  knows := fun p hp => h.knows p ((List.mem_append.1 hp).elim id (hsub ·))

/-! ## Telling -/

/-- A problem that is told is recalled. -/
theorem Recalls.report (h : r.Recalls t told) (hbuffer : buffer.text = t) (p : Problem) :
    (r.report buffer p).2.Recalls t (told ++ [p]) := by
  obtain ⟨hpassed, hknows⟩ := report_passed h.attends hbuffer p
  have hears := h.attends.hears hbuffer p
  generalize (r.report buffer p).2 = r' at hpassed hknows hears
  -- After a report all problems told so far are known, whether it was passed on or not.
  have hall : ∀ q ∈ told ++ [p], r'.Knows t q := by
    intro q hq
    rcases List.mem_append.1 hq with hq | hq
    · exact hpassed.knows (h.knows q hq)
    · exact List.mem_singleton.1 hq ▸ hknows
  cases hears with
  | known _ hseen hdelivered =>
    refine ⟨hpassed.attends, ?_, ?_, hall⟩
    · intro report hreport
      rw [hdelivered] at hreport
      obtain ⟨q, hq, heq⟩ := h.reports report hreport
      exact ⟨q, List.mem_append_left _ hq, heq⟩
    · -- No mark is new, so each belongs to a report that was delivered before.
      intro q hq
      rw [Knows, hseen] at hq
      rw [hdelivered]
      exact h.heard q hq
  | passed _ hseen hdelivered =>
    have hlist : r'.delivered.toList = r.delivered.toList ++ [reportOf t p] := by
      rw [hdelivered, Array.toList_push]
    refine ⟨hpassed.attends, ?_, ?_, hall⟩
    · intro report hreport
      rcases List.mem_append.1 (hlist ▸ hreport) with hold | hnew
      · obtain ⟨q, hq, heq⟩ := h.reports report hold
        exact ⟨q, List.mem_append_left _ hq, heq⟩
      · exact ⟨p, List.mem_append_right _ List.mem_cons_self, List.mem_singleton.1 hnew⟩
    · -- The new mark belongs to the report just delivered.
      intro q hq
      rw [Knows, hseen, Std.HashSet.mem_insert, beq_iff_eq] at hq
      rw [hlist]
      rcases hq with hsame | hold
      · exact ⟨reportOf t p, List.mem_append_right _ List.mem_cons_self, hsame⟩
      · obtain ⟨report, hreport, hmark⟩ := h.heard q hold
        exact ⟨report, List.mem_append_left _ hreport, hmark⟩

/-- A reporter recalls what it mentions. -/
theorem Recalls.mention (h : r.Recalls t told) (hbuffer : buffer.text = t)
    (problems : List Problem) : (r.mention buffer problems).Recalls t (told ++ problems) := by
  induction problems generalizing r told with
  | nil => rwa [List.append_nil]
  | cons p rest ih =>
    rw [List.append_cons]
    exact ih (h.report hbuffer p)

/-- Of problems that are told in order those up to the first failure are recalled. -/
theorem Recalls.reportAll (h : r.Recalls t told) (hbuffer : buffer.text = t)
    (problems : List Problem) :
    ∃ heard, heard <+: problems ∧ (heard = [] → problems = []) ∧
      ((r.reportAll buffer problems).1 = none → heard = problems) ∧
      (r.reportAll buffer problems).2.Recalls t (told ++ heard) := by
  -- By induction on the problems. A failure stops it behind the problem that was told.
  induction problems generalizing r told with
  | nil => exact ⟨[], List.prefix_rfl, fun _ => rfl, fun _ => rfl, by rwa [List.append_nil]⟩
  | cons p rest ih =>
    have hfirst := h.report hbuffer p
    rw [Reporter.reportAll]
    rcases hreport : r.report buffer p with ⟨answer, r'⟩
    rw [hreport] at hfirst
    cases answer with
    | some failure =>
      exact ⟨[p], by simp, fun h => absurd h (List.cons_ne_nil p []),
        fun h => absurd h (Option.some_ne_none failure), hfirst⟩
    | none =>
      obtain ⟨heard, hprefix, -, hnone, hrecalls⟩ := ih hfirst
      refine ⟨p :: heard, by simpa using hprefix, fun h => absurd h (List.cons_ne_nil p heard), ?_,
        ?_⟩
      · intro hanswer
        rw [hnone hanswer]
      · rwa [List.append_cons]

/-! ## What was passed on -/

/-- The marks of what was passed on are those of what was told. -/
theorem Recalls.marks (h : r.Recalls t told) (mark : Mark) :
    (∃ report ∈ r.delivered.toList, report.mark = mark) ↔ ∃ p ∈ told, p.mark t = mark := by
  constructor
  · rintro ⟨report, hreport, rfl⟩
    obtain ⟨p, hp, rfl⟩ := h.reports report hreport
    exact ⟨p, hp, rfl⟩
  · rintro ⟨p, hp, rfl⟩
    exact h.heard p (h.knows p hp)

/-- Nothing was passed on exactly if nothing was told. -/
theorem Recalls.delivered_eq_nil_iff (h : r.Recalls t told) :
    r.delivered.toList = [] ↔ told = [] := by
  constructor
  · intro hnone
    rw [List.eq_nil_iff_forall_not_mem]
    intro p hp
    obtain ⟨report, hreport, -⟩ := h.heard p (h.knows p hp)
    rw [hnone] at hreport
    cases hreport
  · intro hnone
    rw [List.eq_nil_iff_forall_not_mem]
    intro report hreport
    obtain ⟨p, hp, -⟩ := h.reports report hreport
    rw [hnone] at hp
    cases hp

end Reporter

end Scorebook
