import Scorebook.Proofs.Recoverable
import Scorebook.Proofs.Reporter.Places
import Std.Data.HashSet.Lemmas

/-!
# What a listener has heard

While somebody listens, every problem that is reported leaves its mark, whether it is passed on or
was passed on before, and marks are never taken back. So problems of a text that were once reported
are known for good: reporting them again passes nothing on, and unless one of them is critical,
which nobody can help, it stops nothing either.
-/

namespace Scorebook.Reporter

variable {r r' : Reporter} {t : Text} {buffer : Buffer} {problem : Problem}
  {problems : List Problem}

/-! ## One report -/

/-- The report of a problem of this text. -/
def reportOf (t : Text) (p : Problem) : Report :=
  ⟨p.isCritical, p.verdict, p.message, p.place t, p⟩

/-- A problem is passed on exactly if its mark was not seen. -/
theorem deliver_eq {texts : Nat → Text} (hlines : r.lines.Sound texts)
    (hbuffer : texts buffer.key = buffer.text) (handler : Handler) (p : Problem) :
    ∃ lines : LineTable, lines.Sound texts ∧ r.deliver handler buffer p =
      if p.mark buffer.text ∈ r.seen then (true, { r with lines })
      else
        (handler.accepts (r.calls + 1) (reportOf buffer.text p),
          { r with
            calls := r.calls + 1
            seen := r.seen.insert (p.mark buffer.text)
            lines
            delivered := r.delivered.push (reportOf buffer.text p) }) := by
  obtain ⟨hplace, hsound⟩ := locate_eq hlines hbuffer p
  refine ⟨_, hsound, ?_⟩
  simp only [deliver, hplace]
  rfl

/-- The problem was passed on before, or another of the same kind at the same place. -/
def Knows (r : Reporter) (t : Text) (p : Problem) : Prop :=
  p.mark t ∈ r.seen

/-- Somebody listens, and the line table counts this text, whichever buffer it is asked about. -/
structure Attends (r : Reporter) (t : Text) : Prop where
  handler : r.handler.isSome = true
  lines : r.lines.Sound fun _ => t

/-- What reports of these problems may have done: marks were left, and reports passed on of the
problems only. -/
structure Passed (t : Text) (problems : List Problem) (r r' : Reporter) : Prop where
  attends : r'.Attends t
  seen : ∀ mark ∈ r.seen, mark ∈ r'.seen
  delivered : ∃ reports : List Report, r'.delivered.toList = r.delivered.toList ++ reports ∧
    ∀ report ∈ reports, report.problem ∈ problems

/-- Nothing needs to have been passed on. -/
theorem Passed.refl (h : r.Attends t) (problems : List Problem) : Passed t problems r r :=
  ⟨h, fun _ hmark => hmark, [], (List.append_nil _).symm, nofun⟩

/-- What was passed on in two parts was passed on. -/
theorem Passed.trans {r'' : Reporter} (h : Passed t problems r r')
    (h' : Passed t problems r' r'') : Passed t problems r r'' := by
  obtain ⟨first, hfirst, hmem⟩ := h.delivered
  obtain ⟨last, hlast, hmem'⟩ := h'.delivered
  refine ⟨h'.attends, fun mark hmark => h'.seen mark (h.seen mark hmark), first ++ last, ?_, ?_⟩
  · rw [hlast, hfirst, List.append_assoc]
  · intro report hreport
    exact (List.mem_append.1 hreport).elim (hmem report) (hmem' report)

/-- What was passed on was so among more problems. -/
theorem Passed.mono {problems' : List Problem} (h : Passed t problems r r')
    (hsub : problems ⊆ problems') : Passed t problems' r r' := by
  obtain ⟨reports, hreports, hmem⟩ := h.delivered
  exact ⟨h.attends, h.seen, reports, hreports, fun report hreport => hsub (hmem report hreport)⟩

/-- A reporter still knows what it knew. -/
theorem Passed.knows (h : Passed t problems r r') (hknows : r.Knows t problem) :
    r'.Knows t problem :=
  h.seen _ hknows

/-- A problem that was reported is known. -/
theorem report_passed (hr : r.Attends t) (hbuffer : buffer.text = t) (p : Problem) :
    Passed t [p] r (r.report buffer p).2 ∧ (r.report buffer p).2.Knows t p := by
  unfold report
  cases hhandler : r.handler with
  | none =>
    have hsome := hr.handler
    rw [hhandler] at hsome
    cases hsome
  | some handler =>
    obtain ⟨lines, hlines, hdeliver⟩ := deliver_eq hr.lines hbuffer.symm handler p
    rw [hbuffer] at hdeliver
    simp only [hdeliver]
    -- A mark that is known delivers nothing, a fresh one is added with its report.
    split
    · next hseen =>
      exact ⟨⟨⟨hr.handler, hlines⟩, fun _ hmark => hmark, [], (List.append_nil _).symm, nofun⟩,
        hseen⟩
    · refine ⟨⟨⟨hr.handler, hlines⟩, ?_, [reportOf t p], Array.toList_push, ?_⟩,
        Std.HashSet.mem_insert_self⟩
      · exact fun mark hmark => Std.HashSet.mem_insert.2 (.inr hmark)
      · intro report hreport
        rw [List.mem_singleton.1 hreport]
        exact List.mem_cons_self

/-- What becomes of a report somebody listens to: the problem is known already, or it is passed on
and known from then on. -/
inductive Hears (t : Text) (p : Problem) (r r' : Reporter) : Prop
  | known (hknows : r.Knows t p) (hseen : r'.seen = r.seen)
      (hdelivered : r'.delivered = r.delivered)
  | passed (hfresh : ¬ r.Knows t p) (hseen : r'.seen = r.seen.insert (p.mark t))
      (hdelivered : r'.delivered = r.delivered.push (reportOf t p))

/-- A reporter that attends hears of a problem once. -/
theorem Attends.hears (hr : r.Attends t) (hbuffer : buffer.text = t) (p : Problem) :
    Hears t p r (r.report buffer p).2 := by
  obtain ⟨handler, hhandler⟩ := Option.isSome_iff_exists.1 hr.handler
  obtain ⟨lines, -, hdeliver⟩ := deliver_eq hr.lines hbuffer.symm handler p
  simp only [report, hhandler, hdeliver, hbuffer]
  split
  · next hknows => exact .known hknows rfl rfl
  · next hfresh => exact .passed hfresh rfl rfl

/-! ## Many reports -/

/-- Reports of a list pass on problems of the list, and if none fails all of them are known. -/
theorem reportAll_passed (hr : r.Attends t) (hbuffer : buffer.text = t)
    (problems : List Problem) :
    Passed t problems r (r.reportAll buffer problems).2 ∧
      ((r.reportAll buffer problems).1 = none →
        ∀ p ∈ problems, (r.reportAll buffer problems).2.Knows t p) := by
  -- By induction on the problems. A failure stops it, and then nothing is said of the rest.
  induction problems generalizing r with
  | nil => exact ⟨.refl hr [], fun _ p hp => absurd hp List.not_mem_nil⟩
  | cons p rest ih =>
    obtain ⟨hpassed, hknows⟩ := report_passed hr hbuffer p
    have hpassed := hpassed.mono (List.cons_subset_cons p (List.nil_subset rest))
    rw [reportAll]
    rcases hreport : r.report buffer p with ⟨answer, r'⟩
    rw [hreport] at hpassed hknows
    cases answer with
    | some failure => exact ⟨hpassed, fun h => absurd h (Option.some_ne_none _)⟩
    | none =>
      obtain ⟨hrest, hall⟩ := ih hpassed.attends
      refine ⟨hpassed.trans (hrest.mono (List.subset_cons_self p rest)), ?_⟩
      intro hnone q hq
      rcases List.mem_cons.1 hq with rfl | hq
      · exact hrest.knows hknows
      · exact hall hnone q hq

/-- Problems that are mentioned are passed on. -/
theorem mention_passed (hr : r.Attends t) (hbuffer : buffer.text = t)
    (problems : List Problem) : Passed t problems r (r.mention buffer problems) := by
  induction problems generalizing r with
  | nil => exact .refl hr []
  | cons p rest ih =>
    have hpassed := (report_passed hr hbuffer p).1.mono
      (List.cons_subset_cons p (List.nil_subset rest))
    exact hpassed.trans ((ih hpassed.attends).mono (List.subset_cons_self p rest))

/-! ## Reports of what is known -/

/-- What is known is passed over. -/
theorem reportAll_of_known (hr : r.Attends t) (hbuffer : buffer.text = t)
    (hrecoverable : Recoverable problems) (hknown : ∀ p ∈ problems, r.Knows t p) :
    ∃ r' : Reporter, r'.Attends t ∧ r'.delivered = r.delivered ∧
      ∀ rest, r.reportAll buffer (problems ++ rest) = r'.reportAll buffer rest := by
  induction problems generalizing r with
  | nil => exact ⟨r, hr, rfl, fun _ => rfl⟩
  | cons p problems ih =>
    obtain ⟨handler, hhandler⟩ := Option.isSome_iff_exists.1 hr.handler
    obtain ⟨lines, hlines, hdeliver⟩ := deliver_eq hr.lines hbuffer.symm handler p
    -- Its mark is known, so the report changes nothing but the line table.
    have hmark : p.mark buffer.text ∈ r.seen := hbuffer ▸ hknown p List.mem_cons_self
    have hplain := hrecoverable p List.mem_cons_self
    have hreport : r.report buffer p = (none, { r with lines }) := by
      simp only [report, hhandler, hdeliver, if_pos hmark, hplain, if_true, Bool.false_eq_true,
        if_false]
    obtain ⟨r', hattends, hdelivered, hrest⟩ := ih (r := { r with lines }) ⟨hr.handler, hlines⟩
      (fun q hq => hrecoverable q (List.mem_cons_of_mem p hq))
      (fun q hq => hknown q (List.mem_cons_of_mem p hq))
    refine ⟨r', hattends, hdelivered, fun rest => ?_⟩
    rw [List.cons_append, reportAll, hreport]
    exact hrest rest

end Scorebook.Reporter
