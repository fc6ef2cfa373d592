import Scorebook.Proofs.Reporter.Hearing
import Scorebook.Proofs.Reporter.Obliging
import Scorebook.Proofs.Strictness.Apart

/-!
# Listening to strict reading

One reporter is told of the problems of a strict reading, another of the same problems less the
advice, and both are listened to by somebody who goes on whatever is reported. Then they answer
alike, and the second never passes on less than the first, advice apart. It passes on no more either
if the places of the text are told apart: what is advice for one is not taken for a repetition by
the other.
-/

namespace Scorebook

/-- Is this the report of a problem that is looked for in any reading? -/
def Report.isOrdinary (report : Report) : Bool :=
  !report.problem.isAdvisory

namespace Reporter

variable {l r r' s : Reporter} {t : Text} {buffer : Buffer} {p : Problem} {problems : List Problem}

/-- The reporter `l` was told of what `s` was told of, less the advice, and everybody goes on. -/
structure Abreast (t : Text) (l s : Reporter) : Prop where
  attends : l.Attends t ∧ s.Attends t
  obliging : l.Obliging ∧ s.Obliging
  seen : ∀ mark ∈ l.seen, mark ∈ s.seen
  sublist : (s.delivered.toList.filter Report.isOrdinary).Sublist l.delivered.toList
  /-- Advice has hidden no problem from `s`. -/
  knows : t.LinesFit → ∀ p, p.ToldApart t → p.isAdvisory = false → s.Knows t p → l.Knows t p
  delivered : t.LinesFit → l.delivered.toList = s.delivered.toList.filter Report.isOrdinary

/-- Another mark was seen if it is the new one or was seen before. -/
theorem mark_mem_insert {p q : Problem} :
    p.mark t ∈ r.seen.insert (q.mark t) ↔ q.mark t = p.mark t ∨ p.mark t ∈ r.seen := by
  rw [Std.HashSet.mem_insert, beq_iff_eq]

/-- Advice is reported to `s` alone. -/
theorem Abreast.advise (h : Abreast t l s) (hbuffer : buffer.text = t) (hp : p.ToldApart t)
    (hadvisory : p.isAdvisory = true) : Abreast t l (s.report buffer p).2 := by
  have hafter := (report_passed h.attends.2 hbuffer p).1
  have hobliging := h.obliging.2.of_handler_eq (s.report_handler buffer p)
  have hears := h.attends.2.hears hbuffer p
  generalize (s.report buffer p).2 = s' at hafter hobliging hears
  refine ⟨⟨h.attends.1, hafter.attends⟩, ⟨h.obliging.1, hobliging⟩,
    fun mark hmark => hafter.seen mark (h.seen mark hmark), ?_, ?_, ?_⟩
  · -- Advice is passed on or not; what the lenient reporter has heard stays part of it.
    cases hears with
    | known _ _ hdelivered => exact hdelivered ▸ h.sublist
    | passed _ _ hdelivered =>
      rw [hdelivered, Array.toList_push, List.filter_append]
      simpa [reportOf, Report.isOrdinary, hadvisory] using h.sublist
  · -- The mark of an ordinary problem was known before, or the advice has just left it.
    intro hfit q hq hordinary hknows
    cases hears with
    | known _ hseen =>
      rw [Knows, hseen] at hknows
      exact h.knows hfit q hq hordinary hknows
    | passed _ hseen =>
      rw [Knows, hseen, mark_mem_insert] at hknows
      rcases hknows with hsame | hknows
      · -- Advice would have left the mark of an ordinary problem.
        rw [hp.isAdvisory_eq hfit hq hsame, hordinary] at hadvisory
        cases hadvisory
      · exact h.knows hfit q hq hordinary hknows
  · intro hfit
    cases hears with
    | known _ _ hdelivered => exact hdelivered ▸ h.delivered hfit
    | passed _ _ hdelivered =>
      rw [hdelivered, Array.toList_push, List.filter_append, h.delivered hfit]
      simp [reportOf, Report.isOrdinary, hadvisory]

/-- Any other problem is reported to both. -/
theorem Abreast.report (h : Abreast t l s) (hbuffer : buffer.text = t) (hp : p.ToldApart t)
    (hordinary : p.isAdvisory = false) :
    Abreast t (l.report buffer p).2 (s.report buffer p).2 := by
  have hlenient := (report_passed h.attends.1 hbuffer p).1
  have hstrict := (report_passed h.attends.2 hbuffer p).1
  have hobliging := And.intro (h.obliging.1.of_handler_eq (l.report_handler buffer p))
    (h.obliging.2.of_handler_eq (s.report_handler buffer p))
  have hhears := h.attends.1.hears hbuffer p
  have hhears' := h.attends.2.hears hbuffer p
  generalize (l.report buffer p).2 = l' at hlenient hobliging hhears
  generalize (s.report buffer p).2 = s' at hstrict hobliging hhears'
  -- The strict reporter has heard more, so what it has not heard of, neither has the other.
  cases hhears with
  | known hknows hseen hdelivered =>
    cases hhears' with
    | known _ hseen' hdelivered' =>
      refine ⟨⟨hlenient.attends, hstrict.attends⟩, hobliging, ?_, ?_, ?_, ?_⟩
      · rw [hseen, hseen']
        exact h.seen
      · rw [hdelivered, hdelivered']
        exact h.sublist
      · simp only [Knows, hseen, hseen']
        exact h.knows
      · rw [hdelivered, hdelivered']
        exact h.delivered
    | passed hfresh => exact absurd (h.seen _ hknows) hfresh
  -- New to the lenient reporter, the problem may be known to the strict one through advice.
  | passed hfresh hseen hdelivered =>
    have hlonger := List.sublist_append_left l.delivered.toList [reportOf t p]
    cases hhears' with
    | known hknows' hseen' hdelivered' =>
      -- Advice has hidden this problem, so the places are not told apart.
      have hhidden : ¬ t.LinesFit := fun hfit => hfresh (h.knows hfit p hp hordinary hknows')
      refine ⟨⟨hlenient.attends, hstrict.attends⟩, hobliging, ?_, ?_, (absurd · hhidden),
        (absurd · hhidden)⟩
      · intro mark hmark
        rw [hseen, Std.HashSet.mem_insert, beq_iff_eq] at hmark
        rw [hseen']
        rcases hmark with rfl | hmark
        · exact hknows'
        · exact h.seen mark hmark
      · rw [hdelivered, hdelivered', Array.toList_push]
        exact h.sublist.trans hlonger
    | passed hfresh' hseen' hdelivered' =>
      refine ⟨⟨hlenient.attends, hstrict.attends⟩, hobliging, ?_, ?_, ?_, ?_⟩
      · intro mark hmark
        rw [hseen, Std.HashSet.mem_insert] at hmark
        rw [hseen', Std.HashSet.mem_insert]
        exact hmark.imp_right (h.seen mark)
      · rw [hdelivered, hdelivered', Array.toList_push, Array.toList_push, List.filter_append]
        simpa [reportOf, Report.isOrdinary, hordinary] using h.sublist.append_right [reportOf t p]
      · intro hfit q hq hqordinary hknows
        rw [Knows, hseen', mark_mem_insert] at hknows
        rw [Knows, hseen, mark_mem_insert]
        exact hknows.imp_right (h.knows hfit q hq hqordinary)
      · intro hfit
        rw [hdelivered, hdelivered', Array.toList_push, Array.toList_push, List.filter_append,
          h.delivered hfit]
        simp [reportOf, Report.isOrdinary, hordinary]

/-! ## Lists of problems -/

/-- A report that fails ends the reports. -/
theorem reportAll_of_failure {failure : Failure} (h : (r.report buffer p).1 = some failure)
    (rest : List Problem) :
    r.reportAll buffer (p :: rest) = (some failure, (r.report buffer p).2) := by
  rw [reportAll]
  generalize r.report buffer p = result at h
  obtain ⟨answer, r'⟩ := result
  cases h
  rfl

/-- After a report that is accepted the next one is made. -/
theorem reportAll_of_accepted (h : (r.report buffer p).1 = none) (rest : List Problem) :
    r.reportAll buffer (p :: rest) = (r.report buffer p).2.reportAll buffer rest := by
  rw [reportAll]
  generalize r.report buffer p = result at h
  obtain ⟨answer, r'⟩ := result
  cases h
  rfl

/-- Problems are answered alike with the advice among them and without. -/
theorem Abreast.reportAll (h : Abreast t l s) (hbuffer : buffer.text = t)
    (hapart : ∀ p ∈ problems, p.ToldApart t) :
    (l.reportAll buffer (ordinary problems)).1 = (s.reportAll buffer problems).1 ∧
      Abreast t (l.reportAll buffer (ordinary problems)).2 (s.reportAll buffer problems).2 := by
  -- By induction on the problems. Advice is for the strict reporter only, the rest for both.
  induction problems generalizing l s with
  | nil => exact ⟨rfl, h⟩
  | cons p rest ih =>
    have hp := hapart p List.mem_cons_self
    have hrest : ∀ q ∈ rest, q.ToldApart t := fun q hq => hapart q (List.mem_cons_of_mem p hq)
    have hanswer := (h.obliging.2.yielding.report buffer p).1
    cases hadvisory : p.isAdvisory with
    | true =>
      rw [if_neg (by simp [Problem.isCritical_of_isAdvisory hadvisory])] at hanswer
      rw [ordinary_cons_of_advisory hadvisory, reportAll_of_accepted hanswer]
      exact ih (h.advise hbuffer hp hadvisory) hrest
    | false =>
      have hanswer' := (h.obliging.1.yielding.report buffer p).1
      have hafter := h.report hbuffer hp hadvisory
      rw [ordinary_cons_of_not_advisory hadvisory]
      cases hcritical : p.isCritical with
      | true =>
        -- A critical problem stops both reporters, which oblige otherwise.
        rw [hcritical, if_pos rfl] at hanswer hanswer'
        rw [reportAll_of_failure hanswer, reportAll_of_failure hanswer']
        exact ⟨rfl, hafter⟩
      | false =>
        rw [hcritical, if_neg Bool.false_ne_true] at hanswer hanswer'
        rw [reportAll_of_accepted hanswer, reportAll_of_accepted hanswer']
        exact ih hafter hrest

/-- Two reporters stay abreast when they mention the same problems, one of them with advice. -/
theorem Abreast.mention (h : Abreast t l s) (hbuffer : buffer.text = t)
    (hapart : ∀ p ∈ problems, p.ToldApart t) :
    Abreast t (l.mention buffer (ordinary problems)) (s.mention buffer problems) := by
  induction problems generalizing l s with
  | nil => exact h
  | cons p rest ih =>
    have hp := hapart p List.mem_cons_self
    have hrest : ∀ q ∈ rest, q.ToldApart t := fun q hq => hapart q (List.mem_cons_of_mem p hq)
    cases hadvisory : p.isAdvisory with
    | true =>
      rw [ordinary_cons_of_advisory hadvisory]
      exact ih (h.advise hbuffer hp hadvisory) hrest
    | false =>
      rw [ordinary_cons_of_not_advisory hadvisory]
      exact ih (h.report hbuffer hp hadvisory) hrest

end Reporter

/-! ## Cataloguing -/

namespace Catalogue

open Reporter (Abreast)

variable {c : Catalogue} {buffer : Buffer} {l s : Reporter} {pos target : Nat}

/-- The scan of a text from its start comes by here. -/
def ComesBy (t : Text) (pos : Nat) : Prop :=
  ∃ games, Text.Scans t true (scanStart t 0) games pos

/-- A scan comes by the place where the next item ends, and would go on from there. -/
theorem ComesBy.next {t : Text} {next : Nat} (h : ComesBy t pos)
    (hnext : (t.nextItem true pos).1.next? = some next) :
    ComesBy t next ∧ scanStart t next = next := by
  obtain ⟨games, hscans⟩ := h
  refine ⟨?_, scanStart_of_pos (Nat.lt_of_le_of_lt (Nat.zero_le pos)
    (Text.lt_of_next?_nextItem hnext).2)⟩
  -- The scan goes on where the item ends, which is never at the start of the text again.
  cases hitem : (t.nextItem true pos).1 with
  | nothing =>
    rw [hitem] at hnext
    cases hnext
  | stray next' =>
    rw [hitem] at hnext
    cases hnext
    exact ⟨_, hscans.append (.stray hitem (.here next))⟩
  | game entry next' =>
    rw [hitem] at hnext
    cases hnext
    exact ⟨_, hscans.append (.game hitem (.here next))⟩

/-- Reporters related by `R` answer alike to what a scan comes upon, told with the advice in it and
without, and stay related. -/
def Keeps (R : Reporter → Reporter → Prop) (t : Text) : Prop :=
  ∀ (buffer : Buffer) (pos : Nat) (l s : Reporter), buffer.text = t → ComesBy t pos → R l s →
    (l.reportAll buffer (ordinary (t.nextItem true pos).2)).1 =
        (s.reportAll buffer (t.nextItem true pos).2).1 ∧
      R (l.reportAll buffer (ordinary (t.nextItem true pos).2)).2
        (s.reportAll buffer (t.nextItem true pos).2).2

/-- Reporting keeps two reporters abreast. -/
theorem keeps_abreast (t : Text) : Keeps (Abreast t) t := by
  rintro buffer pos l s hbuffer ⟨games, hscans⟩ h
  exact h.reportAll hbuffer fun p hp => Text.toldApart_of_nextItem hscans hp

/-- Where nobody listens there is nothing to keep. -/
theorem keeps_unheard (t : Text) :
    Keeps (fun l s => l = .empty ∧ s = .empty) t := by
  rintro buffer pos l s - - ⟨rfl, rfl⟩
  have hstrict := Text.recoverable_nextItem t true pos
  have hlenient := Text.recoverable_nextItem t false pos
  rw [Text.nextItem_ordinary] at hlenient
  rw [Reporter.reportAll_of_handler_none rfl buffer hstrict,
    Reporter.reportAll_of_handler_none rfl buffer hlenient]
  exact ⟨rfl, rfl, rfl⟩

/-- What the results of cataloguing a text have in common, one of them in strict reading. -/
structure Alike {α : Type} (R : Reporter → Reporter → Prop) (t : Text)
    (lenient strict : α × Catalogue × Reporter) : Prop where
  answer : lenient.1 = strict.1
  catalogue : lenient.2.1 = strict.2.1
  comesBy : ComesBy t (scanStart t strict.2.1.resume)
  reporter : R lenient.2.2 strict.2.2

variable {R : Reporter → Reporter → Prop}

/-- Scans come upon the same games in either reading. -/
theorem Keeps.extendFrom (hkeeps : Keeps R buffer.text) (h : R l s) (hpos : ComesBy buffer.text pos)
    (hresume : ComesBy buffer.text (scanStart buffer.text c.resume)) (target : Nat) :
    Alike R buffer.text (extendFrom false buffer target pos c l)
      (extendFrom true buffer target pos c s) := by
  have hreports {pos : Nat} (hpos : ComesBy buffer.text pos) {item : Item}
      {problems : List Problem} (hitem : buffer.text.nextItem true pos = (item, problems))
      {l s s' : Reporter} {answer : Option Failure} (h : R l s)
      (hreport : s.reportAll buffer problems = (answer, s')) :
      buffer.text.nextItem false pos = (item, ordinary problems) ∧
        ∃ l', l.reportAll buffer (ordinary problems) = (answer, l') ∧ R l' s' := by
    -- Both modes find the same item, and what they report keeps the reporters alike.
    obtain ⟨hanswer, hafter⟩ := hkeeps buffer pos l s rfl hpos h
    rw [hitem, hreport] at hanswer hafter
    exact ⟨by rw [Text.nextItem_ordinary, hitem], (l.reportAll buffer (ordinary problems)).2,
      Prod.ext hanswer rfl, hafter⟩
  fun_induction Catalogue.extendFrom true buffer target pos c s generalizing l with
  | case1 pos c s hlt problems hitem failure s' hreport =>
    obtain ⟨hlenient, l', hl, hafter⟩ := hreports hpos hitem h hreport
    rw [extendFrom_of_nothing hlt hlenient, hl]
    exact ⟨rfl, rfl, hresume, hafter⟩
  | case2 pos c s hlt problems hitem s' hreport =>
    obtain ⟨hlenient, l', hl, hafter⟩ := hreports hpos hitem h hreport
    rw [extendFrom_of_nothing hlt hlenient, hl]
    exact ⟨rfl, rfl, hresume, hafter⟩
  | case3 pos c s hlt next problems hitem failure s' hreport =>
    obtain ⟨hlenient, l', hl, hafter⟩ := hreports hpos hitem h hreport
    rw [extendFrom_of_stray hlt hlenient, hl]
    exact ⟨rfl, rfl, hresume, hafter⟩
  | case4 pos c s hlt next problems hitem s' hreport ih =>
    obtain ⟨hlenient, l', hl, hafter⟩ := hreports hpos hitem h hreport
    rw [extendFrom_of_stray hlt hlenient, hl]
    exact ih hafter (hpos.next (by rw [hitem]; rfl)).1 hresume
  | case5 pos c s hlt entry next problems hitem failure s' hreport =>
    obtain ⟨hlenient, l', hl, hafter⟩ := hreports hpos hitem h hreport
    rw [extendFrom_of_game hlt hlenient, hl]
    exact ⟨rfl, rfl, hresume, hafter⟩
  | case6 pos c s hlt entry next problems hitem s' hreport ih =>
    obtain ⟨hlenient, l', hl, hafter⟩ := hreports hpos hitem h hreport
    obtain ⟨hnext, hstart⟩ := hpos.next (by rw [hitem]; rfl : _ = some next)
    rw [extendFrom_of_game hlt hlenient, hl]
    -- The next game may be looked for where this one ended.
    refine ih hafter hnext ?_
    rwa [show (c.add entry next).resume = next from rfl, hstart]
  | case7 pos c s hge =>
    rw [extendFrom_of_ge (Nat.not_lt.1 hge)]
    exact ⟨rfl, rfl, hresume, h⟩

/-- What reporting keeps is kept by a request for games, and both requests are answered alike. -/
theorem Keeps.ensure {t : Text} (hkeeps : Keeps R t) (hbuffer : buffer.text = t) (h : R l s)
    (hresume : ComesBy t (scanStart t c.resume)) (target : Nat) :
    Alike R t (c.ensure false buffer target l) (c.ensure true buffer target s) := by
  subst hbuffer
  by_cases hdone : c.complete = true ∨ target ≤ c.entries.size
  · rw [ensure_of_done hdone, ensure_of_done hdone]
    exact ⟨rfl, rfl, hresume, h⟩
  · obtain ⟨hanswer, hcatalogue, hcomes, hafter⟩ := hkeeps.extendFrom h hresume hresume target
    rw [ensure_of_open hdone, ensure_of_open hdone]
    exact ⟨by simp only [hanswer, hcatalogue], hcatalogue, hcomes, hafter⟩

end Catalogue

end Scorebook
