import Scorebook.Proofs.Catalogue.Quiet
import Scorebook.Proofs.Reporter.Obliging
import Scorebook.Proofs.Reporter.Recalling

/-!
# What a scan tells

A request for games tells whoever listens of the problems on the way to the last game it wants, and
of none behind it. Where nobody stops it, it tells of all of them: `Text.problemsTo` lists them by
the text alone. A request that is answered leaves a catalogue that would answer it again at once, so
asking a second time tells nothing.
-/

namespace Scorebook

/-! ## The problems on the way -/

namespace Text

/-- The problems a scan from `pos` on runs into until it has found so many games, in order. -/
def problemsTo (t : Text) (strict : Bool) (wanted pos : Nat) : List Problem :=
  if wanted = 0 then []
  else
    match _hitem : t.nextItem strict pos with
    | (.nothing, problems) => problems
    | (.stray next, problems) => problems ++ t.problemsTo strict wanted next
    | (.game _ next, problems) => problems ++ t.problemsTo strict (wanted - 1) next
termination_by t.size - pos
decreasing_by
  all_goals
    have hnext : (t.nextItem strict pos).1.next? = some next := by rw [_hitem]; rfl
    have := lt_of_next?_nextItem hnext
    omega

/-- The problems of cataloguing the text as far as a request can ask, in order. -/
def indexProblems (t : Text) (strict : Bool) : List Problem :=
  t.problemsTo strict Catalogue.allGames (Catalogue.scanStart t 0)

variable {t : Text} {strict : Bool} {wanted pos next : Nat} {problems : List Problem}

theorem problemsTo_zero (t : Text) (strict : Bool) (pos : Nat) :
    t.problemsTo strict 0 pos = [] := by
  rw [problemsTo, if_pos rfl]

/-- At the end of the text the problems of the last gap are left. -/
theorem problemsTo_of_nothing (hwanted : wanted ≠ 0)
    (hitem : t.nextItem strict pos = (.nothing, problems)) :
    t.problemsTo strict wanted pos = problems := by
  rw [problemsTo, if_neg hwanted]
  split <;> next h => rw [hitem] at h; cases h <;> rfl

/-- Stray text counts for no game. -/
theorem problemsTo_of_stray (hwanted : wanted ≠ 0)
    (hitem : t.nextItem strict pos = (.stray next, problems)) :
    t.problemsTo strict wanted pos = problems ++ t.problemsTo strict wanted next := by
  rw [problemsTo, if_neg hwanted]
  split <;> next h => rw [hitem] at h; cases h <;> rfl

/-- A game counts for one. -/
theorem problemsTo_of_game {entry : Entry} (hwanted : wanted ≠ 0)
    (hitem : t.nextItem strict pos = (.game entry next, problems)) :
    t.problemsTo strict wanted pos = problems ++ t.problemsTo strict (wanted - 1) next := by
  rw [problemsTo, if_neg hwanted]
  split <;> next h => rw [hitem] at h; cases h <;> rfl

end Text

/-! ## Telling them -/

namespace Catalogue

variable {strict : Bool} {buffer : Buffer} {target pos : Nat} {c : Catalogue} {r : Reporter}
  {told : List Problem}

/-- The problems on the way to so many games that the catalogue has not been through yet. -/
def problemsAhead (c : Catalogue) (t : Text) (strict : Bool) (target : Nat) : List Problem :=
  if c.complete = true then []
  else t.problemsTo strict (target - c.entries.size) (scanStart t c.resume)

/-- A request that can be answered at once tells of nothing. -/
theorem problemsAhead_of_done (h : c.complete = true ∨ target ≤ c.entries.size) (t : Text) :
    c.problemsAhead t strict target = [] := by
  unfold problemsAhead
  by_cases hcomplete : c.complete = true
  · rw [if_pos hcomplete]
  · rw [if_neg hcomplete, Nat.sub_eq_zero_of_le (h.resolve_left hcomplete), Text.problemsTo_zero]

/-- Where everybody goes on a scan tells of all problems on its way. -/
theorem recalls_extendFrom (hr : r.Recalls buffer.text told) (hobliging : r.Obliging) :
    (extendFrom strict buffer target pos c r).2.2.Recalls buffer.text
      (told ++ buffer.text.problemsTo strict (target - c.entries.size) pos) := by
  -- All that an item is reported with is recoverable, so the reporter hears it to the end.
  have hreports {r : Reporter} {told : List Problem} (hr : r.Recalls buffer.text told)
      (hobliging : r.Obliging) {pos : Nat} {item : Item} {problems : List Problem}
      (hitem : buffer.text.nextItem strict pos = (item, problems)) :
      (r.reportAll buffer problems).1 = none ∧
        (r.reportAll buffer problems).2.Recalls buffer.text (told ++ problems) ∧
        (r.reportAll buffer problems).2.Obliging := by
    have hrecoverable := Text.recoverable_nextItem buffer.text strict pos
    rw [hitem] at hrecoverable
    have hnone := hobliging.yielding.reportAll_of_recoverable buffer hrecoverable
    obtain ⟨heard, -, -, hheard, hrecalls⟩ := hr.reportAll rfl problems
    exact ⟨hnone, hheard hnone ▸ hrecalls, (hobliging.reportAll buffer problems).2⟩
  -- By the recursion of the scan; `told` grows by the problems of each item.
  fun_induction extendFrom strict buffer target pos c r generalizing told with
  | case1 pos c r hlt problems hitem failure r' hreport
  | case3 pos c r hlt next problems hitem failure r' hreport
  | case5 pos c r hlt entry next problems hitem failure r' hreport =>
    have hnone := (hreports hr hobliging hitem).1
    rw [hreport] at hnone
    cases hnone
  | case2 pos c r hlt problems hitem r' hreport =>
    have hrecalls := (hreports hr hobliging hitem).2.1
    rw [hreport] at hrecalls
    rwa [Text.problemsTo_of_nothing (by omega) hitem]
  | case4 pos c r hlt next problems hitem r' hreport ih =>
    obtain ⟨-, hrecalls, hafter⟩ := hreports hr hobliging hitem
    rw [hreport] at hrecalls hafter
    rw [Text.problemsTo_of_stray (by omega) hitem, ← List.append_assoc]
    exact ih hrecalls hafter
  | case6 pos c r hlt entry next problems hitem r' hreport ih =>
    obtain ⟨-, hrecalls, hafter⟩ := hreports hr hobliging hitem
    rw [hreport] at hrecalls hafter
    rw [Text.problemsTo_of_game (by omega) hitem, ← List.append_assoc]
    have hrest := ih hrecalls hafter
    rwa [add, Array.size_push, ← Nat.sub_sub] at hrest
  | case7 pos c r hge =>
    rwa [Nat.sub_eq_zero_of_le (by omega), Text.problemsTo_zero, List.append_nil]

/-- Where everybody goes on a request tells of all problems ahead. -/
theorem recalls_ensure (hr : r.Recalls buffer.text told) (hobliging : r.Obliging) :
    (c.ensure strict buffer target r).2.2.Recalls buffer.text
      (told ++ c.problemsAhead buffer.text strict target) := by
  by_cases hdone : c.complete = true ∨ target ≤ c.entries.size
  · rwa [ensure_of_done hdone, problemsAhead_of_done hdone, List.append_nil]
  · rw [ensure_of_open hdone, problemsAhead, if_neg fun hcomplete => hdone (.inl hcomplete)]
    exact recalls_extendFrom hr hobliging

/-- A scan that is not stopped finds as many games as it wants, or the end of the text. -/
theorem done_of_extendFrom (h : (extendFrom strict buffer target pos c r).1 = none) :
    (extendFrom strict buffer target pos c r).2.1.complete = true ∨
      target ≤ (extendFrom strict buffer target pos c r).2.1.entries.size := by
  fun_induction extendFrom strict buffer target pos c r with
  | case1 | case3 | case5 => cases h
  | case2 => exact .inl rfl
  | case4 _ _ _ _ _ _ _ _ _ ih => exact ih h
  | case6 _ _ _ _ _ _ _ _ _ _ ih => exact ih h
  | case7 _ _ _ hge => exact .inr (Nat.le_of_not_lt hge)

/-- A request to which nobody objects need not be made again. -/
theorem done_of_ensure (hobliging : r.Obliging) :
    (c.ensure strict buffer target r).2.1.complete = true ∨
      target ≤ (c.ensure strict buffer target r).2.1.entries.size := by
  by_cases hdone : c.complete = true ∨ target ≤ c.entries.size
  · rwa [ensure_of_done hdone]
  · rw [ensure_of_open hdone]
    exact done_of_extendFrom (extendFrom_of_yielding strict buffer target _ c hobliging.yielding).1

end Catalogue

end Scorebook
