import Scorebook.Proofs.Catalogue.Tiling

/-!
# The order of the catalogue

The entries of a catalogue are numbered from one, none overlaps the next, and all of them lie in
front of the place where scanning would go on. A scan keeps that on any text from any place on, for
it only ever adds a game behind that place; forgetting games keeps it as well, for scanning then
goes on where the first game forgotten began. So the order does not depend on what the entries were
found in: the text may have become another one in between.
-/

namespace Scorebook

/-- The parts of the game lie behind each other. -/
def Entry.WellPlaced (e : Entry) : Prop :=
  e.tags.start < e.tags.stop ∧ e.tags.stop ≤ e.movetext.start ∧
    e.movetext.start ≤ e.movetext.stop

namespace Catalogue

/-- The entries are numbered in order and lie behind each other, in front of the place to resume
at. -/
structure Ordered (c : Catalogue) : Prop where
  ordinal : ∀ (i : Nat) (e : Entry), c.entries[i]? = some e → e.ordinal = i + 1
  wellPlaced : ∀ (i : Nat) (e : Entry), c.entries[i]? = some e → e.WellPlaced
  apart : ∀ (i : Nat) (e e' : Entry), c.entries[i]? = some e → c.entries[i + 1]? = some e' →
    e.movetext.stop ≤ e'.tags.start
  last_le : ∀ e : Entry, c.entries.back? = some e → e.movetext.stop ≤ c.resume

/-- The empty catalogue is in order. -/
theorem Ordered.empty : Catalogue.empty.Ordered where
  ordinal := nofun
  wellPlaced := nofun
  apart := nofun
  last_le := nofun

variable {c : Catalogue} {strict : Bool} {buffer : Buffer} {target pos next : Nat}

/-! ## Scanning -/

/-- What holds of the place and the catalogue when a scan begins, and is kept by each of its steps,
holds when it ends, whatever ends it. -/
theorem extendFrom_keeps {Q : Nat → Catalogue → Prop} (strict : Bool) (buffer : Buffer)
    (target : Nat) (r : Reporter)
    (hnothing : ∀ pos c problems, Q pos c →
      buffer.text.nextItem strict pos = (.nothing, problems) → Q pos { c with complete := true })
    (hstray : ∀ pos c next problems, Q pos c →
      buffer.text.nextItem strict pos = (.stray next, problems) → Q next c)
    (hgame : ∀ pos c entry next problems, Q pos c → c.entries.size < target →
      buffer.text.nextItem strict pos = (.game entry next, problems) → Q next (c.add entry next))
    (hbegin : Q pos c) :
    ∃ pos', Q pos' (extendFrom strict buffer target pos c r).2.1 := by
  fun_induction extendFrom strict buffer target pos c r with
  | case1 pos c | case3 pos c | case5 pos c | case7 pos c => exact ⟨pos, hbegin⟩
  | case2 pos c r hlt problems hitem => exact ⟨pos, hnothing pos c problems hbegin hitem⟩
  | case4 pos c r hlt next problems hitem r' hreport ih =>
    exact ih (hstray pos c next problems hbegin hitem)
  | case6 pos c r hlt entry next problems hitem r' hreport ih =>
    exact ih (hgame pos c entry next problems hbegin hlt hitem)

/-- A request that is not answered at once leaves the catalogue that its scan leaves. -/
theorem ensure_snd_fst_of_open (h : ¬(c.complete = true ∨ target ≤ c.entries.size))
    (r : Reporter) :
    (c.ensure strict buffer target r).2.1 =
      (extendFrom strict buffer target (scanStart buffer.text c.resume) c r).2.1 := by
  rw [ensure_of_open h]

/-- A scan never starts in front of where it should. -/
theorem le_scanStart (t : Text) (pos : Nat) : pos ≤ scanStart t pos := by
  unfold scanStart
  split <;> omega

/-- A game behind the place to resume at keeps the order. -/
theorem Ordered.add {entry : Entry} (h : c.Ordered) (hentry : entry.WellPlaced)
    (hstart : c.resume ≤ entry.tags.start) (hnext : entry.movetext.stop ≤ next) :
    (c.add entry next).Ordered where
  ordinal := by
    intro i e he
    -- The new entry has the next number, and the others keep theirs.
    rw [Catalogue.add, Array.getElem?_push] at he
    split at he
    · next hi =>
      cases he
      rw [hi]
    · exact h.ordinal i e he
  wellPlaced := by
    intro i e he
    rw [Catalogue.add, Array.getElem?_push] at he
    split at he
    · cases he
      exact hentry
    · exact h.wellPlaced i e he
  apart := by
    intro i e e' he he'
    rw [Catalogue.add, Array.getElem?_push] at he he'
    have hbound : i + 1 ≤ c.entries.size := by
      split at he'
      · omega
      · exact Nat.le_of_lt (Array.getElem?_eq_some_iff.1 he').1
    rw [if_neg (by omega)] at he
    split at he'
    · next hi =>
      -- The new game lies behind the place to resume at, and the last one in front of it.
      cases he'
      have hback : c.entries.back? = some e := by
        rw [Array.back?_eq_getElem?, ← hi, Nat.add_sub_cancel]
        exact he
      exact Nat.le_trans (h.last_le e hback) hstart
    · exact h.apart i e e' he he'
  last_le := by
    intro e he
    rw [Catalogue.add, Array.back?_push] at he
    cases he
    exact hnext

/-- A request keeps the order, on whatever text and however it ends. -/
theorem Ordered.ensure (h : c.Ordered) (strict : Bool) (buffer : Buffer) (target : Nat)
    (r : Reporter) : (c.ensure strict buffer target r).2.1.Ordered := by
  by_cases hdone : c.complete = true ∨ target ≤ c.entries.size
  · rw [ensure_of_done hdone]
    exact h
  · rw [ensure_snd_fst_of_open hdone]
    have hbegin : c.Ordered ∧ c.resume ≤ scanStart buffer.text c.resume :=
      ⟨h, le_scanStart buffer.text c.resume⟩
    -- While scanning, the place to resume at is not behind the place that is scanned.
    obtain ⟨_, hordered, -⟩ := extendFrom_keeps (Q := fun pos c => c.Ordered ∧ c.resume ≤ pos)
      strict buffer target r
      (by
        rintro pos c problems ⟨hc, hle⟩ -
        exact ⟨⟨hc.ordinal, hc.wellPlaced, hc.apart, hc.last_le⟩, hle⟩)
      (by
        rintro pos c next problems ⟨hc, hle⟩ hitem
        have hnext : (buffer.text.nextItem strict pos).1.next? = some next := by rw [hitem]; rfl
        have := (Text.lt_of_next?_nextItem hnext).2
        exact ⟨hc, by omega⟩)
      (by
        rintro pos c entry next problems ⟨hc, hle⟩ - hitem
        obtain ⟨hstart, hfound⟩ := Text.found_of_nextItem hitem
        have hlies := hfound.lies
        have hgap := Text.le_gap_stop buffer.text pos
        exact ⟨hc.add ⟨hlies.start_lt, hlies.tags_le, hlies.movetext_le⟩ (by omega) hlies.stop_le,
          Nat.le_refl next⟩)
      hbegin
    exact hordered

/-- A request finds no more games than it asks for. -/
theorem size_ensure_le (c : Catalogue) (strict : Bool) (buffer : Buffer) (target : Nat)
    (r : Reporter) :
    (c.ensure strict buffer target r).2.1.entries.size ≤ max c.entries.size target := by
  by_cases hdone : c.complete = true ∨ target ≤ c.entries.size
  · rw [ensure_of_done hdone]
    exact Nat.le_max_left ..
  · rw [ensure_snd_fst_of_open hdone]
    -- Only an added game makes the catalogue longer, and then the target is not reached yet.
    obtain ⟨_, hsize⟩ := extendFrom_keeps
      (Q := fun _ c' => c'.entries.size ≤ max c.entries.size target) strict buffer target r
      (by
        intro _ c' _ hc _
        exact hc)
      (by
        intro _ c' _ _ hc _
        exact hc)
      (by
        intro _ c' _ _ _ _ hlt _
        rw [Catalogue.add, Array.size_push]
        omega)
      (Nat.le_max_left ..)
    exact hsize

/-- A request loses no game, on whatever text and however it ends. -/
theorem isPrefix_ensure (c : Catalogue) (strict : Bool) (buffer : Buffer) (target : Nat)
    (r : Reporter) :
    c.entries.toList <+: (c.ensure strict buffer target r).2.1.entries.toList := by
  by_cases hdone : c.complete = true ∨ target ≤ c.entries.size
  · have hsame : (c.ensure strict buffer target r).2.1 = c := by rw [ensure_of_done hdone]
    exact hsame.symm ▸ List.prefix_rfl
  · rw [ensure_snd_fst_of_open hdone]
    obtain ⟨_, hprefix⟩ := extendFrom_keeps
      (Q := fun _ c' => c.entries.toList <+: c'.entries.toList) strict buffer target r
      (by
        intro _ c' _ hc _
        exact hc)
      (by
        intro _ c' _ _ hc _
        exact hc)
      (by
        intro _ c' _ _ _ hc _ _
        rw [Catalogue.add, Array.toList_push]
        exact hc.trans (List.prefix_append ..))
      List.prefix_rfl
    exact hprefix

/-! ## Forgetting -/

/-- The first games of an ordered catalogue, with scanning to go on where the next one began. -/
theorem Ordered.extract {k : Nat} {entry : Entry} (h : c.Ordered)
    (hentry : c.entries[k]? = some entry) :
    Ordered ⟨c.entries.extract 0 k, entry.tags.start, false⟩ := by
  have hget {i : Nat} {e : Entry} (he : (c.entries.extract 0 k)[i]? = some e) :
      i < k ∧ c.entries[i]? = some e := by
    rw [Array.getElem?_extract, Nat.zero_add] at he
    split at he
    · exact ⟨by omega, he⟩
    · cases he
  refine ⟨?_, ?_, ?_, ?_⟩
  · intro i e he
    exact h.ordinal i e (hget he).2
  · intro i e he
    exact h.wellPlaced i e (hget he).2
  · intro i e e' he he'
    exact h.apart i e e' (hget he).2 (hget he').2
  · -- The last entry that is left lies in front of the one that is cut off.
    intro e he
    have hk : k < c.entries.size := (Array.getElem?_eq_some_iff.1 hentry).1
    rw [Array.back?_eq_getElem?, Array.size_extract, Nat.sub_zero,
      Nat.min_eq_left (Nat.le_of_lt hk)] at he
    obtain ⟨hlt, he⟩ := hget he
    exact h.apart (k - 1) e entry he (by rw [Nat.sub_add_cancel (by omega)]; exact hentry)

/-- A catalogue that is cut back is still in order. -/
theorem Ordered.invalidateFrom (h : c.Ordered) (n : Nat) : (c.invalidateFrom n).Ordered := by
  unfold Catalogue.invalidateFrom
  split
  · next entry hentry => exact h.extract hentry
  · exact h

/-- A catalogue that is opened again is still in order. -/
theorem Ordered.reopen (h : c.Ordered) : c.reopen.Ordered := by
  unfold Catalogue.reopen
  split
  · split
    · next last hlast =>
      rw [Array.back?_eq_getElem?] at hlast
      rw [← Array.extract_eq_pop rfl]
      exact h.extract hlast
    · exact ⟨h.ordinal, h.wellPlaced, h.apart, h.last_le⟩
  · exact h

/-- Cutting back adds no games. -/
theorem size_invalidateFrom_le (c : Catalogue) (n : Nat) :
    (c.invalidateFrom n).entries.size ≤ c.entries.size := by
  unfold invalidateFrom
  split
  · simp only [Array.size_extract]
    omega
  · exact Nat.le_refl _

/-- Opening again adds no games. -/
theorem size_reopen_le (c : Catalogue) : c.reopen.entries.size ≤ c.entries.size := by
  unfold reopen
  split
  · split
    · simp
    · exact Nat.le_refl _
  · exact Nat.le_refl _

end Catalogue

end Scorebook
