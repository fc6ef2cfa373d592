import Scorebook.Database
import Scorebook.Proofs.Catalogue.Games

/-!
# Cataloguing in pieces

Nobody has to catalogue a database in one go. Targets may come in any order, handlers may come and
go and stop the work wherever they like, and what is catalogued is at every moment the beginning of
what a single undisturbed request for all games would have found. A request that is stopped keeps
every game in front of the problem it was stopped at: for so many games, and no more, the very same
request would have been answered.
-/

namespace Scorebook

namespace Catalogue

variable {strict : Bool} {buffer : Buffer} {target pos next : Nat} {c : Catalogue} {r : Reporter}
  {problems : List Problem}

/-! ## Equations of a scan -/

/-- A scan that has enough games stops. -/
theorem extendFrom_of_ge (h : target ≤ c.entries.size) :
    extendFrom strict buffer target pos c r = (none, c, r) := by
  rw [extendFrom, if_neg (by omega)]

/-- At the end of the text the catalogue is complete, if the problems there are accepted. -/
theorem extendFrom_of_nothing (hlt : c.entries.size < target)
    (hitem : buffer.text.nextItem strict pos = (.nothing, problems)) :
    extendFrom strict buffer target pos c r =
      match r.reportAll buffer problems with
      | (some failure, r) => (some failure, c, r)
      | (none, r) => (none, { c with complete := true }, r) := by
  rw [extendFrom, if_pos hlt]
  split <;> next h => rw [hitem] at h; cases h <;> rfl

/-- Behind stray text the scan goes on, if its problems are accepted. -/
theorem extendFrom_of_stray (hlt : c.entries.size < target)
    (hitem : buffer.text.nextItem strict pos = (.stray next, problems)) :
    extendFrom strict buffer target pos c r =
      match r.reportAll buffer problems with
      | (some failure, r) => (some failure, c, r)
      | (none, r) => extendFrom strict buffer target next c r := by
  rw [extendFrom, if_pos hlt]
  split <;> next h => rw [hitem] at h; cases h <;> rfl

/-- Behind a game the scan goes on, if its problems are accepted. -/
theorem extendFrom_of_game {entry : Entry} (hlt : c.entries.size < target)
    (hitem : buffer.text.nextItem strict pos = (.game entry next, problems)) :
    extendFrom strict buffer target pos c r =
      match r.reportAll buffer problems with
      | (some failure, r) => (some failure, c, r)
      | (none, r) => extendFrom strict buffer target next (c.add entry next) r := by
  rw [extendFrom, if_pos hlt]
  split <;> next h => rw [hitem] at h; cases h <;> rfl

/-! ## Other targets

Two scans that differ in their targets alone run alike up to the nearer target.
-/

/-- A scan loses no games. -/
theorem size_le_extendFrom (strict : Bool) (buffer : Buffer) (target pos : Nat) (c : Catalogue)
    (r : Reporter) :
    c.entries.size ≤ (extendFrom strict buffer target pos c r).2.1.entries.size := by
  fun_induction extendFrom strict buffer target pos c r with
  | case1 | case2 | case3 | case5 | case7 => exact Nat.le_refl _
  | case4 _ _ _ _ _ _ _ _ _ ih => exact ih
  | case6 _ _ _ _ _ _ _ _ _ _ ih =>
    rw [add, Array.size_push] at ih
    exact Nat.le_of_succ_le ih

/-- Asked for no more games than it found, a scan succeeds. -/
theorem extendFrom_eq_none {k : Nat}
    (hk : k ≤ (extendFrom strict buffer target pos c r).2.1.entries.size) :
    (extendFrom strict buffer k pos c r).1 = none := by
  fun_induction extendFrom strict buffer target pos c r with
  | case1 | case3 | case5 | case7 => rw [extendFrom_of_ge hk]
  | case2 => rw [extendFrom_of_ge (by exact hk)]
  | case4 pos c r hlt next problems hitem r' hreport ih =>
    by_cases hsize : k ≤ c.entries.size
    · rw [extendFrom_of_ge hsize]
    · rw [extendFrom_of_stray (by omega) hitem, hreport]
      exact ih hk
  | case6 pos c r hlt entry next problems hitem r' hreport ih =>
    by_cases hsize : k ≤ c.entries.size
    · rw [extendFrom_of_ge hsize]
    · rw [extendFrom_of_game (by omega) hitem, hreport]
      exact ih hk

/-- A scan that failed fails in the same way for every target it did not reach. -/
theorem extendFrom_eq_of_failure {k : Nat} {failure : Failure}
    (hfailure : (extendFrom strict buffer target pos c r).1 = some failure)
    (hk : (extendFrom strict buffer target pos c r).2.1.entries.size < k) :
    extendFrom strict buffer k pos c r = extendFrom strict buffer target pos c r := by
  -- By the recursion of the scan, which looks at the target only to see whether to go on.
  fun_induction extendFrom strict buffer target pos c r with
  | case1 pos c r hlt problems hitem failure' r' hreport =>
    rw [extendFrom_of_nothing hk hitem, hreport]
  | case2 => cases hfailure
  | case3 pos c r hlt next problems hitem failure' r' hreport =>
    rw [extendFrom_of_stray hk hitem, hreport]
  | case4 pos c r hlt next problems hitem r' hreport ih =>
    have hsize := Nat.lt_of_le_of_lt (size_le_extendFrom strict buffer target next c r') hk
    rw [extendFrom_of_stray hsize hitem, hreport]
    exact ih hfailure hk
  | case5 pos c r hlt entry next problems hitem failure' r' hreport =>
    rw [extendFrom_of_game hk hitem, hreport]
  | case6 pos c r hlt entry next problems hitem r' hreport ih =>
    have hsize := size_le_extendFrom strict buffer target next (c.add entry next) r'
    rw [add, Array.size_push] at hsize
    rw [extendFrom_of_game (by rw [add] at hk; omega) hitem, hreport]
    exact ih hfailure hk
  | case7 => cases hfailure

/-! ## One request -/

/-- A request that can be answered at once is. -/
theorem ensure_of_done (h : c.complete = true ∨ target ≤ c.entries.size) :
    c.ensure strict buffer target r = (.ok c.entries.size, c, r) :=
  if_pos h

/-- Any other request is answered by a scan. -/
theorem ensure_of_open (h : ¬(c.complete = true ∨ target ≤ c.entries.size)) :
    c.ensure strict buffer target r =
      let result := extendFrom strict buffer target (scanStart buffer.text c.resume) c r
      (result.1.elim (.ok result.2.1.entries.size) .error, result.2) := by
  rw [ensure, if_neg h]
  split <;> next hresult => rw [hresult]; rfl

/-- What a request for `target` games makes of a catalogue that tracks the text. -/
structure Ensured (t : Text) (strict : Bool) (target : Nat) (c : Catalogue)
    (result : Except Failure Nat × Catalogue × Reporter) : Prop where
  tracks : result.2.1.Tracks t strict
  le_size : c.entries.size ≤ result.2.1.entries.size
  size_le : result.2.1.entries.size ≤ max c.entries.size target
  of_ok : ∀ count, result.1 = .ok count → count = result.2.1.entries.size ∧
    count = max c.entries.size (min target (t.games strict).length)

/-- A request of a catalogue that tracks the text is answered with a longer piece of its games. -/
theorem Tracks.ensured (htracks : c.Tracks buffer.text strict) (target : Nat) (r : Reporter) :
    Ensured buffer.text strict target c (c.ensure strict buffer target r) := by
  have hle := htracks.size_le
  by_cases hdone : c.complete = true ∨ target ≤ c.entries.size
  · rw [ensure_of_done hdone]
    refine ⟨htracks, Nat.le_refl _, Nat.le_max_left _ _, ?_⟩
    intro count hcount
    cases hcount
    refine ⟨rfl, ?_⟩
    -- A complete catalogue cannot be extended, one that reaches the target need not be.
    rcases hdone with hcomplete | hreached
    · have := htracks.size_of_complete hcomplete
      omega
    · omega
  · rw [ensure_of_open hdone]
    have hscan := htracks.advanced target r htracks.ahead
    cases hanswer : (extendFrom strict buffer target (scanStart buffer.text c.resume) c r).1 with
    | some failure =>
      have := hscan.size_lt failure hanswer
      exact ⟨hscan.tracks, hscan.le_size, by simp only; omega, by simp [hanswer]⟩
    | none =>
      have hsize := hscan.size_eq hanswer
      refine ⟨hscan.tracks, hscan.le_size, by simp only; omega, ?_⟩
      intro count hcount
      simp only [hanswer, Option.elim_none, Except.ok.injEq] at hcount
      exact ⟨hcount.symm, hcount.symm.trans hsize⟩

/-- A request to which nobody listens is answered. -/
theorem ensure_of_handler_none (c : Catalogue) (strict : Bool) (buffer : Buffer) (target : Nat)
    (hr : r.handler = none) :
    ∃ c', c.ensure strict buffer target r = (.ok c'.entries.size, c', r) := by
  by_cases hdone : c.complete = true ∨ target ≤ c.entries.size
  · exact ⟨c, ensure_of_done hdone⟩
  · obtain ⟨c', hscan⟩ := extendFrom_of_handler_none c strict buffer target
      (scanStart buffer.text c.resume) hr
    exact ⟨c', by rw [ensure_of_open hdone, hscan]; rfl⟩

/-- A request to which nobody listens leaves the first games of the text, as many as it asked
for. -/
theorem Tracks.entries_ensure (htracks : c.Tracks buffer.text strict) (hr : r.handler = none)
    (hsize : c.entries.size ≤ target) :
    (c.ensure strict buffer target r).2.1.entries.toList =
      (buffer.text.games strict).take target := by
  have hensured := htracks.ensured target r
  obtain ⟨c', hc'⟩ := ensure_of_handler_none c strict buffer target hr
  rw [hc'] at hensured ⊢
  have hcount := (hensured.of_ok _ rfl).2
  rw [hensured.tracks.entries_eq, hcount, Nat.max_def]
  exact List.take_eq_take_iff.2 (by split <;> omega)

/-- What the request that just failed would have been answered for another number of games: it is
granted exactly the games that were kept. -/
theorem Tracks.ensure_fst_of_failure {c' : Catalogue} {r' : Reporter} {failure : Failure}
    (htracks : c.Tracks buffer.text strict)
    (h : c.ensure strict buffer target r = (.error failure, c', r')) (k : Nat) :
    (c.ensure strict buffer k r).1 =
      if k ≤ c'.entries.size then .ok (max c.entries.size k) else .error failure := by
  have hopen : ¬(c.complete = true ∨ target ≤ c.entries.size) := by
    intro hdone
    rw [ensure_of_done hdone] at h
    cases h
  have hle : c.entries.size ≤ c'.entries.size := by
    simpa [h] using (htracks.ensured target r).le_size
  have hlen : c'.entries.size ≤ (buffer.text.games strict).length := by
    simpa [h] using (htracks.ensured target r).tracks.size_le
  rw [ensure_of_open hopen] at h
  obtain ⟨hanswer, hrest⟩ := Prod.mk.inj h
  have hfailure : (extendFrom strict buffer target (scanStart buffer.text c.resume) c r).1 =
      some failure := by
    -- No other answer leaves a failure behind.
    cases hresult : (extendFrom strict buffer target (scanStart buffer.text c.resume) c r).1
    <;> simp_all
  have hkept : (extendFrom strict buffer target (scanStart buffer.text c.resume) c r).2.1 = c' :=
    congrArg Prod.fst hrest
  by_cases hdone : c.complete = true ∨ k ≤ c.entries.size
  · have hk : k ≤ c.entries.size := hdone.resolve_left fun hc => hopen (.inl hc)
    rw [ensure_of_done hdone, if_pos (Nat.le_trans hk hle), Nat.max_eq_left hk]
  · rw [ensure_of_open hdone]
    -- A target in front of the failure is reached, any other fails as before.
    by_cases hfew : k ≤ c'.entries.size
    · have hnone := extendFrom_eq_none (k := k) (by rw [hkept]; exact hfew)
      have hsize := (htracks.advanced k r htracks.ahead).size_eq hnone
      simp only [hnone, Option.elim_none, if_pos hfew, hsize]
      rw [Nat.min_eq_left (Nat.le_trans hfew hlen)]
    · have hsame := extendFrom_eq_of_failure (k := k) hfailure (by rw [hkept]; omega)
      simp only [hsame, hfailure, Option.elim_some, if_neg hfew]

end Catalogue

namespace Text

/-- What one undisturbed request for all games finds in a text. -/
def index (t : Text) (strict : Bool) : List Entry :=
  (Catalogue.empty.ensure strict ⟨0, t⟩ Catalogue.allGames .empty).2.1.entries.toList

/-- That is all games of the text, as far as a request can ask. -/
theorem index_eq (t : Text) (strict : Bool) :
    t.index strict = (t.games strict).take Catalogue.allGames :=
  (Catalogue.Tracks.empty ..).entries_ensure rfl (Nat.zero_le _)

end Text

end Scorebook
