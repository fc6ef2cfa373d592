import Scorebook.Proofs.Recoverable

/-!
# The games of a text

Cataloguing is done in pieces: it stops at a target, at a report that fails or at the end of the
text, and goes on from where the last game ended. `Text.games` is what all of it works towards, the
games of the whole text found in one go and without anyone asking. `Catalogue.Tracks` ties a
catalogue to it: the games it holds are the first of the text, and the scan that starts where it
would resume finds exactly the others. Every piece of cataloguing keeps that, whatever ends it.
-/

namespace Scorebook

namespace Text

/-! ## All games at once -/

/-- The games from `pos` on, each with the place the next may start. Their ordinals are zero. -/
def gamesFrom (t : Text) (strict : Bool) (pos : Nat) : List (Entry × Nat) :=
  match _hitem : t.nextItem strict pos with
  | (.nothing, _) => []
  | (.stray next, _) => t.gamesFrom strict next
  | (.game entry next, _) => (entry, next) :: t.gamesFrom strict next
termination_by t.size - pos
decreasing_by
  all_goals
    have hnext : (t.nextItem strict pos).1.next? = some next := by rw [_hitem]; rfl
    have := lt_of_next?_nextItem hnext
    omega

/-- The games of the text with the places the next may start. -/
def scannedGames (t : Text) (strict : Bool) : List (Entry × Nat) :=
  t.gamesFrom strict (Catalogue.scanStart t 0)

/-- The entries of all games of the text, in order and numbered from one. -/
def games (t : Text) (strict : Bool) : List Entry :=
  (t.scannedGames strict).mapIdx fun i game => { game.1 with ordinal := i + 1 }

/-- Numbering games does not change how many there are. -/
@[simp] theorem length_games (t : Text) (strict : Bool) :
    (t.games strict).length = (t.scannedGames strict).length := by
  simp [games]

/-- Where nothing follows there are no games. -/
theorem gamesFrom_of_nothing {t : Text} {strict : Bool} {pos : Nat} {problems : List Problem}
    (h : t.nextItem strict pos = (.nothing, problems)) : t.gamesFrom strict pos = [] := by
  unfold gamesFrom
  split <;> simp_all

/-- Text that belongs to no game is passed over. -/
theorem gamesFrom_of_stray {t : Text} {strict : Bool} {pos next : Nat} {problems : List Problem}
    (h : t.nextItem strict pos = (.stray next, problems)) :
    t.gamesFrom strict pos = t.gamesFrom strict next := by
  rw [gamesFrom]
  split <;> simp_all

/-- A game that is found is in front of those behind it. -/
theorem gamesFrom_of_game {t : Text} {strict : Bool} {pos next : Nat} {entry : Entry}
    {problems : List Problem} (h : t.nextItem strict pos = (.game entry next, problems)) :
    t.gamesFrom strict pos = (entry, next) :: t.gamesFrom strict next := by
  rw [gamesFrom]
  split <;> simp_all

end Text

/-! ## Catalogues that agree with the text -/

namespace Catalogue

/-- From `pos` on lie exactly the games the catalogue does not hold yet. -/
def Ahead (c : Catalogue) (t : Text) (strict : Bool) (pos : Nat) : Prop :=
  t.gamesFrom strict pos = (t.scannedGames strict).drop c.entries.size

/-- The catalogue holds the first games of the text and resumes in front of the others. -/
structure Tracks (c : Catalogue) (t : Text) (strict : Bool) : Prop where
  entries_eq : c.entries.toList = (t.games strict).take c.entries.size
  ahead : c.Ahead t strict (scanStart t c.resume)
  size_of_complete : c.complete = true → c.entries.size = (t.games strict).length

/-- Away from the very beginning a scan starts where it is told to. -/
theorem scanStart_of_pos {t : Text} {pos : Nat} (h : 0 < pos) : scanStart t pos = pos :=
  if_neg fun ⟨hzero, _⟩ => by omega

/-- The empty catalogue tracks every text. -/
theorem Tracks.empty (t : Text) (strict : Bool) : Catalogue.empty.Tracks t strict where
  entries_eq := rfl
  ahead := rfl
  size_of_complete := nofun

/-- The place of a game in the catalogue is its place in the text. -/
theorem Tracks.getElem?_games {c : Catalogue} {t : Text} {strict : Bool} (h : c.Tracks t strict)
    {n : Nat} {entry : Entry} (hentry : c.entry? n = some entry) :
    ∃ i, n = i + 1 ∧ (t.games strict)[i]? = some entry := by
  cases n with
  | zero => cases hentry
  | succ i =>
    have hget : c.entries.toList[i]? = some entry := by
      rw [Array.getElem?_toList]
      exact hentry
    rw [h.entries_eq, List.getElem?_take] at hget
    split at hget
    · exact ⟨i, rfl, hget⟩
    · cases hget

/-- A catalogue never holds more games than there are. -/
theorem Tracks.size_le {c : Catalogue} {t : Text} {strict : Bool} (h : c.Tracks t strict) :
    c.entries.size ≤ (t.games strict).length := by
  have hlen := congrArg List.length h.entries_eq
  rw [Array.length_toList, List.length_take] at hlen
  omega

/-- The catalogue with fewer games is the beginning of the one with more. -/
theorem Tracks.isPrefix {c c' : Catalogue} {t : Text} {strict : Bool} (h : c.Tracks t strict)
    (h' : c'.Tracks t strict) (hle : c.entries.size ≤ c'.entries.size) :
    c.entries.toList <+: c'.entries.toList := by
  rw [h.entries_eq, h'.entries_eq]
  exact List.take_prefix_take_left hle

/-! ## One step of a scan -/

variable {c : Catalogue} {t : Text} {strict : Bool} {pos next : Nat} {problems : List Problem}

/-- Passing over stray text keeps the catalogue in front of the same games. -/
theorem Ahead.stray (h : c.Ahead t strict pos)
    (hitem : t.nextItem strict pos = (.stray next, problems)) : c.Ahead t strict next := by
  rw [Ahead, ← Text.gamesFrom_of_stray hitem]
  exact h

/-- A game found is the next of the text. -/
theorem Ahead.getElem?_scannedGames {entry : Entry} (h : c.Ahead t strict pos)
    (hitem : t.nextItem strict pos = (.game entry next, problems)) :
    (t.scannedGames strict)[c.entries.size]? = some (entry, next) := by
  have h0 := congrArg (·[0]?) h
  rw [Text.gamesFrom_of_game hitem] at h0
  simpa using h0.symm

/-- The game that is found is the next one of the text. -/
theorem Ahead.getElem? {entry : Entry} (h : c.Ahead t strict pos)
    (hitem : t.nextItem strict pos = (.game entry next, problems)) :
    (t.games strict)[c.entries.size]? = some { entry with ordinal := c.entries.size + 1 } := by
  simp [Text.games, h.getElem?_scannedGames hitem]

/-- A catalogue that takes in the game is in front of the games behind it. -/
theorem Ahead.add {entry : Entry} (h : c.Ahead t strict pos)
    (hitem : t.nextItem strict pos = (.game entry next, problems)) :
    (c.add entry next).Ahead t strict next := by
  have hdrop := congrArg (List.drop 1) h
  rw [Text.gamesFrom_of_game hitem, List.drop_one, List.tail_cons, List.drop_drop] at hdrop
  simpa [Ahead, Catalogue.add] using hdrop

/-- Where no game is left, the catalogue holds all of them. -/
theorem Ahead.size_eq (h : c.Ahead t strict pos) (htracks : c.Tracks t strict)
    (hitem : t.nextItem strict pos = (.nothing, problems)) :
    c.entries.size = (t.games strict).length := by
  have hle := htracks.size_le
  rw [Ahead, Text.gamesFrom_of_nothing hitem] at h
  have hge := List.drop_eq_nil_iff.1 h.symm
  rw [Text.length_games] at hle ⊢
  omega

/-- A catalogue keeps tracking the text when the next game is added to it. -/
theorem Tracks.add {entry : Entry} (htracks : c.Tracks t strict) (h : c.Ahead t strict pos)
    (hitem : t.nextItem strict pos = (.game entry next, problems)) :
    (c.add entry next).Tracks t strict where
  entries_eq := by
    have hnext := h.getElem? hitem
    simp [Catalogue.add, htracks.entries_eq, List.take_add_one, hnext]
  ahead := by
    have hfound : (t.nextItem strict pos).1.next? = some next := by rw [hitem]; rfl
    have hlt := (Text.lt_of_next?_nextItem hfound).2
    show (c.add entry next).Ahead t strict (scanStart t next)
    rw [scanStart_of_pos (by omega)]
    exact h.add hitem
  size_of_complete := by
    intro hcomplete
    obtain ⟨hlt, -⟩ := List.getElem?_eq_some_iff.1 (h.getElem? hitem)
    have := htracks.size_of_complete hcomplete
    omega

/-- A catalogue with nothing ahead is complete. -/
theorem Tracks.finish (htracks : c.Tracks t strict) (h : c.Ahead t strict pos)
    (hitem : t.nextItem strict pos = (.nothing, problems)) :
    { c with complete := true }.Tracks t strict :=
  ⟨htracks.entries_eq, htracks.ahead, fun _ => h.size_eq htracks hitem⟩

/-! ## A whole scan -/

/-- What a scan for `target` games makes of the catalogue `c`: it fails short of the target, or
holds as many games as it was asked for and the text has. -/
structure Advanced (t : Text) (strict : Bool) (target : Nat) (c : Catalogue)
    (result : Option Failure × Catalogue × Reporter) : Prop where
  tracks : result.2.1.Tracks t strict
  le_size : c.entries.size ≤ result.2.1.entries.size
  size_eq : result.1 = none →
    result.2.1.entries.size = max c.entries.size (min target (t.games strict).length)
  size_lt : ∀ failure, result.1 = some failure → result.2.1.entries.size < target

/-- However a scan ends, the catalogue it leaves tracks the text. -/
theorem Tracks.advanced {buffer : Buffer} (target : Nat) (r : Reporter)
    (htracks : c.Tracks buffer.text strict) (h : c.Ahead buffer.text strict pos) :
    Advanced buffer.text strict target c (extendFrom strict buffer target pos c r) := by
  -- By the recursion of the scan: it stops at the end, at a failure or with the target reached.
  fun_induction Catalogue.extendFrom strict buffer target pos c r with
  | case1 pos c r hlt problems hitem failure r' hreport =>
    exact ⟨htracks, Nat.le_refl _, fun h => absurd h (Option.some_ne_none _), fun _ _ => hlt⟩
  | case2 pos c r hlt problems hitem r' hreport =>
    have := h.size_eq htracks hitem
    exact ⟨htracks.finish h hitem, Nat.le_refl _, fun _ => by simp only; omega,
      fun _ h => absurd h.symm (Option.some_ne_none _)⟩
  | case3 pos c r hlt next problems hitem failure r' hreport =>
    exact ⟨htracks, Nat.le_refl _, fun h => absurd h (Option.some_ne_none _), fun _ _ => hlt⟩
  | case4 pos c r hlt next problems hitem r' hreport ih =>
    exact ih htracks (h.stray hitem)
  | case5 pos c r hlt entry next problems hitem failure r' hreport =>
    exact ⟨htracks, Nat.le_refl _, fun h => absurd h (Option.some_ne_none _), fun _ _ => hlt⟩
  | case6 pos c r hlt entry next problems hitem r' hreport ih =>
    -- The game is the next one of the text, so the catalogue still follows it.
    have hadd := htracks.add h hitem
    have hle := hadd.size_le
    have hsize : (c.add entry next).entries.size = c.entries.size + 1 := by simp [Catalogue.add]
    obtain ⟨htracks', hmono, hreached, hshort⟩ := ih hadd (h.add hitem)
    refine ⟨htracks', by omega, ?_, hshort⟩
    intro hnone
    have := hreached hnone
    omega
  | case7 pos c r hge =>
    have := htracks.size_le
    exact ⟨htracks, Nat.le_refl _, fun _ => by simp only; omega,
      fun _ h => absurd h.symm (Option.some_ne_none _)⟩

/-- A scan does not fail if all reports on its way are accepted. `P` holds of the places on that
way. -/
theorem extendFrom_of_accepted {P : Nat → Prop} {buffer : Buffer} {r : Reporter} (target : Nat)
    (haccept : ∀ pos, P pos → r.reportAll buffer (buffer.text.nextItem strict pos).2 = (none, r))
    (hnext : ∀ pos next, P pos → (buffer.text.nextItem strict pos).1.next? = some next → P next)
    (hpos : P pos) (hresume : P (scanStart buffer.text c.resume)) :
    ∃ c', extendFrom strict buffer target pos c r = (none, c', r) ∧
      P (scanStart buffer.text c'.resume) := by
  -- By the recursion of the scan. A report that is accepted leaves the reporter as it was.
  fun_induction Catalogue.extendFrom strict buffer target pos c r with
  | case1 pos c r hlt problems hitem failure r' hreport =>
    have haccepted := haccept pos hpos
    rw [hitem, hreport] at haccepted
    cases haccepted
  | case2 pos c r hlt problems hitem r' hreport =>
    have haccepted := haccept pos hpos
    rw [hitem, hreport] at haccepted
    cases haccepted
    exact ⟨_, rfl, hresume⟩
  | case3 pos c r hlt next problems hitem failure r' hreport =>
    have haccepted := haccept pos hpos
    rw [hitem, hreport] at haccepted
    cases haccepted
  | case4 pos c r hlt next problems hitem r' hreport ih =>
    have haccepted := haccept pos hpos
    rw [hitem, hreport] at haccepted
    cases haccepted
    exact ih haccept (hnext pos next hpos (by rw [hitem]; rfl)) hresume
  | case5 pos c r hlt entry next problems hitem failure r' hreport =>
    have haccepted := haccept pos hpos
    rw [hitem, hreport] at haccepted
    cases haccepted
  | case6 pos c r hlt entry next problems hitem r' hreport ih =>
    have haccepted := haccept pos hpos
    rw [hitem, hreport] at haccepted
    cases haccepted
    -- The scan goes on behind the game, which is also where it would be resumed.
    have hfound : (buffer.text.nextItem strict pos).1.next? = some next := by rw [hitem]; rfl
    have hlt := (Text.lt_of_next?_nextItem hfound).2
    have hP := hnext pos next hpos hfound
    have hresume' : P (scanStart buffer.text (c.add entry next).resume) := by
      show P (scanStart buffer.text next)
      rw [scanStart_of_pos (by omega)]
      exact hP
    exact ih haccept hP hresume'
  | case7 pos c r hge => exact ⟨c, rfl, hresume⟩

/-- A scan to which nobody listens does not fail. -/
theorem extendFrom_of_handler_none (c : Catalogue) (strict : Bool) (buffer : Buffer)
    (target pos : Nat) {r : Reporter} (hr : r.handler = none) :
    ∃ c', extendFrom strict buffer target pos c r = (none, c', r) := by
  obtain ⟨c', hscan, -⟩ := extendFrom_of_accepted target (P := fun _ => True) (c := c)
    (fun pos _ => Reporter.reportAll_of_handler_none hr buffer
      (Text.recoverable_nextItem buffer.text strict pos))
    (fun _ _ _ _ => trivial) trivial trivial
  exact ⟨c', hscan⟩

end Catalogue

end Scorebook
