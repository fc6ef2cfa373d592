import Scorebook.Proofs.Catalogue.Telling
import Scorebook.Proofs.Database.Access
import Scorebook.Proofs.Database.Staleness

/-!
# What requests tell

While somebody listens who accepts every report, every problem a request runs into is told, and what
was told is recalled. `Database.Recalling` follows the list of all that was told through the
requests: cataloguing adds the problems ahead, and reading a game adds the problems of the game,
those that were told before included.
-/

namespace Scorebook.Database

/-- The listener of a database of this store accepts every report, and recalls what was told. -/
structure Recalling (store : Store) (strict : Bool) (told : List Problem) (db : Database) :
    Prop where
  catalogued : db.Catalogued store strict
  obliging : db.reporter.Obliging
  recalls : db.reporter.Recalls store.current.buffer.text told
  /-- The game kept from the last read is the one its number would be read as, and was told of. -/
  current : ∀ g, db.current = some g →
    store.current.buffer.fresh strict g.number = .ok (some g) ∧ g.problems ⊆ told

variable {store : Store} {strict : Bool} {told heard : List Problem} {db : Database} {disk : Disk}
  {n : Nat}

namespace Recalling

/-- A recalling database looks at the bytes of its store. -/
theorem buffer_eq (h : Recalling store strict told db) : db.buffer = store.current.buffer := by
  rw [Database.buffer, h.catalogued.store_eq]

/-- Whoever is the first to listen was told nothing. -/
theorem listen {handler : Handler} (hhandler : handler.Obliging)
    (hcatalogued : db.Catalogued store strict) (hreporter : db.reporter = .empty)
    (hcurrent : db.current = none) :
    Recalling store strict [] (db.setHandler (some handler)) where
  catalogued := ⟨hcatalogued.store_eq, hcatalogued.strict_eq, hcatalogued.tracks,
    hcatalogued.size_le⟩
  obliging := by
    intro handler' hhandler'
    cases hhandler'
    exact hhandler
  recalls := by
    rw [setHandler, hreporter]
    exact Reporter.recalls_nil rfl (fun _ => Std.HashSet.not_mem_empty) ⟨rfl, .empty _⟩
  current := fun g hg => absurd (hcurrent ▸ hg) (Option.some_ne_none g).symm

/-- A listener that is told more recalls more. -/
theorem tell (h : Recalling store strict told db) {r : Reporter} (hobliging : r.Obliging)
    (hrecalls : r.Recalls store.current.buffer.text (told ++ heard)) :
    Recalling store strict (told ++ heard) { db with reporter := r } where
  catalogued := ⟨h.catalogued.store_eq, h.catalogued.strict_eq, h.catalogued.tracks,
    h.catalogued.size_le⟩
  obliging := hobliging
  recalls := hrecalls
  current := by
    intro g hg
    obtain ⟨hfresh, hsub⟩ := h.current g hg
    exact ⟨hfresh, fun p hp => List.mem_append_left _ (hsub hp)⟩

/-- A recalling database may arrive at a game whose problems were told. -/
theorem arriveAt (h : Recalling store strict told db) {g : Game}
    (hfresh : store.current.buffer.fresh strict g.number = .ok (some g))
    (hsub : g.problems ⊆ told) : Recalling store strict told (db.arriveAt g) where
  catalogued := ⟨h.catalogued.store_eq, h.catalogued.strict_eq, h.catalogued.tracks,
    h.catalogued.size_le⟩
  obliging := h.obliging
  recalls := h.recalls
  current := fun _ hcurrent => Option.some.inj hcurrent ▸ ⟨hfresh, hsub⟩

/-- A store in which nothing changed is not looked at anew. -/
theorem refresh (h : Recalling store strict told db) (hstill : store.refresh disk = .ok store) :
    db.refresh disk = (.ok (), db) := by
  rw [← h.catalogued.store_eq] at hstill
  simp [Database.refresh, hstill]

/-- A request for games is answered, and tells of the problems ahead. -/
theorem indexTo (h : Recalling store strict told db) (hn : n ≤ Catalogue.allGames) :
    (db.indexTo n).1 = .ok (db.indexTo n).2.catalogue.entries.size ∧
      Recalling store strict
        (told ++ db.catalogue.problemsAhead store.current.buffer.text strict n)
        (db.indexTo n).2 := by
  have hcatalogued := h.catalogued.indexTo hn
  have hstrict := h.catalogued.strict_eq
  have hrecalls : db.reporter.Recalls db.buffer.text told := h.buffer_eq ▸ h.recalls
  obtain ⟨hanswer, hafter⟩ :=
    Catalogue.ensure_of_obliging db.options.strict db.buffer n db.catalogue h.obliging
  have htold := @Catalogue.recalls_ensure db.options.strict db.buffer n db.catalogue db.reporter
    -- The catalogue tells what is ahead, which is then behind it.
    told hrecalls h.obliging
  rw [hstrict, h.buffer_eq] at htold
  refine ⟨hanswer, hcatalogued, hafter, ?_, ?_⟩
  · unfold Database.indexTo
    rw [hstrict, h.buffer_eq]
    exact htold
  · -- What is known of the cached game is still known.
    intro g hg
    obtain ⟨hfresh, hsub⟩ := h.current g hg
    exact ⟨hfresh, fun p hp => List.mem_append_left _ (hsub hp)⟩

end Recalling

/-! ## Reading -/

/-- What reading game `n` comes to, and what is told on the way. -/
inductive Serves (store : Store) (strict : Bool) (told : List Problem) (n : Nat) :
    Except Failure (Option Reading) × Database → Prop
  /-- The game is given, and all that is wrong with it is told. -/
  | given {reading : Reading} {after : Database}
      (hfresh : store.current.buffer.fresh strict n = .ok (some reading.game))
      (hafter : Recalling store strict (told ++ reading.game.problems) after) :
      Serves store strict told n (.ok (some reading), after)
  /-- There are fewer games. -/
  | absent {after : Database} (hfresh : store.current.buffer.fresh strict n = .ok none)
      (hafter : Recalling store strict told after) : Serves store strict told n (.ok none, after)
  /-- A critical problem of the game stopped the read, and is told if it was not told before. -/
  | stopped {problem : Problem} {heard : List Problem} {after : Database}
      (hfresh : store.current.buffer.fresh strict n = .error (.fatal problem))
      (hheard : heard ≠ []) (hafter : Recalling store strict (told ++ heard) after) :
      Serves store strict told n (.error (.fatal problem), after)

namespace Recalling

/-- Reading at the place of a game tells of its problems and serves the game. -/
theorem readAt (h : Recalling store strict told db) {i : Nat} {entry : Entry}
    (hentry : (store.current.buffer.text.games strict)[i]? = some entry) :
    Serves store strict told (i + 1)
      ((db.readAt (i + 1) entry).1.map some, (db.readAt (i + 1) entry).2) := by
  unfold Database.readAt
  split
  · -- The cached game was told of when it was read, so nothing is told twice.
    next g hreuse =>
    obtain ⟨hcurrent, hnumber, -⟩ := reusable?_eq_some hreuse
    obtain ⟨hfresh, hsub⟩ := h.current g hcurrent
    have hagain := h.tell h.obliging (h.recalls.append_of_subset hsub)
    exact .given (hnumber ▸ hfresh) (hagain.arriveAt hfresh (List.subset_append_right ..))
  · rw [h.buffer_eq, h.catalogued.strict_eq]
    have hfresh := Buffer.fresh_of_game hentry
    have hnumber : (Game.read store.current.buffer strict (i + 1) entry).number = i + 1 := rfl
    generalize Game.read store.current.buffer strict (i + 1) entry = game at hfresh hnumber ⊢
    obtain ⟨hanswer, hobliging⟩ := h.obliging.reportAll store.current.buffer game.problems
    obtain ⟨heard, -, hempty, hall, hrecalls⟩ := h.recalls.reportAll rfl game.problems
    have htold := h.tell hobliging hrecalls
    simp only
    generalize db.reporter.reportAll store.current.buffer game.problems = result at *
    obtain ⟨failure, r⟩ := result
    simp only at hanswer
    -- The reporter stops at the first critical problem and has told of those in front of it.
    cases hcritical : game.problems.find? Problem.isCritical with
    | some problem =>
      rw [hcritical] at hanswer hfresh
      subst hanswer
      refine .stopped hfresh (fun hnone => ?_) htold
      rw [hempty hnone] at hcritical
      cases hcritical
    | none =>
      rw [hcritical] at hanswer hfresh
      subst hanswer
      obtain rfl := hall rfl
      exact .given hfresh (htold.arriveAt (hnumber ▸ hfresh) (List.subset_append_right ..))

/-- A read catalogues up to the game and reads it at its place, if there is one. -/
theorem readGame_eq (h : Recalling store strict told db) (hstill : store.refresh disk = .ok store)
    (hn : n ≤ Catalogue.allGames) :
    db.readGame disk n =
      match (db.indexTo n).2.catalogue.entry? n with
      | none => (.ok none, (db.indexTo n).2)
      | some entry =>
        (((db.indexTo n).2.readAt n entry).1.map some, ((db.indexTo n).2.readAt n entry).2) := by
  obtain ⟨hanswer, hreached⟩ := h.indexTo hn
  rcases Nat.eq_zero_or_pos n with rfl | hpos
  · -- Nothing is catalogued for a game without a number.
    have hindex : db.indexTo 0 = (.ok db.catalogue.entries.size, db) := by
      rw [Database.indexTo, Catalogue.ensure_of_done (.inr (Nat.zero_le _))]
    rw [hindex]
    rfl
  · rw [readGame, if_neg (Nat.pos_iff_ne_zero.1 hpos), h.refresh hstill]
    simp only
    generalize db.indexTo n = result at hanswer hreached ⊢
    obtain ⟨answer, reached⟩ := result
    simp only at hanswer hreached ⊢
    subst hanswer
    cases hentry : reached.catalogue.entry? n with
    | none =>
      simp only [hentry]
      split <;> rfl
    -- An entry of a catalogue that fits the text is not stale.
    | some entry =>
      obtain ⟨_, hle⟩ := le_size_of_entry hentry
      obtain ⟨_, -, hget⟩ := hreached.catalogued.tracks.getElem?_games hentry
      have hgood := stale?_eq_none (.of_mem_games (List.mem_of_getElem? hget)) n
      rw [← hreached.buffer_eq] at hgood
      simp only [if_neg (Nat.not_lt.2 hle), hentry, hgood]
      rcases reached.readAt n entry with ⟨answer, after⟩
      cases answer <;> rfl

/-- A read tells of the problems ahead, and then serves the game of its number. -/
theorem readGame (h : Recalling store strict told db) (hstill : store.refresh disk = .ok store)
    (hn : n ≤ Catalogue.allGames) :
    Serves store strict (told ++ db.catalogue.problemsAhead store.current.buffer.text strict n) n
      (db.readGame disk n) := by
  obtain ⟨hanswer, hreached⟩ := h.indexTo hn
  have hcount := ((h.catalogued.ensured n).of_ok _ hanswer).2
  rw [h.readGame_eq hstill hn]
  cases hentry : (db.indexTo n).2.catalogue.entry? n with
  | none =>
    refine .absent ?_ hreached
    -- There is no entry because there is no game.
    cases n with
    | zero => rfl
    | succ i =>
      have hfew : (db.indexTo (i + 1)).2.catalogue.entries.size ≤ i :=
        Array.getElem?_eq_none_iff.1 hentry
      have hnone : (store.current.buffer.text.games strict)[i]? = none :=
        List.getElem?_eq_none (by omega)
      simp only [Buffer.fresh, hnone]
  | some entry =>
    obtain ⟨i, rfl, hget⟩ := hreached.catalogued.tracks.getElem?_games hentry
    exact hreached.readAt hget

/-- A read catalogues what a request for as many games would. -/
theorem readGame_catalogue (h : Recalling store strict told db)
    (hstill : store.refresh disk = .ok store) (hn : n ≤ Catalogue.allGames) :
    (db.readGame disk n).2.catalogue = (db.indexTo n).2.catalogue := by
  rw [h.readGame_eq hstill hn]
  split
  · rfl
  · next entry hentry =>
    obtain ⟨_, _, _, hafter⟩ := (db.indexTo n).2.readAt_frame n entry
    rw [hafter]

/-- Checking a game that was told of tells nothing new. -/
theorem check (h : Recalling store strict told db) {g : Game}
    (hbuffer : g.buffer = store.current.buffer) (hsub : g.problems ⊆ told) (depth : Depth) :
    Recalling store strict told (db.check g depth).2 := by
  have hkept {r : Reporter} (hobliging : r.Obliging)
      (hrecalls : r.Recalls store.current.buffer.text told) :
      Recalling store strict told { db with reporter := r } := by
    have htold := @tell store strict told [] db h r hobliging (by rwa [List.append_nil])
    rwa [List.append_nil] at htold
  cases depth with
  | simple => exact hkept h.obliging h.recalls
  | deep =>
    have hrecalls := h.recalls.mention (congrArg Buffer.text hbuffer) g.problems
    exact hkept (h.obliging.mention g.buffer g.problems) (hrecalls.of_subset hsub)

end Recalling

/-- A game that is read afresh is read from the buffer it is read from. -/
theorem buffer_of_fresh {buffer : Buffer} {g : Game}
    (h : buffer.fresh strict n = .ok (some g)) : g.buffer = buffer := by
  obtain ⟨_, _, -, -, rfl⟩ := buffer.game_of_fresh h
  rfl

end Scorebook.Database
