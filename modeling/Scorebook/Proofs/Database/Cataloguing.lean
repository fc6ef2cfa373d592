import Scorebook.Proofs.Catalogue.Pieces

/-!
# A database catalogued in pieces

`Database.Call` is what a caller may do while a database is catalogued: ask for games, and install
or remove a handler. The main statement, `Database.catalogued_in_pieces`, compares a database after
any calls with one that was asked once for everything.
-/

namespace Scorebook.Database

/-- The entries catalogued so far. -/
def entries (db : Database) : List Entry :=
  db.catalogue.entries.toList

/-- What cataloguing looks like from outside. A target is at most `Catalogue.allGames`. -/
inductive Call
  /-- Asks for at least so many games. -/
  | index (target : UInt32)
  /-- Installs a handler in place of the last, or removes it. -/
  | listen (handler : Option Handler)

/-- The database after a call. -/
def serve (db : Database) : Call → Database
  | .index target => (db.indexTo target.toNat).2
  | .listen handler => db.setHandler handler

/-- The database after calls, the first one first. -/
def serveAll (db : Database) (calls : List Call) : Database :=
  calls.foldl serve db

/-- How a database relates to its full index, the entries of all its games. -/
structure AgreesWith (db : Database) (full : List Entry) : Prop where
  isPrefix : db.entries <+: full
  eq_of_complete : db.catalogue.complete = true → db.entries = full
  /-- A request is answered by the number of games there now are. One that fails keeps the games
  it found: the same request would have been granted exactly these. -/
  indexTo : ∀ target : UInt32,
    match db.indexTo target.toNat with
    | (.ok count, after) =>
      count = max db.entries.length (min target.toNat full.length) ∧
        count = after.entries.length ∧ db.entries <+: after.entries
    | (.error failure, after) =>
      db.entries <+: after.entries ∧ after.entries <+: full ∧
        ∀ k : UInt32, (db.indexTo k.toNat).1 =
          if k.toNat ≤ after.entries.length then .ok (max db.entries.length k.toNat)
          else .error failure

/-! ## What every call keeps -/

/-- The database looks at this store and its catalogue agrees with the bytes there. -/
structure Catalogued (db : Database) (store : Store) (strict : Bool) : Prop where
  store_eq : db.store = store
  strict_eq : db.options.strict = strict
  tracks : db.catalogue.Tracks store.current.buffer.text strict
  size_le : db.catalogue.entries.size ≤ Catalogue.allGames

/-- No target is beyond all games. -/
theorem toNat_le_allGames (target : UInt32) : target.toNat ≤ Catalogue.allGames := by
  have := target.toNat_lt
  simp only [Catalogue.allGames]
  omega

variable {db : Database} {store : Store} {strict : Bool}

/-- A database that was just opened, with nothing catalogued. -/
def unread (store : Store) (options : Options) : Database :=
  ⟨options, store, .empty, .empty, 0, none⟩

/-- A database that was just opened has catalogued nothing. -/
theorem Catalogued.unread (store : Store) (options : Options) :
    (unread store options).Catalogued store options.strict :=
  ⟨rfl, rfl, .empty .., Nat.zero_le _⟩

/-- What a request does to the catalogue. -/
theorem Catalogued.ensured (h : db.Catalogued store strict) (target : Nat) :
    Catalogue.Ensured store.current.buffer.text strict target db.catalogue
      ((db.indexTo target).1, (db.indexTo target).2.catalogue, (db.indexTo target).2.reporter) := by
  obtain ⟨rfl, rfl, htracks, -⟩ := h
  exact htracks.ensured target db.reporter

/-- A request for games keeps to the games of the text. -/
theorem Catalogued.indexTo (h : db.Catalogued store strict) {target : Nat}
    (htarget : target ≤ Catalogue.allGames) : (db.indexTo target).2.Catalogued store strict where
  store_eq := h.store_eq
  strict_eq := h.strict_eq
  tracks := (h.ensured target).tracks
  size_le := by
    have hle := (h.ensured target).size_le
    have := h.size_le
    simp only at hle
    omega

/-- So does any call. -/
theorem Catalogued.serve (h : db.Catalogued store strict) (call : Call) :
    (db.serve call).Catalogued store strict := by
  cases call with
  | index target => exact h.indexTo (toNat_le_allGames target)
  | listen handler => exact ⟨h.store_eq, h.strict_eq, h.tracks, h.size_le⟩

/-- So do all calls. -/
theorem Catalogued.serveAll (h : db.Catalogued store strict) (calls : List Call) :
    (db.serveAll calls).Catalogued store strict := by
  induction calls generalizing db with
  | nil => exact h
  | cons call calls ih => exact ih (h.serve call)

/-- The games a request leaves begin with those it met. -/
theorem Catalogued.isPrefix_indexTo (h : db.Catalogued store strict) (target : Nat) :
    db.entries <+: (db.indexTo target).2.entries :=
  h.tracks.isPrefix (h.ensured target).tracks (h.ensured target).le_size

/-- A call takes no game out of the catalogue. -/
theorem Catalogued.isPrefix_serve (h : db.Catalogued store strict) (call : Call) :
    db.entries <+: (db.serve call).entries := by
  cases call with
  | index target => exact h.isPrefix_indexTo target.toNat
  | listen handler => exact List.prefix_rfl

/-- Nor do any number of them. -/
theorem Catalogued.isPrefix_serveAll (h : db.Catalogued store strict) (calls : List Call) :
    db.entries <+: (db.serveAll calls).entries := by
  induction calls generalizing db with
  | nil => exact List.prefix_rfl
  | cons call calls ih => exact (h.isPrefix_serve call).trans (ih (h.serve call))

/-! ## The full index -/

/-- A request to which nobody listens is answered and changes the catalogue alone. -/
theorem indexTo_of_handler_none (db : Database) (hquiet : db.reporter.handler = none)
    (target : Nat) :
    ∃ c, db.indexTo target = (.ok c.entries.size, { db with catalogue := c }) := by
  obtain ⟨c, hc⟩ := Catalogue.ensure_of_handler_none db.catalogue db.options.strict db.buffer
    target hquiet
  exact ⟨c, by rw [Database.indexTo, hc]⟩

/-- A request for all games to which nobody listens leaves all games of the text, or as many as a
request can ask for. -/
theorem Catalogued.indexTo_allGames (h : db.Catalogued store strict)
    (hquiet : db.reporter.handler = none) :
    (db.indexTo Catalogue.allGames).1 = .ok (db.indexTo Catalogue.allGames).2.entries.length ∧
      (db.indexTo Catalogue.allGames).2.entries =
        (store.current.buffer.text.games strict).take Catalogue.allGames := by
  obtain ⟨c, hc⟩ := indexTo_of_handler_none db hquiet Catalogue.allGames
  refine ⟨by rw [hc, entries, Array.length_toList], ?_⟩
  obtain ⟨rfl, rfl, htracks, hsize⟩ := h
  exact htracks.entries_ensure hquiet hsize

/-- A catalogued database agrees with the first games of its text that a request can ask for. -/
theorem Catalogued.agreesWith (h : db.Catalogued store strict) :
    db.AgreesWith ((store.current.buffer.text.games strict).take Catalogue.allGames) := by
  have hsize := h.size_le
  have hlen := h.tracks.size_le
  have hfirst {db : Database} (h : db.Catalogued store strict) :
      db.entries <+: (store.current.buffer.text.games strict).take Catalogue.allGames := by
    rw [entries, h.tracks.entries_eq]
    exact List.take_prefix_take_left h.size_le
  refine ⟨hfirst h, ?_, ?_⟩
  · -- A complete catalogue holds all the games that can be numbered.
    intro hcomplete
    have := h.tracks.size_of_complete hcomplete
    rw [entries, h.tracks.entries_eq]
    exact List.take_eq_take_iff.2 (by omega)
  · intro target
    have htarget := toNat_le_allGames target
    have hensured := h.ensured target.toNat
    have hgrown := h.isPrefix_indexTo target.toNat
    have hafter := h.indexTo htarget
    -- What is asked for is reached, or the failure that stopped it is met again later.
    rcases hresult : db.indexTo target.toNat with ⟨answer, after⟩
    rw [hresult] at hensured hgrown hafter
    cases answer with
    | ok count =>
      obtain ⟨hcount, hmax⟩ := hensured.of_ok count rfl
      simp only [entries, Array.length_toList, List.length_take] at *
      exact ⟨by omega, hcount, hgrown⟩
    | error failure =>
      refine ⟨hgrown, hfirst hafter, ?_⟩
      intro k
      obtain ⟨rfl, rfl, htracks, -⟩ := h
      simp only [Database.indexTo] at hresult ⊢
      obtain ⟨hanswer, rfl⟩ := Prod.mk.inj hresult
      simp only [entries, Array.length_toList]
      exact htracks.ensure_fst_of_failure (Prod.ext hanswer rfl) k.toNat

/-! ## The statement -/

/-- Without a handler nothing keeps a database from being opened. -/
theorem openStore_eq (store : Store) (options : Options) :
    openStore store options =
      if options.prefetch = 0 then .ok (unread store options)
      else .ok ((unread store options).indexTo options.prefetch).2 := by
  unfold openStore
  split
  · rfl
  · obtain ⟨c, hc⟩ := indexTo_of_handler_none (unread store options) rfl options.prefetch
    show (match (unread store options).indexTo options.prefetch with
      | (.ok _, db) => Except.ok db
      | (.error failure, _) => .error failure) = _
    rw [hc]

/-- A database opens with any number of games to prefetch. -/
theorem openStore_catalogued (store : Store) (strict : Bool) (prefetch : UInt32) :
    ∃ db, openStore store ⟨strict, prefetch.toNat⟩ = .ok db ∧ db.Catalogued store strict := by
  rw [openStore_eq]
  split
  · exact ⟨_, rfl, .unread store ⟨strict, prefetch.toNat⟩⟩
  · exact ⟨_, rfl, (Catalogued.unread store ⟨strict, prefetch.toNat⟩).indexTo
      (toNat_le_allGames prefetch)⟩

/-- Cataloguing in pieces comes to the same as cataloguing at once. Whatever was asked for and
whoever listened, a database holds the beginning of its full index, which one undisturbed request
for all games finds; it never loses a game again, and every request is answered accordingly. -/
theorem catalogued_in_pieces (store : Store) (strict : Bool) (prefetch : UInt32) :
    ∃ fresh whole db,
      openStore store ⟨strict, 0⟩ = .ok fresh ∧
      fresh.indexTo Catalogue.allGames = (.ok whole.entries.length, whole) ∧
      openStore store ⟨strict, prefetch.toNat⟩ = .ok db ∧
      ∀ earlier later : List Call,
        (db.serveAll earlier).AgreesWith whole.entries ∧
        (db.serveAll earlier).entries <+: (db.serveAll (earlier ++ later)).entries := by
  obtain ⟨db, hopen, hdb⟩ := openStore_catalogued store strict prefetch
  have hfresh := Catalogued.unread store ⟨strict, 0⟩
  obtain ⟨hanswer, hwhole⟩ := hfresh.indexTo_allGames rfl
  refine ⟨unread store ⟨strict, 0⟩, ((unread store ⟨strict, 0⟩).indexTo Catalogue.allGames).2, db,
    rfl, Prod.ext hanswer rfl, hopen, fun earlier later => ⟨?_, ?_⟩⟩
  · rw [hwhole]
    exact (hdb.serveAll earlier).agreesWith
  · rw [serveAll, serveAll, List.foldl_append]
    exact (hdb.serveAll earlier).isPrefix_serveAll later

end Scorebook.Database
