import Scorebook.Proofs.Catalogue.Quiet
import Scorebook.Proofs.Catalogue.Tiling
import Scorebook.Proofs.Database.Cataloguing

/-!
# Sessions on steady content

`Database.Request` is all that can be asked of a database, and a session is any number of requests
in any order. While the content stays what it was when the database was opened, whatever happens to
its modification time, the catalogue keeps agreeing with it, no place in the catalogue is ever found
stale, and every game handed out is the one its number belongs to.
-/

namespace Scorebook

/-- Where the content of a database is kept: in memory, or in a file with a modification time. -/
inductive Origin
  | memory
  | file (modified : Nat)

/-- Opens a database of this content. -/
def Origin.open (origin : Origin) (name : String) (bytes : ByteArray) (options : Options) :
    Except Failure Database :=
  match origin with
  | .memory => Database.ofBytes name bytes options
  | .file modified => Database.ofFile name (.ok ⟨bytes, modified⟩) options

/-- The game is what the text holds under the game's number. -/
def Game.IsOf (g : Game) (t : Text) (strict : Bool) : Prop :=
  ∃ key i entry, (t.games strict)[i]? = some entry ∧ g = Game.read ⟨key, t⟩ strict (i + 1) entry

namespace Database

/-- What may be asked of a database. Requests that look at its file come with the modification time
they find. -/
inductive Request
  | index (target : UInt32)
  | count (modified : Nat)
  | read (n : UInt32) (modified : Nat)
  | next (modified : Nat)
  | check (g : Game) (depth : Depth)
  | listen (handler : Option Handler)

/-- The database after a request, if its file holds these bytes. -/
def perform (bytes : ByteArray) (db : Database) : Request → Database
  | .index target => (db.indexTo target.toNat).2
  | .count modified => (db.gameCount (.ok ⟨bytes, modified⟩)).2
  | .read n modified => (db.readGame (.ok ⟨bytes, modified⟩) n.toNat).2
  | .next modified => (db.readNext (.ok ⟨bytes, modified⟩)).2
  | .check g depth => (db.check g depth).2
  | .listen handler => db.setHandler handler

/-- The database after requests, the first one first. -/
def performAll (bytes : ByteArray) (db : Database) (requests : List Request) : Database :=
  requests.foldl (perform bytes) db

/-- What a session keeps while the content stays the same. -/
structure Steady (db : Database) (bytes : ByteArray) (strict : Bool) : Prop where
  text_eq : db.store.current.buffer.text = .ofBytes bytes
  catalogued : db.Catalogued db.store strict
  current : ∀ g, db.current = some g → g.IsOf (.ofBytes bytes) strict
  quiet : (Text.ofBytes bytes).scanProblems strict = [] →
    db.catalogue.QuietAhead (.ofBytes bytes) strict

variable {db : Database} {bytes : ByteArray} {strict : Bool}

/-! ## Opening -/

/-- What holds before anything was looked at and is kept by cataloguing holds of a database that was
just opened. -/
theorem open_keeps {P : Database → Prop} {origin : Origin} {name : String} {options : Options}
    (h : origin.open name bytes options = .ok db)
    (hunread : ∀ store : Store, store.current.buffer.text = .ofBytes bytes →
      P (unread store options))
    (hindex : ∀ db, P db → P (db.indexTo options.prefetch).2) : P db := by
  obtain ⟨store, hopen, htext⟩ : ∃ store : Store,
      openStore store options = .ok db ∧ store.current.buffer.text = .ofBytes bytes := by
    cases origin with
    | memory => exact ⟨_, h, rfl⟩
    | file modified => exact ⟨_, h, rfl⟩
  rw [openStore_eq] at hopen
  split at hopen <;> cases hopen
  · exact hunread store htext
  · exact hindex _ (hunread store htext)

/-- A database that was just opened is steady. -/
theorem Steady.unread {store : Store} (htext : store.current.buffer.text = .ofBytes bytes)
    (options : Options) : (unread store options).Steady bytes options.strict :=
  ⟨htext, .unread store options, nofun, fun h => h⟩

/-! ## One request -/

/-- Its catalogue is that of its text. -/
theorem Steady.tracks (h : db.Steady bytes strict) :
    db.catalogue.Tracks (.ofBytes bytes) strict :=
  h.text_eq ▸ h.catalogued.tracks

/-- It may get any reporter. -/
theorem Steady.withReporter (h : db.Steady bytes strict) (r : Reporter) :
    { db with reporter := r }.Steady bytes strict :=
  ⟨h.text_eq, ⟨rfl, h.catalogued.strict_eq, h.catalogued.tracks, h.catalogued.size_le⟩, h.current,
    h.quiet⟩

/-- On content without problems every request for games is answered. -/
theorem Steady.indexTo_of_quiet (h : db.Steady bytes strict)
    (hproblems : (Text.ofBytes bytes).scanProblems strict = []) (target : Nat) :
    ∃ c, db.indexTo target = (.ok c.entries.size, { db with catalogue := c }) ∧
      c.QuietAhead (.ofBytes bytes) strict := by
  have hquiet := h.quiet hproblems
  rw [← h.text_eq] at hquiet
  obtain ⟨c, hc, hquiet'⟩ := hquiet.ensure db.buffer target db.reporter
  rw [show db.buffer.text = .ofBytes bytes from h.text_eq] at hquiet'
  refine ⟨c, ?_, hquiet'⟩
  rw [Database.indexTo, h.catalogued.strict_eq, hc]

/-- A request for games leaves the database steady. -/
theorem Steady.indexTo (h : db.Steady bytes strict) {target : Nat}
    (htarget : target ≤ Catalogue.allGames) : (db.indexTo target).2.Steady bytes strict where
  text_eq := h.text_eq
  catalogued := h.catalogued.indexTo htarget
  current := h.current
  quiet := by
    intro hproblems
    obtain ⟨c, hc, hquiet⟩ := h.indexTo_of_quiet hproblems target
    rw [hc]
    exact hquiet

/-- A look at the file finds the same content, under a new modification time or the old. -/
theorem Steady.refresh (h : db.Steady bytes strict) (modified : Nat) :
    ∃ store, db.refresh (.ok ⟨bytes, modified⟩) = (.ok (), { db with store }) ∧
      { db with store }.Steady bytes strict := by
  -- The file has not changed its content, so whatever is read anew is the same text.
  have hsame (store : Store) (htext : store.current.buffer.text = .ofBytes bytes) :
      { db with store }.Steady bytes strict :=
    ⟨htext, ⟨rfl, h.catalogued.strict_eq, htext ▸ h.tracks, h.catalogued.size_le⟩, h.current,
      h.quiet⟩
  have hgrew (snapshot : Snapshot) (htext : snapshot.buffer.text = .ofBytes bytes) :
      ¬ db.store.current.size < snapshot.size := by
    rw [Snapshot.size, Snapshot.size, htext, h.text_eq]
    exact Nat.lt_irrefl _
  unfold Database.refresh Store.refresh
  -- A text in memory is not read again, nor a file with the time it had.
  by_cases hfile : db.store.inFile = true
  · rw [if_pos hfile]
    by_cases hmodified : db.store.current.modified = some modified
    · refine ⟨db.store, ?_, hsame db.store h.text_eq⟩
      simp [hmodified]
    · have htext : (Snapshot.ofFile (db.store.current.buffer.key + 1)
          ⟨bytes, modified⟩).buffer.text = .ofBytes bytes := rfl
      refine ⟨{ db.store with
        current := .ofFile (db.store.current.buffer.key + 1) ⟨bytes, modified⟩ }, ?_, hsame _ htext⟩
      simp [hmodified, hgrew _ htext]
  · rw [if_neg hfile]
    refine ⟨db.store, ?_, hsame db.store h.text_eq⟩
    simp

/-! ## Reading -/

/-- The place of a game of this very content is good. -/
theorem stale?_eq_none {t : Text} {entry : Entry} (hentry : entry.IsOf t strict) (n : Nat) :
    stale? t n entry = none := by
  obtain ⟨next, hlies⟩ := hentry.lies
  have htags := hlies.tags_le
  have hmovetext := hlies.movetext_le
  have hstop := hlies.stop_le
  have hnext := hlies.next_le
  rw [stale?, if_neg (by omega), if_neg (by rw [hlies.checksum_eq]; simp)]

/-- So while the content stays no place is ever out of date. -/
theorem Steady.entry_good (h : db.Steady bytes strict) {n : Nat} {entry : Entry}
    (hentry : db.catalogue.entry? n = some entry) :
    ∃ i, n = i + 1 ∧ ((Text.ofBytes bytes).games strict)[i]? = some entry ∧
      stale? db.buffer.text n entry = none := by
  obtain ⟨i, hi, hget⟩ := h.tracks.getElem?_games hentry
  have hgood := stale?_eq_none (.of_mem_games (List.mem_of_getElem? hget)) n
  rw [← h.text_eq] at hgood
  exact ⟨i, hi, hget, hgood⟩

/-- A game is handed out again if it is the one read last, from the same place. -/
theorem reusable?_eq_some {n : Nat} {entry : Entry} {g : Game}
    (hreuse : db.reusable? n entry = some g) :
    db.current = some g ∧ g.number = n ∧ g.entry = entry := by
  obtain ⟨hcurrent, hsame⟩ := Option.filter_eq_some_iff.1 hreuse
  simp only [Bool.and_eq_true, beq_iff_eq] at hsame
  exact ⟨hcurrent, hsame.1⟩

/-- A database may arrive at any game of its text. -/
theorem Steady.arriveAt (h : db.Steady bytes strict) {g : Game}
    (hg : g.IsOf (.ofBytes bytes) strict) : (db.arriveAt g).Steady bytes strict :=
  ⟨h.text_eq, ⟨rfl, h.catalogued.strict_eq, h.catalogued.tracks, h.catalogued.size_le⟩,
    fun _ hcurrent => Option.some.inj hcurrent ▸ hg, h.quiet⟩

/-- What a read leaves and what it hands out. -/
structure Reads (bytes : ByteArray) (strict : Bool) (n : Nat) (answer : Option Reading)
    (after : Database) : Prop where
  steady : after.Steady bytes strict
  isOf : ∀ reading, answer = some reading →
    reading.game.IsOf (.ofBytes bytes) strict ∧ reading.game.number = n

/-- Reading at the place of a game reads that game. -/
theorem Steady.readAt (h : db.Steady bytes strict) {i : Nat} {entry : Entry}
    (hentry : ((Text.ofBytes bytes).games strict)[i]? = some entry) :
    Reads bytes strict (i + 1) (db.readAt (i + 1) entry).1.toOption
      (db.readAt (i + 1) entry).2 := by
  unfold Database.readAt
  split
  · -- The cached game is handed out once more.
    next g hreuse =>
    obtain ⟨hcurrent, hnumber, -⟩ := reusable?_eq_some hreuse
    refine ⟨h.arriveAt (h.current g hcurrent), ?_⟩
    intro reading hreading
    cases hreading
    exact ⟨h.current g hcurrent, hnumber⟩
  · -- Otherwise the entry of this text is read.
    have hbuffer : db.buffer = ⟨db.buffer.key, .ofBytes bytes⟩ :=
      congrArg (Buffer.mk db.buffer.key) h.text_eq
    have hisOf : (Game.read db.buffer db.options.strict (i + 1) entry).IsOf (.ofBytes bytes)
        strict := by
      rw [h.catalogued.strict_eq, hbuffer]
      exact ⟨_, i, entry, hentry, rfl⟩
    simp only
    split
    · refine ⟨h.withReporter _, ?_⟩
      intro reading hreading
      cases hreading
    · refine ⟨(h.withReporter _).arriveAt hisOf, ?_⟩
      intro reading hreading
      cases hreading
      exact ⟨hisOf, rfl⟩

/-- Reading a game by its number reads that game. -/
theorem Steady.readGame (h : db.Steady bytes strict) {n : Nat} (hn : n ≤ Catalogue.allGames)
    (modified : Nat) :
    Reads bytes strict n (db.readGame (.ok ⟨bytes, modified⟩) n).1.toOption.join
      (db.readGame (.ok ⟨bytes, modified⟩) n).2 := by
  obtain ⟨store, hrefresh, hsteady⟩ := h.refresh modified
  unfold Database.readGame
  split
  · exact ⟨h, nofun⟩
  · rw [hrefresh]
    simp only
    -- Each step of the read that fails leaves the database in a steady state.
    have hindexed := hsteady.indexTo hn
    generalize Database.indexTo _ n = result at hindexed ⊢
    obtain ⟨answer, db'⟩ := result
    cases answer with
    | error failure => exact ⟨hindexed, nofun⟩
    | ok count =>
      simp only
      split
      · exact ⟨hindexed, nofun⟩
      · split
        · exact ⟨hindexed, nofun⟩
        · next entry hentry =>
          obtain ⟨i, rfl, hget, hgood⟩ := hindexed.entry_good hentry
          have hreads := hindexed.readAt hget
          simp only [hgood]
          generalize db'.readAt (i + 1) entry = result at hreads ⊢
          obtain ⟨answer, after⟩ := result
          cases answer with
          | error failure => exact ⟨hreads.steady, nofun⟩
          | ok reading => exact ⟨hreads.steady, fun _ hreading => hreads.isOf _ hreading⟩

/-! ## Whole sessions -/

/-- Counting the games leaves the database steady. -/
theorem Steady.gameCount (h : db.Steady bytes strict) (modified : Nat) :
    (db.gameCount (.ok ⟨bytes, modified⟩)).2.Steady bytes strict := by
  obtain ⟨store, hrefresh, hsteady⟩ := h.refresh modified
  rw [Database.gameCount, hrefresh]
  exact hsteady.indexTo (Nat.le_refl _)

/-- Every request leaves the database steady. -/
theorem Steady.perform (h : db.Steady bytes strict) (request : Request) :
    (db.perform bytes request).Steady bytes strict := by
  cases request with
  | index target => exact h.indexTo (toNat_le_allGames target)
  | count modified => exact h.gameCount modified
  | read n modified => exact (h.readGame (toNat_le_allGames n) modified).steady
  | next modified => exact (h.readGame (Nat.min_le_right ..) modified).steady
  | check g depth => exact h.withReporter _
  | listen handler => exact h.withReporter _

/-- So do any number of them. -/
theorem Steady.performAll (h : db.Steady bytes strict) (requests : List Request) :
    (db.performAll bytes requests).Steady bytes strict := by
  induction requests generalizing db with
  | nil => exact h
  | cons request requests ih => exact ih (h.perform request)

/-- A database of any content can be opened, and what a session keeps holds at once. -/
theorem open_steady (origin : Origin) (name : String) (bytes : ByteArray) (strict : Bool)
    (prefetch : UInt32) :
    ∃ db, origin.open name bytes ⟨strict, prefetch.toNat⟩ = .ok db ∧ db.Steady bytes strict := by
  obtain ⟨store, hopen, htext⟩ : ∃ store : Store,
      origin.open name bytes ⟨strict, prefetch.toNat⟩ =
        openStore store ⟨strict, prefetch.toNat⟩ ∧ store.current.buffer.text = .ofBytes bytes := by
    cases origin with
    | memory => exact ⟨_, rfl, rfl⟩
    | file modified => exact ⟨_, rfl, rfl⟩
  rw [hopen, openStore_eq]
  have hunread := Steady.unread htext ⟨strict, prefetch.toNat⟩
  split
  · exact ⟨_, rfl, hunread⟩
  · exact ⟨_, rfl, hunread.indexTo (toNat_le_allGames prefetch)⟩

/-- On content without problems a request for all games finds them, whoever listens, as far as a
request can ask. -/
theorem Steady.indexTo_allGames (h : db.Steady bytes strict)
    (hproblems : (Text.ofBytes bytes).scanProblems strict = []) :
    (db.indexTo Catalogue.allGames).1 =
        .ok (min ((Text.ofBytes bytes).games strict).length Catalogue.allGames) ∧
      (db.indexTo Catalogue.allGames).2.entries =
        ((Text.ofBytes bytes).games strict).take Catalogue.allGames := by
  obtain ⟨c, hindex, -⟩ := h.indexTo_of_quiet hproblems Catalogue.allGames
  have hsteady := h.indexTo (Nat.le_refl Catalogue.allGames)
  have hcount := ((h.catalogued.ensured Catalogue.allGames).of_ok c.entries.size
    (by rw [hindex])).2
  have hold := h.catalogued.size_le
  have hlen := h.tracks.size_le
  rw [h.text_eq] at hcount
  rw [hindex] at hsteady ⊢
  -- Either all games are catalogued, or as many as can be numbered.
  have hsize : c.entries.size =
      min ((Text.ofBytes bytes).games strict).length Catalogue.allGames := by omega
  refine ⟨congrArg Except.ok hsize, ?_⟩
  have hentries : c.entries.toList =
      ((Text.ofBytes bytes).games strict).take c.entries.size := hsteady.tracks.entries_eq
  rw [entries, hentries]
  exact List.take_eq_take_iff.2 (by omega)

/-- Whoever listens, content without problems is counted in full. -/
theorem Steady.gameCount_of_quiet (h : db.Steady bytes strict)
    (hproblems : (Text.ofBytes bytes).scanProblems strict = []) (modified : Nat) :
    (db.gameCount (.ok ⟨bytes, modified⟩)).1 =
        .ok (min ((Text.ofBytes bytes).games strict).length Catalogue.allGames) ∧
      (db.gameCount (.ok ⟨bytes, modified⟩)).2.entries =
        ((Text.ofBytes bytes).games strict).take Catalogue.allGames := by
  obtain ⟨store, hrefresh, hsteady⟩ := h.refresh modified
  rw [Database.gameCount, hrefresh]
  exact hsteady.indexTo_allGames hproblems

end Database

end Scorebook
