import Scorebook.Proofs.Catalogue.Order
import Scorebook.Proofs.Database.Cataloguing
import Scorebook.Proofs.Database.Reads

/-!
# Databases whose file changes

While a database is worked with, its file may be replaced by any other, shrink, grow or vanish. An
`Event` is a request together with what is on disk when it is made, so a sequence of events is any
use of a database under any history of its file. What the catalogue holds may then be about a file
that is long gone. That it is in order does not depend on the file: this is shown for the state
behind every sequence of events, with whichever handlers, and however the requests ended.
-/

namespace Scorebook.Database

/-- A request to a database, with what it finds on disk if it looks. -/
inductive Event
  | index (target : UInt32)
  | count (disk : Disk)
  | read (n : UInt32) (disk : Disk)
  | next (disk : Disk)
  | check (g : Game) (depth : Depth)
  | listen (handler : Option Handler)

/-- The database after an event. -/
def undergo (db : Database) : Event → Database
  | .index target => (db.indexTo target.toNat).2
  | .count disk => (db.gameCount disk).2
  | .read n disk => (db.readGame disk n.toNat).2
  | .next disk => (db.readNext disk).2
  | .check g depth => (db.check g depth).2
  | .listen handler => db.setHandler handler

/-- The database after events, the first one first. -/
def undergoAll (db : Database) (events : List Event) : Database :=
  events.foldl undergo db

/-- An event keeps what its parts keep: a look at the file, a request for games, the rejection of an
entry that is out of date, reading at a good place, and whatever is told to the reporter. -/
theorem undergo_keeps {P : Database → Prop} {db : Database} (event : Event) (h : P db)
    (hrefresh : ∀ disk, P (db.refresh disk).2)
    (hindex : ∀ db target, target ≤ Catalogue.allGames → P db → P (db.indexTo target).2)
    (hreject : ∀ db n problem, P db → P (db.reject n problem).2)
    (hread : ∀ db n entry, P db → db.catalogue.entry? n = some entry →
      stale? db.buffer.text n entry = none → P (db.readAt n entry).2)
    (hreporter : ∀ reporter, P { db with reporter }) : P (db.undergo event) := by
  have hreadGame {n : Nat} (hn : n ≤ Catalogue.allGames) (disk : Disk) :
      P (db.readGame disk n).2 :=
    readGame_keeps h (hrefresh disk) (fun db h => hindex db n hn h)
      (fun db _ problem h _ _ => hreject db n problem h) fun db entry => hread db n entry
  cases event with
  | index target => exact hindex db _ (toNat_le_allGames target) h
  | count disk => exact gameCount_keeps (hrefresh disk) fun db => hindex db _ (Nat.le_refl _)
  | read n disk => exact hreadGame (toNat_le_allGames n) disk
  | next disk => exact hreadGame (Nat.min_le_right ..) disk
  | check g depth => exact hreporter _
  | listen handler => exact hreporter _

/-- The catalogue is in order, and holds no more games than can be asked for. -/
structure InOrder (db : Database) : Prop where
  ordered : db.catalogue.Ordered
  size_le : db.catalogue.entries.size ≤ Catalogue.allGames

variable {db : Database}

/-- Order is a matter of the catalogue alone. -/
theorem InOrder.of_catalogue_eq {db' : Database} (h : db.InOrder)
    (heq : db'.catalogue = db.catalogue) : db'.InOrder :=
  ⟨heq ▸ h.ordered, heq ▸ h.size_le⟩

/-- A request for games keeps the catalogue in order. -/
theorem InOrder.indexTo (h : db.InOrder) {target : Nat} (htarget : target ≤ Catalogue.allGames) :
    (db.indexTo target).2.InOrder := by
  refine ⟨h.ordered.ensure db.options.strict db.buffer target db.reporter, ?_⟩
  have hsize := Catalogue.size_ensure_le db.catalogue db.options.strict db.buffer target
    db.reporter
  have hold := h.size_le
  exact Nat.le_trans hsize (by omega)

/-- Noticing a change of the file keeps the catalogue in order. -/
theorem InOrder.refresh (h : db.InOrder) (disk : Disk) : (db.refresh disk).2.InOrder := by
  unfold Database.refresh
  split
  · exact h
  · simp only
    split
    · exact ⟨h.ordered.reopen, Nat.le_trans (Catalogue.size_reopen_le _) h.size_le⟩
    · exact ⟨h.ordered, h.size_le⟩

/-- Giving up on a game keeps the catalogue in order. -/
theorem InOrder.reject (h : db.InOrder) (n : Nat) (problem : Problem) :
    (db.reject n problem).2.InOrder :=
  ⟨h.ordered.invalidateFrom n, Nat.le_trans (Catalogue.size_invalidateFrom_le _ n) h.size_le⟩

/-- Reading at a place does not touch the catalogue. -/
theorem InOrder.readAt (h : db.InOrder) (n : Nat) (entry : Entry) :
    (db.readAt n entry).2.InOrder := by
  unfold Database.readAt
  split
  · exact h.of_catalogue_eq rfl
  · simp only
    split
    · exact h.of_catalogue_eq rfl
    · exact h.of_catalogue_eq rfl

/-- Whatever happens to a database keeps its catalogue in order. -/
theorem InOrder.undergo (h : db.InOrder) (event : Event) : (db.undergo event).InOrder :=
  undergo_keeps event h h.refresh (fun _ _ htarget h => h.indexTo htarget)
    (fun _ n problem h => h.reject n problem) (fun _ n entry h _ _ => h.readAt n entry)
    fun _ => h.of_catalogue_eq rfl

/-- So does any sequence of events. -/
theorem InOrder.undergoAll (h : db.InOrder) (events : List Event) :
    (db.undergoAll events).InOrder := by
  induction events generalizing db with
  | nil => exact h
  | cons event events ih => exact ih (h.undergo event)

/-- An empty catalogue is in order. -/
theorem InOrder.unread (store : Store) (options : Options) : (unread store options).InOrder :=
  ⟨.empty, Nat.zero_le _⟩

/-- A database is opened with its catalogue in order. -/
theorem openStore_inOrder (store : Store) (strict : Bool) (prefetch : UInt32) :
    ∃ db, openStore store ⟨strict, prefetch.toNat⟩ = .ok db ∧ db.InOrder := by
  rw [openStore_eq]
  have hunread := InOrder.unread store ⟨strict, prefetch.toNat⟩
  split
  · exact ⟨_, rfl, hunread⟩
  · exact ⟨_, rfl, hunread.indexTo (toNat_le_allGames prefetch)⟩

/-- Whatever happens to the file of a database, its catalogue stays in order: the entries are
numbered from one, header and movetext of each lie behind each other, no game reaches into the
next, and all of them end in front of the place where scanning goes on, be that inside the file as
it is now or behind its end. -/
theorem ordered_through_changes (store : Store) (strict : Bool) (prefetch : UInt32) :
    ∃ db, openStore store ⟨strict, prefetch.toNat⟩ = .ok db ∧
      ∀ events : List Event, (db.undergoAll events).catalogue.Ordered ∧
        (db.undergoAll events).catalogue.entries.size ≤ Catalogue.allGames := by
  obtain ⟨db, hopen, hdb⟩ := openStore_inOrder store strict prefetch
  refine ⟨db, hopen, ?_⟩
  intro events
  exact ⟨(hdb.undergoAll events).ordered, (hdb.undergoAll events).size_le⟩

end Scorebook.Database
