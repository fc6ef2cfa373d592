import Scorebook.Proofs.Catalogue.Reopening
import Scorebook.Proofs.Database.Reads
import Scorebook.Proofs.Database.Sessions

/-!
# Files that grow

A database notices that its file has grown when it looks at it for a new number of games. A complete
catalogue forgets its last game then; one that is not complete is taken as it is. That is right only
if its last game was followed by another one in the file as it was. An open catalogue can also hold
a game that ran up to the old end, when that game was the last one asked for, and whatever was added
to such a game is lost. So a count of the longer file is compared with a count from the beginning
under what it takes for the two to agree, and the game that loses its ending is given as an example.
-/

namespace Scorebook.Database

/-! ## What holds of a database while its file stays -/

/-- The database is that of a file with these bytes, and its catalogue was made of them. -/
structure Filed (db : Database) (bytes : ByteArray) (strict : Bool) : Prop where
  steady : db.Steady bytes strict
  inFile : db.store.inFile = true
  reached : db.catalogue.Reached (.ofBytes bytes) strict

variable {db : Database} {bytes : ByteArray} {strict : Bool}

/-- A store that is kept in a file is kept there when it is refreshed. -/
theorem inFile_refresh (db : Database) (disk : Disk) :
    (db.refresh disk).2.store.inFile = db.store.inFile := by
  unfold Database.refresh Store.refresh
  by_cases hfile : db.store.inFile = true
  · rw [if_pos hfile]
    cases disk with
    | error reason => rfl
    | ok file =>
      by_cases hmodified : db.store.current.modified = some file.modified
      · simp only [if_pos hmodified]
      · simp only [if_neg hmodified]
  · rw [if_neg hfile]

/-- What leaves the store and the catalogue alone leaves the database filed. -/
theorem Filed.of_frame {db' : Database} (h : db.Filed bytes strict)
    (hsteady : db'.Steady bytes strict) (hstore : db'.store = db.store)
    (hcatalogue : db'.catalogue = db.catalogue) : db'.Filed bytes strict :=
  ⟨hsteady, hstore ▸ h.inFile, hcatalogue ▸ h.reached⟩

/-- A request for games leaves the database filed. -/
theorem Filed.indexTo (h : db.Filed bytes strict) {target : Nat}
    (htarget : target ≤ Catalogue.allGames) : (db.indexTo target).2.Filed bytes strict where
  steady := h.steady.indexTo htarget
  inFile := h.inFile
  reached := by
    have hbuffer : db.buffer = ⟨db.buffer.key, .ofBytes bytes⟩ :=
      congrArg (Buffer.mk db.buffer.key) h.steady.text_eq
    show (db.catalogue.ensure db.options.strict db.buffer target db.reporter).2.1.Reached _ _
    rw [hbuffer, h.steady.catalogued.strict_eq]
    exact h.reached.ensure _ htarget _

/-- A look at the unchanged file leaves the database filed. -/
theorem Filed.refresh (h : db.Filed bytes strict) (modified : Nat) :
    ∃ store, db.refresh (.ok ⟨bytes, modified⟩) = (.ok (), { db with store }) ∧
      { db with store }.Filed bytes strict := by
  obtain ⟨store, hrefresh, hsteady⟩ := h.steady.refresh modified
  have hfile := inFile_refresh db (.ok ⟨bytes, modified⟩)
  rw [hrefresh] at hfile
  exact ⟨store, hrefresh, hsteady, hfile.trans h.inFile, h.reached⟩

/-- Reading at the place of a game leaves the database filed. -/
theorem Filed.readAt (h : db.Filed bytes strict) {i : Nat} {entry : Entry}
    (hentry : ((Text.ofBytes bytes).games strict)[i]? = some entry) :
    (db.readAt (i + 1) entry).2.Filed bytes strict := by
  have hsteady := (h.steady.readAt hentry).steady
  obtain ⟨_, _, _, hafter⟩ := db.readAt_frame (i + 1) entry
  rw [hafter] at hsteady ⊢
  exact h.of_frame hsteady rfl rfl

/-- Reading a game leaves the database filed. -/
theorem Filed.readGame (h : db.Filed bytes strict) {n : Nat} (hn : n ≤ Catalogue.allGames)
    (modified : Nat) : (db.readGame (.ok ⟨bytes, modified⟩) n).2.Filed bytes strict := by
  obtain ⟨store, hrefresh, hfiled⟩ := h.refresh modified
  refine readGame_keeps (P := (Filed · bytes strict)) h
    (by rw [hrefresh]; exact hfiled) (fun _ h => h.indexTo hn) ?_ ?_
  · intro db entry problem h hentry hstale
    obtain ⟨_, -, -, hgood⟩ := h.steady.entry_good hentry
    rw [hgood] at hstale
    cases hstale
  · intro db entry h hentry _
    obtain ⟨i, rfl, hget, -⟩ := h.steady.entry_good hentry
    exact h.readAt hget

/-- Counting the games leaves the database filed. -/
theorem Filed.gameCount (h : db.Filed bytes strict) (modified : Nat) :
    (db.gameCount (.ok ⟨bytes, modified⟩)).2.Filed bytes strict := by
  obtain ⟨store, hrefresh, hfiled⟩ := h.refresh modified
  rw [Database.gameCount, hrefresh]
  exact hfiled.indexTo (Nat.le_refl _)

/-- Every request for the unchanged file leaves the database filed. -/
theorem Filed.perform (h : db.Filed bytes strict) (request : Request) :
    (db.perform bytes request).Filed bytes strict := by
  cases request with
  | index target => exact h.indexTo (toNat_le_allGames target)
  | count modified => exact h.gameCount modified
  | read n modified => exact h.readGame (toNat_le_allGames n) modified
  | next modified => exact h.readGame (Nat.min_le_right ..) modified
  | check g depth => exact h.of_frame (h.steady.withReporter _) rfl rfl
  | listen handler => exact h.of_frame (h.steady.withReporter _) rfl rfl

/-- So do any number of them. -/
theorem Filed.performAll (h : db.Filed bytes strict) (requests : List Request) :
    (db.performAll bytes requests).Filed bytes strict := by
  induction requests generalizing db with
  | nil => exact h
  | cons request requests ih => exact ih (h.perform request)

/-- A database file opens with nobody listening, and what holds while it stays holds at once. -/
theorem ofFile_filed (name : String) (file : FileState) (strict : Bool) (prefetch : UInt32) :
    ∃ db, ofFile name (.ok file) ⟨strict, prefetch.toNat⟩ = .ok db ∧ db.Filed file.bytes strict ∧
      db.reporter.handler = none := by
  have hunread : (unread (.ofFile name file) ⟨strict, prefetch.toNat⟩).Filed file.bytes strict :=
    ⟨.unread rfl _, rfl, .empty⟩
  show ∃ db, openStore _ _ = .ok db ∧ _
  rw [openStore_eq]
  split
  · exact ⟨_, rfl, hunread, rfl⟩
  · obtain ⟨c, hindex⟩ := indexTo_of_handler_none
      (unread (.ofFile name file) ⟨strict, prefetch.toNat⟩) rfl prefetch.toNat
    refine ⟨_, rfl, hunread.indexTo (toNat_le_allGames prefetch), ?_⟩
    rw [hindex]
    rfl

/-- A count to which nobody listens leaves all games of the file. -/
theorem Filed.entries_gameCount (h : db.Filed bytes strict) (hquiet : db.reporter.handler = none)
    (modified : Nat) :
    (db.gameCount (.ok ⟨bytes, modified⟩)).2.entries = (Text.ofBytes bytes).index strict := by
  obtain ⟨store, hrefresh, hfiled⟩ := h.refresh modified
  rw [Database.gameCount, hrefresh]
  simp only
  rw [(hfiled.steady.catalogued.indexTo_allGames hquiet).2, hfiled.steady.text_eq, Text.index_eq]

/-! ## When the file has grown -/

variable {a x : ByteArray} {modified : Nat}

/-- A look at the file finds more bytes, and opens a catalogue that was complete. -/
theorem Filed.refresh_of_growth (h : db.Filed a strict) (hx : 0 < x.size)
    (hmodified : db.store.current.modified ≠ some modified) :
    db.refresh (.ok ⟨a ++ x, modified⟩) =
      (.ok (), { db with
        store := { db.store with
          current := .ofFile (db.store.current.buffer.key + 1) ⟨a ++ x, modified⟩ }
        catalogue := db.catalogue.reopen }) := by
  have hgrew : db.buffer.text.size < (a ++ x).size := by
    rw [Database.buffer, h.steady.text_eq, Text.size_ofBytes, ByteArray.size_append]
    omega
  rw [refresh_of_modified h.inFile hmodified, if_pos hgrew]

/-- A file that has grown is counted, and no game that was catalogued is lost or changed. If the
open catalogue tracks the longer text, the count leaves all games of that. -/
theorem Filed.gameCount_of_growth (h : db.Filed a strict) (hopen : db.catalogue.complete = false)
    (hx : 0 < x.size) (hmodified : db.store.current.modified ≠ some modified)
    (hquiet : db.reporter.handler = none) :
    (db.gameCount (.ok ⟨a ++ x, modified⟩)).1 =
        .ok (db.gameCount (.ok ⟨a ++ x, modified⟩)).2.entries.length ∧
      db.entries <+: (db.gameCount (.ok ⟨a ++ x, modified⟩)).2.entries ∧
      (db.catalogue.Tracks (.ofBytes (a ++ x)) strict →
        (db.gameCount (.ok ⟨a ++ x, modified⟩)).2.entries =
          (Text.ofBytes (a ++ x)).index strict) := by
  -- The catalogue was not complete, so growth gives it no reason to go back.
  have hreopen : db.catalogue.reopen = db.catalogue := by
    rw [Catalogue.reopen, hopen, if_neg (by decide)]
  rw [Database.gameCount, h.refresh_of_growth hx hmodified, hreopen]
  simp only
  generalize hstore : { db.store with
    current := .ofFile (db.store.current.buffer.key + 1) ⟨a ++ x, modified⟩ } = store
  have htext : store.current.buffer.text = .ofBytes (a ++ x) := by
    rw [← hstore]
    rfl
  -- Nobody listens, so nothing stops the scan.
  obtain ⟨c, hindex⟩ := indexTo_of_handler_none { db with store } hquiet Catalogue.allGames
  refine ⟨?_, ?_, ?_⟩
  · rw [hindex, entries, Array.length_toList]
  · exact Catalogue.isPrefix_ensure db.catalogue db.options.strict store.current.buffer _
      db.reporter
  · intro htracks
    have hcatalogued : { db with store }.Catalogued store strict :=
      ⟨rfl, h.steady.catalogued.strict_eq, htext ▸ htracks, h.reached.size_le⟩
    rw [(hcatalogued.indexTo_allGames hquiet).2, htext, Text.index_eq]

/-- Counting the games of a file that has grown since an open catalogue was made of it. The count
succeeds and keeps every game as it was catalogued. It leaves what counting the file afresh would,
if there is nothing wrong with the headers catalogued so far and the last game catalogued was
followed by another one. -/
theorem count_after_growth (name : String) (a x : ByteArray) (modified modified' : Nat)
    (strict : Bool) (prefetch : UInt32) (hx : 0 < x.size) :
    ∃ opened fresh,
      ofFile name (.ok ⟨a, modified⟩) ⟨strict, prefetch.toNat⟩ = .ok opened ∧
      ofFile name (.ok ⟨a ++ x, modified'⟩) ⟨strict, prefetch.toNat⟩ = .ok fresh ∧
      ∀ (requests : List Request) (db : Database), opened.performAll a requests = db →
        db.catalogue.complete = false → db.reporter.handler = none →
        db.store.current.modified ≠ some modified' →
        (db.gameCount (.ok ⟨a ++ x, modified'⟩)).1 =
            .ok (db.gameCount (.ok ⟨a ++ x, modified'⟩)).2.entries.length ∧
          db.entries <+: (db.gameCount (.ok ⟨a ++ x, modified'⟩)).2.entries ∧
          ((∀ e ∈ db.entries, e.verdict = .valid) →
            (db.entries = [] ∨ db.catalogue.resume < a.size) →
            (db.gameCount (.ok ⟨a ++ x, modified'⟩)).2.entries =
              (fresh.gameCount (.ok ⟨a ++ x, modified'⟩)).2.entries) := by
  obtain ⟨opened, hopened, hfiled, -⟩ := ofFile_filed name ⟨a, modified⟩ strict prefetch
  obtain ⟨fresh, hfresh, hfreshly, hunheard⟩ :=
    ofFile_filed name ⟨a ++ x, modified'⟩ strict prefetch
  refine ⟨opened, fresh, hopened, hfresh, ?_⟩
  rintro requests db rfl hopen hquiet hmodified
  have hnow := hfiled.performAll requests
  obtain ⟨hanswer, hkept, hall⟩ := hnow.gameCount_of_growth hopen hx hmodified hquiet
  refine ⟨hanswer, hkept, ?_⟩
  -- The entries are valid and the scan goes on in front of the old end, where both texts agree.
  intro hvalid hresume
  rw [hfreshly.entries_gameCount hunheard]
  exact hall (hnow.reached.tracks_of_open hopen hvalid hresume (Text.agreeBelow_append a x))

/-- Two games, `[A "b"]` with `e4 *` and `[C "d"]` with `e5`. -/
def pair : ByteArray :=
  ⟨#[0x5b, 0x41, 0x20, 0x22, 0x62, 0x22, 0x5d, 0x0a, 0x65, 0x34, 0x20, 0x2a, 0x0a, 0x5b, 0x43,
    0x20, 0x22, 0x64, 0x22, 0x5d, 0x0a, 0x65, 0x35]⟩

/-- One game, `[A "b"]` with `e4`. -/
def single : ByteArray :=
  ⟨#[0x5b, 0x41, 0x20, 0x22, 0x62, 0x22, 0x5d, 0x0a, 0x65, 0x34]⟩

/-- The end of a game, ` e5 *`. -/
def ending : ByteArray :=
  ⟨#[0x20, 0x65, 0x35, 0x20, 0x2a, 0x0a]⟩

/-- With the first of two games catalogued, what is added to the second is found. -/
theorem count_after_growth_of_pair :
    ∃ opened fresh,
      ofFile "db.pgn" (.ok ⟨pair, 1⟩) ⟨false, 0⟩ = .ok opened ∧
      ofFile "db.pgn" (.ok ⟨pair ++ ending, 2⟩) ⟨false, 0⟩ = .ok fresh ∧
      ((opened.performAll pair [.index 1]).gameCount (.ok ⟨pair ++ ending, 2⟩)).2.entries =
        (fresh.gameCount (.ok ⟨pair ++ ending, 2⟩)).2.entries := by
  obtain ⟨opened, fresh, hopened, hfresh, hcount⟩ :=
    count_after_growth "db.pgn" pair ending 1 2 false 0 (by decide)
  refine ⟨opened, fresh, hopened, hfresh, ?_⟩
  obtain rfl : unread (.ofFile "db.pgn" ⟨pair, 1⟩) ⟨false, 0⟩ = opened := Except.ok.inj hopened
  have hquiet : ((unread (.ofFile "db.pgn" ⟨pair, 1⟩) ⟨false, 0⟩).performAll pair
      [.index 1]).reporter.handler = none := by
    obtain ⟨c, hindex⟩ := indexTo_of_handler_none
      (unread (.ofFile "db.pgn" ⟨pair, 1⟩) ⟨false, 0⟩) rfl 1
    exact congrArg (·.2.reporter.handler) hindex
  exact (hcount [.index 1] _ rfl (by decide +kernel) hquiet (by decide +kernel)).2.2
    (by decide +kernel) (.inr (by decide +kernel))

/-- With the only game catalogued, what is added to it is lost: it ends where the file did, and not
where it ends now. -/
theorem count_after_growth_of_single :
    ∃ opened fresh,
      ofFile "db.pgn" (.ok ⟨single, 1⟩) ⟨false, 0⟩ = .ok opened ∧
      ofFile "db.pgn" (.ok ⟨single ++ ending, 2⟩) ⟨false, 0⟩ = .ok fresh ∧
      (opened.performAll single [.index 1]).catalogue.complete = false ∧
      ((opened.performAll single [.index 1]).gameCount
        (.ok ⟨single ++ ending, 2⟩)).2.entries.map Entry.movetext = [⟨8, 10⟩] ∧
      (fresh.gameCount (.ok ⟨single ++ ending, 2⟩)).2.entries.map Entry.movetext = [⟨8, 15⟩] := by
  refine ⟨unread (.ofFile "db.pgn" ⟨single, 1⟩) ⟨false, 0⟩,
    unread (.ofFile "db.pgn" ⟨single ++ ending, 2⟩) ⟨false, 0⟩, rfl, rfl, ?_, ?_, ?_⟩
  · decide +kernel
  · decide +kernel
  · decide +kernel

end Scorebook.Database
