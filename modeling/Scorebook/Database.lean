import Scorebook.Game
import Scorebook.Store

/-!
# Databases

A `Database` gives access to the games of one file or of one text in memory. It holds the store of
the bytes, the catalogue as far as it was needed, the reporter, the number of the game read last and
that game itself, which is handed out again when it is asked for again.

Operations that may notice a change of the file are given what is on disk at that moment. A game
whose catalogued place no longer fits is not read: the catalogue is cut back to in front of it, and
the next read finds the place anew. A read that fails, or finds no game, leaves the reading
position where it was.
-/

namespace Scorebook

/-- How a database is read. -/
structure Options where
  /-- Report tabs in tag values and text behind a termination marker as well. -/
  strict : Bool
  /-- How many games to catalogue when the database is opened. -/
  prefetch : Nat
deriving Repr

/-- A database that has been opened. -/
structure Database where
  options : Options
  store : Store
  catalogue : Catalogue
  reporter : Reporter
  /-- The number of the game read last, or zero. -/
  cursor : Nat
  /-- The game read last. -/
  current : Option Game

/-- A game handed out by a read. -/
structure Reading where
  game : Game
  /-- Is it the very game that the read before handed out? -/
  again : Bool

namespace Database

/-- The bytes the database looks at. -/
def buffer (db : Database) : Buffer :=
  db.store.current.buffer

/-! ## Cataloguing -/

/-- Catalogues at least `target` games, or all there are, and answers how many are catalogued. -/
def indexTo (db : Database) (target : Nat) : Except Failure Nat × Database :=
  let (answer, catalogue, reporter) :=
    db.catalogue.ensure db.options.strict db.buffer target db.reporter
  (answer, { db with catalogue, reporter })

/-- Opens a database: looks at nothing but the games to prefetch. -/
def openStore (store : Store) (options : Options) : Except Failure Database :=
  let db : Database := ⟨options, store, .empty, .empty, 0, none⟩
  if options.prefetch = 0 then .ok db
  else
    match db.indexTo options.prefetch with
    | (.ok _, db) => .ok db
    | (.error failure, _) => .error failure

/-- Opens a database held in memory. -/
def ofBytes (name : String) (bytes : ByteArray) (options : Options) : Except Failure Database :=
  openStore (.ofBytes name bytes) options

/-- Opens a database file. -/
def ofFile (name : String) (disk : Disk) (options : Options) : Except Failure Database :=
  match disk with
  | .error reason => .error (.io reason)
  | .ok file => openStore (.ofFile name file) options

/-- Installs or removes the handler. -/
def setHandler (db : Database) (handler : Option Handler) : Database :=
  { db with reporter := db.reporter.setHandler handler }

/-- Notices a change of the file. If it grew, the catalogue is open again behind its last game. -/
def refresh (db : Database) (disk : Disk) : Except Failure Unit × Database :=
  match db.store.refresh disk with
  | .error reason => (.error (.io reason), db)
  | .ok store =>
    -- A file that shrank or changed in place keeps its catalogue; reading finds what went stale.
    let grew := db.store.current.size < store.current.size
    (.ok (), { db with store, catalogue := if grew then db.catalogue.reopen else db.catalogue })

/-- The number of games. -/
def gameCount (db : Database) (disk : Disk) : Except Failure Nat × Database :=
  match db.refresh disk with
  | (.error failure, db) => (.error failure, db)
  | (.ok (), db) => db.indexTo Catalogue.allGames

/-! ## Reading -/

/-- Gives up on game `n`: the catalogue is cut back and the problem reported, which is critical. -/
def reject (db : Database) (n : Nat) (problem : Problem) : Failure × Database :=
  let (failure, reporter) := db.reporter.report db.buffer problem
  (failure.getD (.fatal problem),
    { db with catalogue := db.catalogue.invalidateFrom n, reporter })

/-- Does the catalogued place of a game still lie in the text and hold the same header? If not,
the problem that says so. -/
def stale? (t : Text) (n : Nat) (entry : Entry) : Option Problem :=
  if t.size < entry.tags.stop ∨ t.size < entry.movetext.stop then
    some (.gameOutOfRange n ⟨min entry.tags.start t.size, t.size⟩)
  else if t.checksum entry.tags ≠ entry.checksum then some (.hashMismatch n entry.tags)
  else none

/-- The game read last, if it is the one asked for, read from these very bytes. -/
def reusable? (db : Database) (n : Nat) (entry : Entry) : Option Game :=
  db.current.filter fun g =>
    g.number == n && g.entry == entry && g.buffer.key == db.buffer.key

/-- Makes this game the game read last. -/
def arriveAt (db : Database) (game : Game) : Database :=
  { db with current := some game, cursor := game.number }

/-- Reads the game at a place known to be good. -/
def readAt (db : Database) (n : Nat) (entry : Entry) : Except Failure Reading × Database :=
  match db.reusable? n entry with
  | some game => (.ok ⟨game, true⟩, db.arriveAt game)
  | none =>
    let game := Game.read db.buffer db.options.strict n entry
    match db.reporter.reportAll db.buffer game.problems with
    -- A read that failed leaves the game read last where it is.
    | (some failure, reporter) => (.error failure, { db with reporter })
    | (none, reporter) => (.ok ⟨game, false⟩, { db with reporter }.arriveAt game)

/-- Reads game `n`, counting from one, or nothing if there are fewer games. -/
def readGame (db : Database) (disk : Disk) (n : Nat) :
    Except Failure (Option Reading) × Database :=
  -- Games count from one, so nobody has to look at the file to know there is no game zero.
  if n = 0 then (.ok none, db)
  else
    match db.refresh disk with
    | (.error failure, db) => (.error failure, db)
    | (.ok (), db) =>
      match db.indexTo n with
      | (.error failure, db) => (.error failure, db)
      | (.ok count, db) =>
        if count < n then (.ok none, db)
        else
          match db.catalogue.entry? n with
          | none => (.ok none, db)
          | some entry =>
            -- The catalogue may be older than the bytes, so the place is checked before it is read.
            match stale? db.buffer.text n entry with
            | some problem =>
              let (failure, db) := db.reject n problem
              (.error failure, db)
            | none =>
              match db.readAt n entry with
              | (.error failure, db) => (.error failure, db)
              | (.ok reading, db) => (.ok (some reading), db)

/-- Reads the game behind the one read last. -/
def readNext (db : Database) (disk : Disk) : Except Failure (Option Reading) × Database :=
  db.readGame disk (min (db.cursor + 1) Catalogue.allGames)

/-- Checks a game that was read from this database. -/
def check (db : Database) (g : Game) (depth : Depth) : Verdict × Database :=
  let (verdict, reporter) := g.check depth db.reporter
  (verdict, { db with reporter })

end Database

end Scorebook
