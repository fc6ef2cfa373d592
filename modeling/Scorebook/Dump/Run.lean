import Scorebook.Database
import Scorebook.Dump.Arguments
import Scorebook.Dump.Usage
import Scorebook.Problem.Layout

/-!
# Dumping databases

One run of the program works through its databases in turn. For each it catalogues all games,
prints the games asked for, and then prints every problem met on the way as an annotated excerpt.
The last line counts the problems and failed reads of all databases, and the exit status is 1 if
there were any.

`Dump.run` computes what a run prints from the request and the content of the database file, and
`Invocation.printout` does so for any command line.
-/

namespace Scorebook.Dump

/-- One line for the standard error stream. -/
structure Complaint where
  text : String
  /-- Does the text repeat what the system said about a file? -/
  fromSystem : Bool
deriving DecidableEq, Repr

/-- What a run prints, line by line, and how it ends. -/
structure Printout where
  exit : Nat
  output : Array String
  complaints : Array Complaint
deriving DecidableEq, Repr

/-! ## One game -/

/-- The lines printed for a game, and the database after checking it. -/
def gameLines (request : Request) (db : Database) (g : Game) : List String × Database :=
  let player (name : String) := (g.tag? name).getD "?"
  let title := "Game " ++ toString g.number ++ ": " ++ player "White" ++ " - " ++ player "Black"
    ++ " " ++ toString g.outcome
  let tags :=
    if request.tags then
      g.tags.map fun tag => "  [" ++ tag.name ++ " \"" ++ tag.value ++ "\"]"
    else []
  let main := g.score.mainLine
  let moves :=
    if request.moves then
      ["  " ++ main.write request.nagFormat, "  (" ++ toString main.leafCount ++ " lines)"]
    else []
  let (verdict, db) := db.check g (if request.deep then .deep else .simple)
  let status := if verdict = .valid then [] else ["  status: " ++ verdict.name]
  (title :: tags ++ moves ++ status, db)

/-! ## One database -/

/-- The output of a run so far. `failures` counts the reads that gave no game for a reason that no
handler hears of. -/
structure Progress where
  db : Database
  output : Array String
  complaints : Array Complaint
  failures : Nat

namespace Progress

/-- Adds lines of output. -/
def print (p : Progress) (lines : List String) : Progress :=
  { p with output := p.output ++ lines }

/-- Adds a failure and the line that tells of it. -/
def fail (p : Progress) (text : String) (fromSystem : Bool) : Progress :=
  { p with complaints := p.complaints.push ⟨text, fromSystem⟩, failures := p.failures + 1 }

/-- Reads and prints one game. A problem that stopped the read was heard by the handler. -/
def dumpGame (request : Request) (disk : Disk) (p : Progress) (n : Nat) : Progress :=
  let name := p.db.store.name
  let (answer, db) := p.db.readGame disk n
  let p := { p with db }
  match answer with
  | .ok (some reading) =>
    let (lines, db) := gameLines request db reading.game
    { p with db }.print lines
  | .ok none => p.fail (name ++ ": game " ++ toString n ++ ": no such game") false
  | .error (.io reason) => p.fail (name ++ ": game " ++ toString n ++ ": " ++ reason) true
  | .error _ => p

end Progress

/-- The handler of the program hears of everything and never stops. -/
def listener : Handler := ⟨fun _ _ => true⟩

/-- Catalogues the whole database, first by the workers if there is more than one. -/
def catalogueAll (request : Request) (disk : Disk) (db : Database) :
    Except Failure Nat × Database :=
  if request.jobs > 1 then
    match db.indexTo Catalogue.allGames with
    | (.error failure, db) => (.error failure, db)
    | (.ok _, db) => db.gameCount disk
  else db.gameCount disk

/-- The numbers of the games to print. All games are printed unless only their count is wanted. -/
def selection (request : Request) (count : Nat) : List Nat :=
  if request.games ≠ [] then request.games
  else if request.count ∧ ¬ (request.tags ∨ request.moves ∨ request.deep) then []
  else List.range' 1 count

/-- The notices for reports, as lines. -/
def noticeLines (name : String) (buffer : Buffer) (reports : List Report) : List String :=
  let step := fun (lines, table) (report : Report) =>
    let (notice, table) := report.problem.notice name buffer table
    (lines ++ notice.lines.toArray, table)
  (reports.foldl step ((#[] : Array String), LineTable.empty)).1.toList

/-- Works through one database; the result also counts its problems. -/
def processDatabase (request : Request) (disk : Disk) (db : Database) : Progress × Nat :=
  let name := db.store.name
  let (counted, db) := catalogueAll request disk (db.setHandler (some listener))
  let start : Progress := ⟨db, #[], #[], 0⟩
  let (count, p) :=
    match counted with
    | .ok count => (count, start)
    | .error failure =>
      (db.catalogue.entries.size,
        start.fail (name ++ ": error: " ++ failure.message) failure.problem?.isNone)
  let p := if request.count then p.print [name ++ ": " ++ toString count ++ " games"] else p
  let p := (selection request count).foldl (Progress.dumpGame request disk) p
  let reports := p.db.reporter.delivered.toList
  (p.print (noticeLines name p.db.buffer reports), reports.length + p.failures)

/-! ## A whole run -/

/-- Opens the databases in turn, the file first. -/
def openAll (request : Request) (disk : Disk) : Except Failure (List Database) :=
  let options : Options := ⟨request.strict, 0⟩
  let file :=
    match request.database with
    | some name => (Database.ofFile name disk options).map fun db => [db]
    | none => .ok []
  match file with
  | .error failure => .error failure
  | .ok front =>
    match request.texts.mapM fun (name, text) => Database.ofBytes name text.toUTF8 options with
    | .error failure => .error failure
    | .ok back => .ok (front ++ back)

/-- What a run prints, given what the database file holds. -/
def run (request : Request) (disk : Disk) : Printout :=
  match openAll request disk with
  | .error failure => ⟨1, #[], #[⟨"error: " ++ failure.message, failure.problem?.isNone⟩]⟩
  | .ok databases =>
    let done := databases.map (processDatabase request disk)
    let problems : Nat := done.foldl (fun n part => n + part.2) 0
    let output := done.foldl (fun out (p, _) => out ++ p.output) #[]
    let complaints := done.foldl (fun out (p, _) => out ++ p.complaints) #[]
    ⟨if problems > 0 then 1 else 0, output.push (toString problems ++ " diagnostics issued."),
      complaints⟩

/-- What an invocation prints, given what the database file holds. -/
def Invocation.printout (invocation : Invocation) (disk : Disk) : Printout :=
  match invocation with
  | .run request => Dump.run request disk
  | .help => ⟨0, usage, #[]⟩
  | .version => ⟨0, #[versionLine], #[]⟩
  | .misuse => ⟨2, #[], usage.map fun line => ⟨line, false⟩⟩

end Scorebook.Dump
