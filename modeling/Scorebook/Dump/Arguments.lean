import Scorebook.Catalogue
import Scorebook.Nag
import Scorebook.Text.Decimal

/-!
# The command line

What the program is asked to do, read from its arguments. Options have a long and some a short
name; short ones can be run together (`-ctm`), and the value of an option follows as the next
argument, behind `=`, or directly behind a short name. `--text` takes two values, which are always
arguments of their own. Behind `--` everything is a database.

Only `--game` and `--text` may be repeated. Whatever else does not fit is a usage error; which one
does not matter to the caller, so there is a single way to fail.
-/

namespace Scorebook.Dump

/-- What the program is asked to do. -/
structure Request where
  /-- The database file. -/
  database : Option String
  /-- Databases given on the command line: name and content. -/
  texts : List (String × String)
  /-- Print the number of games? -/
  count : Bool
  /-- The games to print; none means all of them. -/
  games : List Nat
  /-- Print the tag pairs of each game? -/
  tags : Bool
  /-- Print the moves of each game? -/
  moves : Bool
  nagFormat : NagFormat
  /-- Check the movetext of each game? -/
  deep : Bool
  strict : Bool
  /-- How many workers share the cataloguing. -/
  jobs : Nat
deriving Repr

/-- What a command line amounts to. -/
inductive Invocation
  | run (request : Request)
  /-- Print the usage. -/
  | help
  /-- Print the version. -/
  | version
  /-- The arguments fit no use of the program. -/
  | misuse

/-! ## Options -/

/-- The options that take no value. -/
inductive Switch
  | count
  | tags
  | moves
  | deep
  | strict
  | debug
  | help
  | version
deriving DecidableEq, Repr

/-- The options that take one value. -/
inductive Setting
  | game
  | nagFormat
  | jobs
deriving DecidableEq, Repr

/-- An option by what has to follow it. -/
inductive Opt
  | switch (s : Switch)
  | setting (s : Setting)
  /-- A name and a content have to follow. -/
  | text
deriving DecidableEq, Repr

/-- The options by long name. -/
def longNames : List (String × Opt) := [
  ("count", .switch .count), ("tags", .switch .tags), ("moves", .switch .moves),
  ("deep", .switch .deep), ("strict", .switch .strict), ("debug", .switch .debug),
  ("help", .switch .help), ("version", .switch .version), ("game", .setting .game),
  ("nag-format", .setting .nagFormat), ("jobs", .setting .jobs), ("text", .text)]

/-- The options by short name. -/
def shortNames : List (Char × Opt) := [
  ('c', .switch .count), ('t', .switch .tags), ('m', .switch .moves), ('d', .switch .deep),
  ('h', .switch .help), ('V', .switch .version), ('g', .setting .game), ('j', .setting .jobs)]

/-- The state of reading arguments: what was asked for so far. The optional fields tell whether an
option that cannot be repeated was given. -/
structure Draft where
  database : Option String
  texts : List (String × String)
  games : List Nat
  switches : List Switch
  nagFormat : Option NagFormat
  jobs : Option Nat

/-- Nothing asked for yet. -/
def Draft.empty : Draft := ⟨none, [], [], [], none, none⟩

/-- How reading an argument can end the reading of all. -/
inductive Stop
  | misuse
  | help
  | version
deriving DecidableEq, Repr

/-! ## Values -/

/-- A positive number of 32 bits; a plus sign is allowed in front. -/
def positive? (text : String) : Option Nat :=
  let digits := match text.toList with
    | '+' :: rest => rest
    | cs => cs
  ((Decimal.parse? (Catalogue.allGames + 1) (digits.map fun c =>
    if c.toNat < 0x80 then UInt8.ofNat c.toNat else 0)).filter (0 < ·))

/-- Takes the value of an option. -/
def Draft.set (p : Draft) (s : Setting) (value : String) : Except Stop Draft :=
  match s with
  | .game =>
    match positive? value with
    | some n => .ok { p with games := p.games ++ [n] }
    | none => .error .misuse
  | .jobs =>
    match p.jobs, positive? value with
    | none, some n => .ok { p with jobs := some n }
    | _, _ => .error .misuse
  | .nagFormat =>
    match p.nagFormat, NagFormat.ofName? value with
    | none, some format => .ok { p with nagFormat := some format }
    | _, _ => .error .misuse

/-- Turns on an option that takes no value. -/
def Draft.turnOn (p : Draft) (s : Switch) : Except Stop Draft :=
  match s with
  | .help => .error .help
  | .version => .error .version
  | s => if s ∈ p.switches then .error .misuse else .ok { p with switches := s :: p.switches }

/-- Takes an argument that is no option: the database file. -/
def Draft.place (p : Draft) (value : String) : Except Stop Draft :=
  match p.database with
  | none => .ok { p with database := some value }
  | some _ => .error .misuse

/-! ## Arguments -/

/-- What the next arguments are needed for. -/
inductive Pending
  | nothing
  | value (s : Setting)
  | textName
  | textContent (name : String)
deriving DecidableEq, Repr

/-- Does the argument stand for itself? One that starts with a hyphen is an option, unless it is
the hyphen alone. -/
def isPlain (arg : List Char) : Bool :=
  match arg with
  | '-' :: _ :: _ => false
  | _ => true

/-- Reads short options run together. -/
def readShort (p : Draft) : List Char → Except Stop (Draft × Pending)
  | [] => .ok (p, .nothing)
  | c :: rest =>
    match shortNames.lookup c with
    | none | some .text => .error .misuse
    | some (.switch s) =>
      match p.turnOn s with
      | .error stop => .error stop
      | .ok p => readShort p rest
    | some (.setting s) =>
      match rest with
      | [] => .ok (p, .value s)
      | '=' :: value | value => (p.set s (String.ofList value)).map (·, .nothing)

/-- Reads a long option, less its two hyphens. -/
def readLong (p : Draft) (arg : List Char) : Except Stop (Draft × Pending) :=
  let name := String.ofList (arg.takeWhile (· != '='))
  match longNames.lookup name, arg.dropWhile (· != '=') with
  | some (.switch s), [] => (p.turnOn s).map (·, .nothing)
  | some (.setting s), [] => .ok (p, .value s)
  | some (.setting s), _ :: value => (p.set s (String.ofList value)).map (·, .nothing)
  | some .text, [] => .ok (p, .textName)
  | _, _ => .error .misuse

/-- Reads an argument that starts with a hyphen. -/
def readOption (p : Draft) (arg : List Char) : Except Stop (Draft × Pending) :=
  match arg with
  | '-' :: '-' :: name => readLong p name
  | '-' :: names => readShort p names
  | _ => .error .misuse

/-- Reads the arguments behind `--`. -/
def readPlain (p : Draft) : List String → Except Stop Draft
  | [] => .ok p
  | arg :: rest =>
    match p.place arg with
    | .error stop => .error stop
    | .ok p => readPlain p rest

/-- Reads arguments from left to right. -/
def readAll (p : Draft) (pending : Pending) : List String → Except Stop Draft
  | [] => if pending = .nothing then .ok p else .error .misuse
  | arg :: rest =>
    match pending with
    | .nothing =>
      if isPlain arg.toList then
        match p.place arg with
        | .error stop => .error stop
        | .ok p => readAll p .nothing rest
      else if arg = "--" then readPlain p rest
      else
        match readOption p arg.toList with
        | .error stop => .error stop
        | .ok (p, pending) => readAll p pending rest
    | .value s =>
      if isPlain arg.toList then
        match p.set s arg with
        | .error stop => .error stop
        | .ok p => readAll p .nothing rest
      else .error .misuse
    | .textName =>
      if isPlain arg.toList then readAll p (.textContent arg) rest else .error .misuse
    | .textContent name =>
      if isPlain arg.toList then
        readAll { p with texts := p.texts ++ [(name, arg)] } .nothing rest
      else .error .misuse

/-- The request that the arguments make. There has to be a database to work on. -/
def Draft.request? (p : Draft) : Option Request :=
  if p.database.isNone ∧ p.texts.isEmpty then none
  else
    some {
      database := p.database
      texts := p.texts
      count := .count ∈ p.switches
      games := p.games
      tags := .tags ∈ p.switches
      moves := .moves ∈ p.switches
      nagFormat := p.nagFormat.getD .brief
      deep := .deep ∈ p.switches
      strict := .strict ∈ p.switches
      jobs := p.jobs.getD 1 }

/-- What these arguments ask for. -/
def Invocation.ofArguments (args : List String) : Invocation :=
  match readAll .empty .nothing args with
  | .error .misuse => .misuse
  | .error .help => .help
  | .error .version => .version
  | .ok p =>
    match p.request? with
    | some request => .run request
    | none => .misuse

end Scorebook.Dump
