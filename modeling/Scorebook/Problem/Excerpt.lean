import Scorebook.Problem
import Scorebook.Text.Decoding
import Scorebook.Text.LineTable

/-!
# Problems shown in place

A problem is shown to people as a title and the lines of the database it lies in, with the range at
fault marked and labelled. An `Excerpt` is one such stretch of whole lines: the decoded source, the
number of its first line, and the marked range inside the decoded source. Decoding can make bytes
longer, so the range is measured in the UTF-8 bytes of the source that is shown.
-/

namespace Scorebook

/-- The weight of a message or of a mark. -/
inductive Level
  | error
  | warning
  | note
deriving DecidableEq, Repr

/-- A marked stretch of whole lines. -/
structure Excerpt where
  origin : String
  line : Nat
  source : String
  start : Nat
  stop : Nat
  label : String
  level : Level
deriving DecidableEq, Repr

/-- A problem as people read it. -/
structure Notice where
  level : Level
  title : String
  excerpts : List Excerpt
deriving DecidableEq, Repr

namespace Problem

/-- The weight of a problem. -/
def level (problem : Problem) : Level :=
  if problem.isCritical then .error else .warning

/-- What to mark: a level, a label and a range each, the main one first. -/
def marks (problem : Problem) : List (Level × String × Span) :=
  match problem with
  | tokensAfterTermination marker extra =>
    [(problem.level, "not part of the game", extra), (.note, "the game ended here", marker)]
  | hashMismatch game span => [(problem.level, s!"game {game} no longer matches the index", span)]
  | _ => problem.span?.toList.map fun span => (problem.level, problem.verdict.name, span)

/-- How many bytes UTF-8 takes for bytes read as ISO-8859-1. -/
def latin1Width (bytes : ByteArray) : Nat :=
  (latin1 bytes.data.toList).foldl (fun n c => n + c.utf8Size) 0

/-- One mark in its lines. The range is cut to the text; the lines run from the start of the line
that holds its start to the first line end at or after its stop. -/
def excerpt (origin : String) (buffer : Buffer) (table : LineTable)
    (level : Level) (label : String) (span : Span) : Excerpt × LineTable :=
  let t := buffer.text
  let start := min span.start t.size
  let stop := max start (min span.stop t.size)
  let (place, table) := table.locate buffer start
  let first := start + 1 - place.column.toNat
  let raw := t.slice ⟨first, t.lineEnd stop⟩
  let (a, b) :=
    match String.fromUTF8? raw with
    | some _ => (start - first, stop - first)
    | none =>
      let before := latin1Width (t.slice ⟨first, start⟩)
      (before, before + latin1Width (t.slice ⟨start, stop⟩))
  (⟨origin, place.line, decode raw, a, b, label, level⟩, table)

/-- The excerpts for a list of marks, threading the line table. -/
def excerpts (origin : String) (buffer : Buffer) (table : LineTable) :
    List (Level × String × Span) → List Excerpt × LineTable
  | [] => ([], table)
  | (level, label, span) :: rest =>
    let (shown, table) := excerpt origin buffer table level label span
    let (more, table) := excerpts origin buffer table rest
    (shown :: more, table)

/-- The problem as a titled message with its excerpts. -/
def notice (problem : Problem) (origin : String) (buffer : Buffer) (table : LineTable) :
    Notice × LineTable :=
  let (shown, table) := excerpts origin buffer table problem.marks
  (⟨problem.level, problem.message, shown⟩, table)

end Problem

end Scorebook
