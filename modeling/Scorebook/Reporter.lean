import Scorebook.Problem
import Scorebook.Text.LineTable
import Std.Data.HashSet.Basic

/-!
# Reporting problems

All operations on one database report the problems they run into to one `Reporter`. It passes each
of them to the handler that is installed, unless a problem of the same verdict at the same line and
column was passed on before: indexing, reading and checking a game find the same problems again and
again, and each is worth hearing about once. Without a handler nothing is passed on and nothing is
remembered.

A report is answered by going on or by a failure. A critical problem always fails, heard or not;
any other problem fails exactly if this very report was passed on and the handler declined.
-/

namespace Scorebook

/-- A problem as a handler is told of it. -/
structure Report where
  critical : Bool
  verdict : Verdict
  message : String
  place : Place
  problem : Problem
deriving DecidableEq, Repr

/-- Decides after each report whether to go on. The reports of one handler are numbered from one,
and its answer may depend on the number. -/
structure Handler where
  accepts : Nat → Report → Bool

/-- What makes two reports the same. -/
structure Mark where
  verdict : Verdict
  place : Place
deriving DecidableEq, Repr, Hashable

/-- The handler, and what has been reported so far. -/
structure Reporter where
  handler : Option Handler
  /-- How many reports the handler installed now has been given. -/
  calls : Nat
  /-- The marks of all reports passed on, to whichever handler. -/
  seen : Std.HashSet Mark
  lines : LineTable
  /-- All reports passed on, to whichever handler, in order. -/
  delivered : Array Report

namespace Reporter

/-- A reporter without a handler that has seen nothing. -/
def empty : Reporter := ⟨none, 0, ∅, .empty, #[]⟩

/-- Replaces the handler. What has been reported stays reported. -/
def setHandler (r : Reporter) (handler : Option Handler) : Reporter :=
  { r with handler, calls := 0 }

/-- The place a problem is reported at: the start of its range, cut to the text. A problem without
a range has the line and column zero. -/
def locate (lines : LineTable) (buffer : Buffer) (problem : Problem) : Place × LineTable :=
  match problem.span? with
  | some span => lines.locate buffer (min span.start buffer.text.size)
  | none => (⟨0, 0⟩, lines)

/-- Passes the problem to the handler unless its mark was seen before, and says whether to go on. -/
def deliver (r : Reporter) (handler : Handler) (buffer : Buffer) (problem : Problem) :
    Bool × Reporter :=
  let (place, lines) := locate r.lines buffer problem
  let mark : Mark := ⟨problem.verdict, place⟩
  if mark ∈ r.seen then (true, { r with lines })
  else
    let report : Report := ⟨problem.isCritical, problem.verdict, problem.message, place, problem⟩
    let calls := r.calls + 1
    (handler.accepts calls report,
      { r with calls, seen := r.seen.insert mark, lines, delivered := r.delivered.push report })

/-- Reports one problem of the buffer: the failure it amounts to, if any. -/
def report (r : Reporter) (buffer : Buffer) (problem : Problem) : Option Failure × Reporter :=
  let (proceed, r) :=
    match r.handler with
    | none => (true, r)
    | some handler => r.deliver handler buffer problem
  let failure :=
    if problem.isCritical then some (.fatal problem)
    else if proceed then none
    else some (.aborted problem)
  (failure, r)

/-- Reports problems in order up to the first that fails. -/
def reportAll (r : Reporter) (buffer : Buffer) : List Problem → Option Failure × Reporter
  | [] => (none, r)
  | problem :: rest =>
    match r.report buffer problem with
    | (some failure, r) => (some failure, r)
    | (none, r) => r.reportAll buffer rest

/-- Reports all problems whatever the answers. -/
def mention (r : Reporter) (buffer : Buffer) (problems : List Problem) : Reporter :=
  problems.foldl (fun r problem => (r.report buffer problem).2) r

end Reporter

end Scorebook
