import Scorebook.Movetext.Token
import Scorebook.Movetext.Tree

/-!
# From movetext to a score

A `Score` is the parsed movetext of one game: its tree, its termination marker and its problems.
The tree is built in one pass over the lexemes. Every line not closed yet is an `OpenLine`; the
lines around the current one wait on a stack, and a closing parenthesis turns the current line into
a `Variation` and hands it to the line below.

A comment, a glyph or a variation belongs to the move written last *in its own line*, so what
follows a closed variation belongs to the move before it. The pass ends at the first termination
marker outside all parentheses. A parenthesis without its partner is critical, since there is no
telling what was meant. Games are read by a pass that halts there (`Reader.run`). One that only
collects problems can go on: it leaves out a closing parenthesis that closes nothing, and closes
what is open at the end of the text (`Reader.pass`).
-/

namespace Scorebook

/-! ## Lines being read -/

/-- A line that has not ended yet. -/
structure OpenLine where
  id : Nat
  depth : Nat
  /-- Where the text of the line starts, behind its parenthesis. -/
  start : Nat
  comment : Option String
  /-- The finished moves, the last one first. -/
  moves : List Move
  /-- The move annotations attach to, its alternatives not attached yet. -/
  last : Option Move
  /-- The variations closed since that move, the last one first. -/
  branches : List Variation
  /-- The variations written before the first move. -/
  strays : List Variation

/-- Joins a comment to what was commented before. -/
def joinComment (before : Option String) (text : String) : Option String :=
  match before with
  | some comment => some (comment ++ " " ++ text)
  | none => some text

namespace OpenLine

/-- A line that starts at `start`. -/
def new (id depth start : Nat) : OpenLine :=
  ⟨id, depth, start, none, [], none, [], []⟩

/-- Finishes the last move: the variations closed since are its alternatives, or strays if there is
no move. -/
def settle (l : OpenLine) : OpenLine :=
  match l.last with
  | some m =>
    { l with moves := { m with variations := l.branches.reverse } :: l.moves, last := none,
             branches := [] }
  | none => { l with strays := l.branches.reverse, branches := [] }

/-- The line, ending at `stop`. -/
def close (l : OpenLine) (stop : Nat) : Variation :=
  let l := l.settle
  ⟨l.id, l.depth, ⟨l.start, stop⟩, l.comment, l.moves.reverse, l.strays⟩

/-- Adds a comment to the last move, or in front of the line. An empty comment is none. -/
def addComment (l : OpenLine) (text : String) : OpenLine :=
  if text.isEmpty then l
  else
    match l.last with
    | some m => { l with last := some { m with comment := joinComment m.comment text } }
    | none => { l with comment := joinComment l.comment text }

/-- The number of moves so far, in 32 bits. -/
def count (l : OpenLine) : Nat :=
  (l.last.map Move.number).getD 0

/-- Adds a move. -/
def addMove (l : OpenLine) (san : String) (span : Span) (indicated : Option Nat)
    (wellFormed : Bool) : OpenLine :=
  { l.settle with
    last := some ⟨san, span, oneMore l.count, indicated, none, #[], wellFormed, []⟩ }

/-- Adds a glyph to the last move, if there is one. -/
def addNag? (l : OpenLine) (nag : Nag) : Option OpenLine :=
  l.last.map fun m => { l with last := some { m with nags := m.nags.push nag } }

/-- Adds a closed variation behind the last move. -/
def addBranch (l : OpenLine) (v : Variation) : OpenLine :=
  { l with branches := v :: l.branches }

end OpenLine

/-! ## Scores -/

/-- The parsed movetext of one game. -/
structure Score where
  mainLine : Variation
  /-- The termination marker and where it stands. -/
  marker : Option (Outcome × Span)
  /-- All problems, in order. -/
  problems : List Problem

/-- The first problem that makes the movetext invalid. -/
def Score.verdict (score : Score) : Verdict :=
  Verdict.ofProblems score.problems

/-! ## The pass -/

/-- The state of the pass over the lexemes. -/
structure Reader where
  /-- The line being read. -/
  line : OpenLine
  /-- The lines around it, the innermost first. -/
  outer : List OpenLine
  /-- The move number read last, until a move or a parenthesis uses it up. -/
  number : Option Nat
  /-- The number of variations so far. -/
  opened : Nat
  problems : Array Problem

namespace Reader

/-- The state before the first lexeme. -/
def start (pos : Nat) : Reader :=
  ⟨.new 0 0 pos, [], none, 1, #[]⟩

/-- Notes a problem. -/
def note (r : Reader) (problem : Problem) : Reader :=
  { r with problems := r.problems.push problem }

/-- Enters a variation. One that follows no move is a problem, and becomes a stray. -/
def enter (r : Reader) (span : Span) : Reader :=
  let r := if r.line.last.isNone then r.note (.fault .variationWithoutMove span) else r
  { r with
    line := .new r.opened (oneMore r.line.depth) span.stop
    outer := r.line :: r.outer
    number := none
    opened := r.opened + 1 }

/-- Closes every open line at `stop` and gives the outermost. -/
def closeAll (line : OpenLine) (stop : Nat) : List OpenLine → Variation
  | [] => line.close stop
  | parent :: outer => closeAll (parent.addBranch (line.close stop)) stop outer

/-- Ends the pass: the main line reaches to the end of the text. -/
def finish (r : Reader) (stop : Nat) (marker : Option (Outcome × Span)) : Score :=
  ⟨closeAll r.line stop r.outer, marker, r.problems.toList⟩

/-- Ends the pass at the end of the text, where every line should be closed and a marker should have
been. A pass that halts at the line still open does not get to the marker. -/
def finishOpen (r : Reader) (halts : Bool) (stop : Nat) : Score :=
  let missing : Problem := .fault .missingTerminationMarker ⟨stop, stop⟩
  let r :=
    if r.outer.isEmpty then r.note missing
    else
      let r := r.note (.fault .unmatchedOpenParen ⟨r.line.start - 1, r.line.start⟩)
      if halts then r else r.note missing
  r.finish stop none

/-- The first token among these lexemes. -/
def firstToken? : List Lexeme → Option Span
  | [] => none
  | .token _ span :: _ => some span
  | _ :: rest => firstToken? rest

/-- Ends the pass at a termination marker. Strict reading reports the text behind it. -/
def finishAt (r : Reader) (strict : Bool) (stop : Nat) (outcome : Outcome) (span : Span)
    (rest : List Lexeme) : Score :=
  let r :=
    match firstToken? rest with
    | some extra =>
      if strict then r.note (.tokensAfterTermination span ⟨extra.start, stop⟩) else r
    | none => r
  r.finish stop (some (outcome, span))

/-- Reads lexemes up to the end or the first termination marker outside all parentheses, or up to a
parenthesis without its partner if the pass halts at critical problems. -/
def pass (halts strict : Bool) (stop : Nat) (r : Reader) : List Lexeme → Score
  | [] => r.finishOpen halts stop
  | .comment _ text :: rest => pass halts strict stop { r with line := r.line.addComment text } rest
  | .openEnd problem :: rest => pass halts strict stop (r.note problem) rest
  | .token token span :: rest =>
    match token with
    | .number n => pass halts strict stop { r with number := some n } rest
    | .san text wellFormed =>
      let r := { r with line := r.line.addMove text span r.number wellFormed, number := none }
      pass halts strict stop (if wellFormed then r else r.note (.fault .badSan span)) rest
    | .nag nag =>
      match r.line.addNag? nag with
      | some line => pass halts strict stop { r with line } rest
      | none => pass halts strict stop (r.note (.fault .nagWithoutMove span)) rest
    | .badNag => pass halts strict stop (r.note (.fault .badNag span)) rest
    | .unexpected => pass halts strict stop (r.note (.fault .unexpectedCharacter span)) rest
    | .opening => pass halts strict stop (r.enter span) rest
    | .closing =>
      match r.outer with
      | [] =>
        let r := r.note (.fault .unmatchedCloseParen span)
        if halts then r.finish stop none else pass halts strict stop r rest
      | parent :: outer =>
        -- What follows annotates the move that the closed line branched from.
        let line := parent.addBranch (r.line.close span.start)
        pass halts strict stop { r with line, outer, number := none } rest
    | .marker outcome =>
      -- Inside parentheses a marker ends nothing: the game goes on behind the variation.
      if r.outer.isEmpty then r.finishAt strict stop outcome span rest
      else pass halts strict stop (r.note (.fault .markerInVariation span)) rest
    | .badMarker =>
      if r.outer.isEmpty then
        (r.note (.fault .badTerminationMarker span)).finish stop (some (.undefined, span))
      else pass halts strict stop (r.note (.fault .markerInVariation span)) rest

/-- The pass that games are read with halts at critical problems. -/
def run (strict : Bool) (stop : Nat) (r : Reader) (lexemes : List Lexeme) : Score :=
  r.pass true strict stop lexemes

end Reader

/-- What a pass makes of the movetext in a range. -/
def Text.parse (t : Text) (halts strict : Bool) (s : Span) : Score :=
  (Reader.start s.start).pass halts strict s.stop (t.lexemes s)

/-- The score of the movetext in a range, as games are read. -/
def Text.score (t : Text) (strict : Bool) (s : Span) : Score :=
  (Reader.start s.start).run strict s.stop (t.lexemes s)

end Scorebook
