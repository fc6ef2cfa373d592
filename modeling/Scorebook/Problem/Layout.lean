import Scorebook.Problem.Excerpt
import Scorebook.Problem.Window
import Scorebook.Text.Columns
import Scorebook.Text.Row

/-!
# Notices as lines of text

A notice is printed as its title, then each excerpt with its place, the source lines with their
numbers and a row of marks under the range:

    warning: Unknown move annotation
     --> games.pgn:2:7
      |
    2 | 1. e4 $ *
      |       - illegal move
      |

A range of several lines is marked at its two ends, with a rail between them in front of the lines,
and the middle of a long range is left out:

    warning: Comment is not closed before end of file
     --> games.pgn:2:7
      |
    2 |   1. e4 {good
      |  _______-
    3 | | but
    ... |
    6 | | was
    7 | | not best
      | |________- illegal token
      |

Columns are counted as in `Columns`, where a tab takes none. It is shown as four blanks all the
same, so marks behind a tab stand too far to the left.
-/

namespace Scorebook

open Columns

namespace Level

/-- The word a message or a mark of this weight starts with. -/
def word : Level → String
  | error => "error"
  | warning => "warning"
  | note => "note"

/-- The character that marks a range. -/
def markChar : Level → Char
  | error => '^'
  | warning | note => '-'

end Level

/-! ## The lines of a source -/

/-- A line of a source text. -/
structure SourceLine where
  text : List Char
  /-- The byte offset of the line. -/
  start : Nat
  /-- The bytes of the line break; none if the source ends there. -/
  ending : Nat

namespace SourceLine

/-- The byte offset behind the text. -/
def stop (l : SourceLine) : Nat :=
  l.start + byteLength l.text

/-- The largest offset at which a range may stop and still be in the line. A range may take in the
line break, or the end of the source. -/
def reach (l : SourceLine) : Nat :=
  l.stop + max l.ending 1

/-- The column of a byte offset. -/
def columnAt (l : SourceLine) (offset : Nat) : Nat :=
  width (before (offset - l.start) l.text)

/-- The blanks in front of the text, unless there is nothing else. -/
def indent? (l : SourceLine) : Option Nat :=
  if l.text.all isWhiteSpace then none
  else some ((l.text.takeWhile isWhiteSpace).foldl (fun n c => n + if c == '\t' then 4 else 1) 0)

/-- The lines of a text from `offset` on, behind those already found. `read` is what was read of the
current line, the last character first. A carriage return in front of a line feed is part of the
line break. -/
def splitFrom (offset : Nat) (read : List Char) (lines : Array SourceLine) :
    List Char → Array SourceLine
  | [] => if read.isEmpty then lines else lines.push ⟨read.reverse, offset, 0⟩
  | '\n' :: rest =>
    let line : SourceLine :=
      match read with
      | '\r' :: read => ⟨read.reverse, offset, 2⟩
      | read => ⟨read.reverse, offset, 1⟩
    splitFrom (line.stop + line.ending) [] (lines.push line) rest
  | c :: rest => splitFrom offset (c :: read) lines rest

end SourceLine

/-! ## The part of the range in each line -/

/-- What a line holds of the range. Columns are those to be marked, the second one exclusive. -/
inductive Part
  | whole (first last : Nat)
  | opens (first last : Nat)
  | inside
  | closes (first last : Nat)

namespace Part

/-- The columns to be marked. -/
def marked? : Part → Option (Nat × Nat)
  | whole first last | opens first last | closes first last => some (first, last)
  | inside => none

/-- The columns of a range that lies in one line. An empty range is marked with one column. -/
def ofRange (l : SourceLine) (start stop : Nat) : Part :=
  let first := l.columnAt start
  whole first (max (first + 1) (l.columnAt stop))

/-- The first column of a range that goes on behind the line. -/
def ofStart (l : SourceLine) (start : Nat) : Part :=
  opens (l.columnAt start) (l.columnAt start + 1)

/-- The last column of a range that started in front of the line. A line break is one column behind
the text. -/
def ofStop (l : SourceLine) (stop : Nat) : Part :=
  let last := l.columnAt stop - 1
  if l.stop < stop then closes (last + 1) (last + 2) else closes last (last + 1)

end Part

/-- A numbered line that holds a part of the range. -/
structure Strip where
  number : Nat
  text : List Char
  part : Part

namespace Excerpt

/-- The lines of the source. -/
def sourceLines (e : Excerpt) : List SourceLine :=
  (SourceLine.splitFrom 0 [] #[] e.source.toList).toList

/-- The lines that hold a part of the range, which starts in the first line. -/
def strips (e : Excerpt) : List Strip :=
  match e.sourceLines with
  | [] => []
  | l :: rest =>
    if e.stop ≤ l.reach then [⟨e.line, l.text, .ofRange l e.start e.stop⟩]
    else
      let inner := rest.takeWhile (·.reach < e.stop)
      let next := e.line + 1
      ⟨e.line, l.text, .ofStart l e.start⟩ ::
        inner.zipIdx.map (fun (l, i) => ⟨next + i, l.text, .inside⟩) ++
        rest[inner.length]?.toList.map fun l => ⟨next + inner.length, l.text, .ofStop l e.stop⟩

/-- The largest line number shown. An empty excerpt shows no line. -/
def lastNumber (e : Excerpt) : Nat :=
  (e.strips.map Strip.number).foldl max 0

/-- Does the range need a rail? -/
def isLong (e : Excerpt) : Bool :=
  1 < e.strips.length

/-- Where the range starts, as shown above the excerpt. -/
def place (e : Excerpt) : Nat × Nat :=
  match e.sourceLines with
  | [] => (1, 1)
  | l :: _ => (e.line, (before e.start l.text).length + 1)

/-- The columns of the terminal. -/
def terminalWidth : Nat := 140

/-- What a window has to be laid around. The room is what the number behind the last line, the bar
and the blanks around it leave. -/
def extent (e : Excerpt) : Extent :=
  let lines := e.sourceLines
  let marked := e.strips.filterMap fun s => s.part.marked?
  let label := byteLength e.label.toList + 1
  { indent := (lines.filterMap SourceLine.indent?).min?
    first := ((marked.map (·.1)).min?).getD 0
    last := ((marked.map (·.2)).max?).getD 0
    labelEnd := ((marked.map (·.2 + label)).max?).getD 0
    longest := (lines.map fun l => byteLength l.text).foldl max 0
    room := terminalWidth - (3 + (toString (e.line + lines.length)).length) }

end Excerpt

/-! ## Drawing -/

/-- The columns shared by all rows of a notice. -/
structure Grid where
  /-- The columns for line numbers. -/
  margin : Nat
  /-- Does any range need a rail? -/
  railed : Bool

namespace Grid

/-- The column of the bar behind the line numbers. -/
def bar (g : Grid) : Nat := g.margin + 1

/-- The column of the rail. -/
def rail (g : Grid) : Nat := g.margin + 3

/-- The column the source starts in. -/
def source (g : Grid) : Nat := g.rail + if g.railed then 2 else 0

/-- A row with nothing but the bar. -/
def bareRow (g : Grid) : Row := Row.empty.put g.bar ['|']

/-- A row with a line number and the bar. -/
def numberedRow (g : Grid) (number : Nat) : Row :=
  let digits := (toString number).toList
  (Row.empty.put (g.margin - digits.length) digits).put g.bar ['|']

/-- A row that stands for lines left out, in a long range. -/
def foldRow (g : Grid) : Row :=
  (Row.empty.put 0 ['.', '.', '.']).put g.rail ['|']

end Grid

namespace Excerpt

/-- The label of the marks. A mark lighter than the message itself says so. -/
def fullLabel (e : Excerpt) : List Char :=
  match e.level with
  | .note => (Level.note.word ++ ": " ++ e.label).toList
  | _ => e.label.toList

/-- Writes the part of a line that the window shows. -/
def putSource (g : Grid) (w : Window) (text : List Char) (row : Row) : Row :=
  let length := byteLength text
  let code := (text.drop (w.left length)).take (w.right length - w.left length)
  let row := row.put g.source code
  let row := if w.cutsFront then row.put g.source ['.', '.', '.'] else row
  if w.cutsBack length then row.put (g.source + code.length - 3) ['.', '.', '.'] else row

/-- Writes the marks for the columns from `first` to `last`, with their label. `left` columns of the
line are not shown. What would stand in front of the row is written in its first column. -/
def putMarks (e : Excerpt) (g : Grid) (left first last : Nat) (label : List Char) (row : Row) :
    Row :=
  let row := row.put (g.source + (last + 1 - left)) label
  let start := g.source + first - left
  let stop := g.source + (last - 1) - left
  row.put start (List.replicate (stop + 1 - start) e.level.markChar)

/-- Writes the line that leads from the rail to a mark. -/
def putLead (g : Grid) (left column : Nat) (row : Row) : Row :=
  row.put (g.rail + 1) (List.replicate (g.source + column - left - g.rail) '_')

/-- The rows of a line: the line itself, and the marks under it. -/
def stripRows (e : Excerpt) (g : Grid) (w : Window) (s : Strip) : List Row :=
  let text := s.text.flatMap shown
  let left := (text.take (w.left (byteLength text))).length
  let row := putSource g w text (g.numberedRow s.number)
  match s.part with
  | .whole first last => [row, e.putMarks g left first last e.fullLabel g.bareRow]
  | .opens first last =>
    -- At the very start of a line the rail itself shows where the range opens.
    if (text.take first).all isWhiteSpace then [row.put g.rail ['/']]
    else [row, e.putMarks g left first last [] (putLead g left first g.bareRow)]
  | .inside => [row.put g.rail ['|']]
  | .closes first last =>
    let below := (putLead g left first g.bareRow).put g.rail ['|']
    [row.put g.rail ['|'], e.putMarks g left first last e.fullLabel below]

/-- The most lines between the ends of a range that are all shown. -/
def mostInner : Nat := 3

/-- The rows of all lines of the range, without the middle of a long one. -/
def rangeRows (e : Excerpt) (g : Grid) : List Row :=
  let draw := e.stripRows g (.ofExtent e.extent)
  let strips := e.strips
  if strips.length ≤ mostInner + 2 then strips.flatMap draw
  else (strips.take 2).flatMap draw ++ g.foldRow :: (strips.drop (strips.length - 2)).flatMap draw

/-- The row that tells the place of an excerpt. -/
def placeRow (e : Excerpt) (g : Grid) (sigil : String) : Row :=
  let (line, column) := e.place
  ((Row.empty.put g.margin sigil.toList).put (g.margin + 4) e.origin.toList).append
    (":" ++ toString line ++ ":" ++ toString column).toList

/-- The rows of an excerpt. -/
def rows (e : Excerpt) (g : Grid) (sigil : String) : List Row :=
  e.placeRow g sigil :: g.bareRow :: e.rangeRows g ++ [g.bareRow]

end Excerpt

namespace Notice

/-- The grid of a notice: the margin holds the largest line number shown. -/
def grid (n : Notice) : Grid :=
  let margin :=
    match (n.excerpts.map Excerpt.lastNumber).foldl max 0 with
    | 0 => 0
    | last => (toString last).length
  ⟨margin, n.excerpts.any Excerpt.isLong⟩

/-- The notice line by line. -/
def lines (n : Notice) : List String :=
  let title := n.level.word ++ ": " ++ n.title
  match n.excerpts with
  | [] => [title]
  | first :: more =>
    title :: (first.rows n.grid "-->" ++ more.flatMap (·.rows n.grid ":::")).map Row.text

end Notice

end Scorebook
