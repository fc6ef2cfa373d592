/-!
# The part of long lines that is shown

A terminal has room for so many columns, and lines of a database can be much longer, or start far
to the right. A `Window` is the stretch of columns that is shown of every line of an excerpt. A
deep indentation is cut off in front. If the lines are still too long, the window is laid around
the marks and their labels, as much of both as there is room for.

A line that is cut shows `...` in place of its first or last three columns, so the window keeps some
columns free on either side of what it has to show.
-/

namespace Scorebook

/-- What a window has to be laid around, in columns. -/
structure Extent where
  /-- The blanks in front of the line with the fewest, or nothing if all lines are blank. -/
  indent : Option Nat
  /-- The column of the first mark. -/
  first : Nat
  /-- The column behind the last mark. -/
  last : Nat
  /-- The column behind the label of the last mark. -/
  labelEnd : Nat
  /-- The length of the longest line. -/
  longest : Nat
  /-- The columns there are. -/
  room : Nat
deriving DecidableEq, Repr

/-- The columns that are shown of each line. -/
inductive Window
  /-- There is nothing but blanks, and none of them is shown. -/
  | blank
  /-- From `start` to `stop`. If the window ends right behind the marks or their labels, `spare`
  columns of it are there to be replaced. -/
  | columns (start stop room spare : Nat)
deriving DecidableEq, Repr

namespace Window

/-- The columns kept free on either side. -/
def padding : Nat := 6

/-- An indentation longer than this is cut. -/
def deepIndent : Nat := 20

/-- The columns of a deep indentation that stay, on top of the padding. -/
def keptIndent : Nat := 16

/-- Where a window starts and stops that cannot show all of the lines, for an extent with its
padding around it. -/
def fit (indent first last labelEnd room : Nat) : Nat × Nat :=
  if labelEnd - indent ≤ room then (indent, indent + room)
  else if labelEnd - first ≤ room then
    let start := first - (room - (labelEnd - first)) / 2
    (start, start + room)
  else if last - first ≤ room then
    let start := first - (room - (last - first)) / 5 * 2
    (start, start + room)
  else (first, last)

/-- The window for an extent. -/
def ofExtent (e : Extent) : Window :=
  match e.indent with
  | none => blank
  | some indent =>
    let indent := indent - padding
    let first := e.first - padding
    let last := e.last + padding
    let labelEnd := e.labelEnd + padding
    let start := if indent > deepIndent then indent - keptIndent else 0
    let stop := max e.longest start
    let (start, stop) :=
      if stop - start ≤ e.room then (start, stop) else fit indent first last labelEnd e.room
    columns start stop e.room (if stop = last ∨ stop = labelEnd then padding else 0)

/-- The first column shown of a line of this length. -/
def left (w : Window) (length : Nat) : Nat :=
  match w with
  | blank => length
  | columns start .. => min start length

/-- The column behind the last one shown of a line of this length. -/
def right (w : Window) (length : Nat) : Nat :=
  match w with
  | blank => length
  | columns start stop room _ => if length - start ≤ room then length else min length stop

/-- Is something missing in front? -/
def cutsFront (w : Window) : Bool :=
  match w with
  | blank => true
  | columns start .. => 0 < start

/-- Is something missing at the end of a line of this length? -/
def cutsBack (w : Window) (length : Nat) : Bool :=
  match w with
  | blank => false
  | columns start stop room spare => stop - spare < length && start + room < length

end Window

end Scorebook
