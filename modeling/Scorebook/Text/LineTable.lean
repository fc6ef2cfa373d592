import Scorebook.Text

/-!
# Lines and columns

Problems are reported by line and column, both counted from one and in bytes. A database may be
very long and its problems few, so a `LineTable` counts line feeds only as far as it has been asked:
it keeps their number before every page boundary up to the furthest offset queried, and counts the
rest of one page on each query. Within a page the feeds are counted in blocks short enough for a
signed byte to hold the count.

Columns are numbers of 32 bits. An offset too far into its line for that is given the last column;
one distance, the largest that 32 bits hold, is taken as it is and leaves no room for counting from
one.

A table describes one buffer. Buffers carry a key that tells them apart, and a query against
another buffer starts the table afresh.
-/

namespace Scorebook

/-- A text with the key that tells it from every other text of one run. -/
structure Buffer where
  key : Nat
  text : Text

/-- A position as people count it. -/
structure Place where
  line : Nat
  column : UInt32
deriving DecidableEq, Repr, Hashable

/-- The number of line feeds before each page boundary of one buffer, as far as it was needed. -/
structure LineTable where
  key : Option Nat
  counts : Array Nat

namespace LineTable

/-- A table that knows nothing yet. -/
def empty : LineTable := ⟨none, #[]⟩

/-! ## Counting line feeds -/

/-- The distance between two entries of the table. -/
def pageSize : Nat := 256

/-- The most bytes whose line feeds a signed byte can count downwards. -/
def blockSize : Nat := 128

/-- Minus the number of line feeds in `[pos, stop)`, in one signed byte. -/
def blockCount (t : Text) (stop : Nat) (pos : Nat) (acc : Int8) : Int8 :=
  if pos < stop then
    blockCount t stop (pos + 1) (if t[pos]?.any (· == Byte.newline) then acc - 1 else acc)
  else acc
termination_by stop - pos

/-- The number of line feeds in `[pos, stop)`, block by block. -/
def feedCount (t : Text) (stop : Nat) (pos : Nat) (acc : Nat) : Nat :=
  if pos < stop then
    feedCount t stop (pos + blockSize)
      (acc + (-(blockCount t (min (pos + blockSize) stop) pos 0)).toUInt8.toNat)
  else acc
termination_by stop - pos
decreasing_by simp only [blockSize]; omega

/-! ## Queries -/

/-- Fills the table up to the page `want`. -/
def fill (t : Text) (want : Nat) (counts : Array Nat) : Array Nat :=
  if counts.size ≤ want then
    let page := counts.size - 1
    fill t want (counts.push
      (counts.back?.getD 0 + feedCount t ((page + 1) * pageSize) (page * pageSize) 0))
  else counts
termination_by want + 1 - counts.size
decreasing_by simp only [Array.size_push]; omega

/-- The table of `buffer`, filled up to the page that holds `offset`. -/
def extend (table : LineTable) (buffer : Buffer) (offset : Nat) : LineTable :=
  let counts :=
    if table.key = some buffer.key ∧ table.counts.size ≠ 0 then table.counts else #[0]
  ⟨some buffer.key, fill buffer.text (offset / pageSize) counts⟩

/-- The largest distance from the start of a line that its column can still express. -/
def lastOffset : Nat := 0xfffffffe

/-- The distance a column is formed from: one that does not fit 32 bits gives way to
`lastOffset`. -/
def clip (distance : Nat) : Nat :=
  if distance < UInt32.size then distance else lastOffset

/-- The column of an offset this far into its line, in 32 bits. -/
def column (distance : Nat) : UInt32 :=
  UInt32.ofNat (clip distance) + 1

/-- The line and column of an offset of the buffer, and the table that now knows more. -/
def locate (table : LineTable) (buffer : Buffer) (offset : Nat) : Place × LineTable :=
  let table := table.extend buffer offset
  let page := offset / pageSize
  let line := table.counts[page]?.getD 0 + feedCount buffer.text offset (page * pageSize) 0
  (⟨line + 1, column (offset - buffer.text.lineStart offset)⟩, table)

/-- As `locate`, but an offset past the end of the buffer has no place, and neither has one whose
column wraps around: columns are counted from one. -/
def locate? (table : LineTable) (buffer : Buffer) (offset : Nat) : Option (Place × LineTable) :=
  if offset ≤ buffer.text.size then
    let (place, table) := table.locate buffer offset
    if place.column = 0 then none else some (place, table)
  else none

end LineTable

end Scorebook
