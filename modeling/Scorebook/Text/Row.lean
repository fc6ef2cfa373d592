/-!
# Rows written by column

A `Row` is one row of a drawing. Text is written into it at a column, over whatever stood there,
and what lies between the end of the row and the column becomes blank.
-/

namespace Scorebook

/-- The characters of a row, one for each column. -/
structure Row where
  cells : List Char

namespace Row

/-- A row with nothing in it. -/
def empty : Row := ⟨[]⟩

/-- Writes text from a column on. Writing nothing leaves the row as it is. -/
def put (r : Row) (column : Nat) (text : List Char) : Row :=
  if text.isEmpty then r
  else
    ⟨(r.cells.take column ++ List.replicate (column - r.cells.length) ' ') ++ text ++
      r.cells.drop (column + text.length)⟩

/-- Writes text behind all that is there. -/
def append (r : Row) (text : List Char) : Row :=
  ⟨r.cells ++ text⟩

/-- The row as it is printed. -/
def text (r : Row) : String :=
  String.ofList r.cells

end Row

end Scorebook
