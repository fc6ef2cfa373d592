/-!
# Text in columns

How characters are laid out in the columns of a terminal: a control character takes no column and
any other character one. The module also measures text in the bytes of its UTF-8 form, in which
ranges of a source are given.
-/

namespace Scorebook.Columns

/-- The control characters of ASCII and of the block behind it. -/
def isControl (c : Char) : Bool :=
  c.toNat < 0x20 || (0x7f ≤ c.toNat && c.toNat ≤ 0x9f)

/-- The characters that count as white space. -/
def isWhiteSpace (c : Char) : Bool :=
  let code := c.toNat
  (0x09 ≤ code && code ≤ 0x0d) || code == 0x20 || code == 0x85 || code == 0xa0 || code == 0x1680 ||
    (0x2000 ≤ code && code ≤ 0x200a) || code == 0x2028 || code == 0x2029 || code == 0x202f ||
    code == 0x205f || code == 0x3000

/-- The columns that a stretch of characters takes. -/
def width (cs : List Char) : Nat :=
  cs.countP (!isControl ·)

/-- The bytes that a stretch of characters takes. -/
def byteLength (cs : List Char) : Nat :=
  cs.foldl (fun n c => n + c.utf8Size) 0

/-- How many characters lie completely in front of a byte offset, on top of those counted. -/
def countBefore (offset count : Nat) : List Char → Nat
  | [] => count
  | c :: rest =>
    if c.utf8Size ≤ offset then countBefore (offset - c.utf8Size) (count + 1) rest else count

/-- The characters that lie completely in front of a byte offset. -/
def before (offset : Nat) (cs : List Char) : List Char :=
  cs.take (countBefore offset 0 cs)

/-- The character as it is shown. What joins characters or turns the direction of writing is left
out. -/
def shown (c : Char) : List Char :=
  let code := c.toNat
  if c == '\t' then List.replicate 4 ' '
  else if code == 0x200d || (0x202a ≤ code && code ≤ 0x202e) || (0x2066 ≤ code && code ≤ 0x2069)
  then []
  else [c]

end Scorebook.Columns
