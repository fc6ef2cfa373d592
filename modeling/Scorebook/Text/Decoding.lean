import Scorebook.Text

/-!
# From bytes to strings

A database declares no encoding. A stretch of it is read as UTF-8 if it is UTF-8 as a whole, and
otherwise byte by byte as ISO-8859-1, in which every byte is a character; so decoding never fails.
Values and comments are trimmed of the format's own blanks before they are decoded.
-/

namespace Scorebook

/-- Every byte as the character of that code. -/
def latin1 (bytes : List UInt8) : List Char :=
  bytes.map Char.ofUInt8

/-- UTF-8 where the whole byte string is valid, ISO-8859-1 elsewhere. -/
def decode (bytes : ByteArray) : String :=
  (String.fromUTF8? bytes).getD (String.ofList (latin1 bytes.data.toList))

namespace Text

/-- Moves the end of a range back over blanks, but not past `start`. -/
def trimEnd (t : Text) (start : Nat) : Nat → Nat
  | 0 => 0
  | stop + 1 =>
    if start ≤ stop && t[stop]?.any Byte.isBlank then t.trimEnd start stop else stop + 1

/-- The range without the blanks at its two ends. -/
def trimmed (t : Text) (s : Span) : Span :=
  let start := (t.upTo s.stop).seek (!Byte.isBlank ·) s.start
  ⟨start, t.trimEnd start s.stop⟩

/-- The decoded text of a range. -/
def read (t : Text) (s : Span) : String :=
  decode (t.slice s)

/-- The decoded text of a range, less the blanks at its ends. -/
def readTrimmed (t : Text) (s : Span) : String :=
  t.read (t.trimmed s)

end Text

end Scorebook
