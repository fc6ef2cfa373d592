import Scorebook.Text

/-!
# A quick checksum

The catalogue remembers a checksum of every header, so that a file which changed behind its back is
noticed before a game is read from the wrong place. The checksum is FNV-1a on 64-bit words: each
byte is folded into the low end of the word, which is then multiplied by an odd constant, so a
single changed byte always changes the result.
-/

namespace Scorebook.Checksum

/-- The word every checksum starts from. -/
def basis : UInt64 := 0xcbf29ce484222325

/-- The odd multiplier that spreads each byte over the word. -/
def factor : UInt64 := 0x100000001b3

/-- Folds one byte into the word. -/
def absorb (word : UInt64) (b : UInt8) : UInt64 :=
  (word ^^^ b.toUInt64) * factor

/-- The checksum of a byte string. -/
def ofBytes (bytes : List UInt8) : UInt64 :=
  bytes.foldl absorb basis

end Scorebook.Checksum

namespace Scorebook.Text

/-- The checksum of a range of the text. -/
def checksum (t : Text) (s : Span) : UInt64 :=
  Checksum.ofBytes (t.word s)

end Scorebook.Text
