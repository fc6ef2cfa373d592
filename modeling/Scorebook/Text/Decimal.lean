import Scorebook.Byte

/-!
# Decimal numbers

Numbers in a score are plain strings of digits. Leading zeros are allowed, signs are not, and every
use has an upper bound past which the text is no number.
-/

namespace Scorebook.Decimal

/-- The value of a string of digits. -/
def value (digits : List UInt8) : Nat :=
  digits.foldl (fun n d => 10 * n + (d.toNat - Byte.zero.toNat)) 0

/-- The number below `bound` that these bytes write. -/
def parse? (bound : Nat) (digits : List UInt8) : Option Nat :=
  if digits ≠ [] ∧ digits.all Byte.isDigit ∧ value digits < bound then some (value digits)
  else none

end Scorebook.Decimal
