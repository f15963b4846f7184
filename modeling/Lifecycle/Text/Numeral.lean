/-!
# Unsigned decimal numbers of a bounded size

A number is written as an optional plus sign and one or more ASCII digits, with
as many leading zeros as one likes. A number above the bound is not read at all.
-/

namespace Lifecycle.Text

/-- The value of a text of digits; nothing if another character occurs in it. -/
def digitsValue (s : List Char) : Option Nat :=
  s.foldl (fun n? c => n?.bind fun n => if c.isDigit then some (10 * n + (c.toNat - 48)) else none)
    (some 0)

/-- An optional plus sign, then at least one digit, of a value up to `bound`. -/
def unsigned? (bound : Nat) (s : List Char) : Option Nat :=
  let digits := match s with
    | '+' :: r => r
    | r => r
  if digits.isEmpty then none
  else (digitsValue digits).bind fun n => if n ≤ bound then some n else none

def maxWord : Nat := UInt64.size - 1

end Lifecycle.Text
