/-!
# Binary floating-point numbers

A finite number of the sixty-four bit format is `± m * 2 ^ e` with `m` below
`2 ^ 53`. Everything here is exact arithmetic on natural numbers: rounding a
quotient to the nearest number of the format, with ties to an even `m`, and the
shortest decimal that lies nearer to a number than to any of its neighbours.
-/

namespace Lifecycle

/-- A finite number `± mantissa * 2 ^ exponent`. -/
structure Binary64 where
  negative : Bool
  mantissa : Nat
  exponent : Int
  deriving DecidableEq

namespace Binary64

/-- The exponent of the smallest positive number of the format. -/
def minExponent : Int := -1074

/-- The largest exponent of a mantissa of fifty-three bits. -/
def maxExponent : Int := 971

/-- `num / den` rounded to a whole number, a half to the even neighbour. -/
def roundHalfEven (num den : Nat) : Nat :=
  let q := num / den
  let twice := 2 * (num % den)
  if twice < den then q
  else if den < twice then q + 1
  else if q % 2 = 0 then q else q + 1

/-- `num / den / 2 ^ e` as a quotient. -/
def scaled (num den : Nat) (e : Int) : Nat × Nat :=
  if 0 ≤ e then (num, den <<< e.toNat) else (num <<< (-e).toNat, den)

/--
The number nearest to `num / den`, as a mantissa and an exponent; nothing when it is too large
for the format.
-/
def nearest (num den : Nat) : Option (Nat × Int) :=
  if num = 0 then some (0, minExponent)
  else
    -- The quotient lies between `2 ^ (guess - 1)` and `2 ^ (guess + 1)`.
    let guess : Int := (Nat.log2 num : Int) - Nat.log2 den
    let fits (e : Int) : Bool :=
      let (n, d) := scaled num den e
      n / d < 1 <<< 53
    let e := if fits (guess - 53) then guess - 53 else guess - 52
    let e := max e minExponent
    let (n, d) := scaled num den e
    let m := roundHalfEven n d
    let (m, e) := if m = 1 <<< 53 then (1 <<< 52, e + 1) else (m, e)
    if maxExponent < e then none else some (m, e)

/-- `a * 2 ^ i` times or over `b * 2 ^ j`, rounded. -/
def scaleBy (up : Bool) (x y : Nat × Int) : Option (Nat × Int) :=
  let e := if up then x.2 + y.2 else x.2 - y.2
  let num := if up then x.1 * y.1 else x.1
  let den := if up then 1 else y.1
  if 0 ≤ e then nearest (num <<< e.toNat) den else nearest num (den <<< (-e).toNat)

/-- The largest power of ten that one step of `ofDecimal` multiplies or divides by. -/
def largestPower : Nat := 308

/--
A significand with a power of ten: the significand is rounded, then the power of ten, then their
product or quotient. A number that is too large is refused, one that is too small is zero.
-/
def ofDecimal (negative : Bool) (significand : Nat) (exponent : Int) : Option Binary64 := do
  let s ← nearest significand 1
  let power (k : Nat) := (nearest (Nat.pow 10 k) 1).getD (1, 0)
  let r ←
    if 0 ≤ exponent then
      if exponent ≤ largestPower then scaleBy true s (power exponent.toNat)
      else if s.1 = 0 then some s else none
    else
      let down := (-exponent).toNat
      if down ≤ largestPower then scaleBy false s (power down)
      else
        let first ← scaleBy false s (power largestPower)
        if down ≤ 2 * largestPower then scaleBy false first (power (down - largestPower))
        else some (0, minExponent)
  return ⟨negative, r.1, r.2⟩

/-! ## The shortest decimal -/

/-- Whether `d * 10 ^ k` is below, at or above `n * 2 ^ e`. -/
def compareDecimal (d : Nat) (k : Int) (n : Nat) (e : Int) : Ordering :=
  let left := (d * Nat.pow 10 k.toNat) <<< (-e).toNat
  let right := (n * Nat.pow 10 (-k).toNat) <<< e.toNat
  compare left right

/-- The integer part of `n * 2 ^ e / 10 ^ k`. -/
def floorDecimal (n : Nat) (e : Int) (k : Int) : Nat :=
  ((n * Nat.pow 10 (-k).toNat) <<< e.toNat) / (Nat.pow 10 k.toNat <<< (-e).toNat)

/-- The least power of ten above `m * 2 ^ e`, found upwards from `k`. -/
def decimalLength (m : Nat) (e : Int) : Nat → Int → Int
  | 0, k => k
  | fuel + 1, k => if compareDecimal 1 k m e = .gt then k else decimalLength m e fuel (k + 1)

/-- The decimals that round to `m * 2 ^ e`, as bounds in quarters of the last place. -/
def bounds (m : Nat) (e : Int) : Nat × Nat :=
  (if m = 1 <<< 52 ∧ minExponent < e then 4 * m - 1 else 4 * m - 2, 4 * m + 2)

/-- Whether `d * 10 ^ k` rounds to `m * 2 ^ e`. -/
def readsBack (m : Nat) (e : Int) (d : Nat) (k : Int) : Bool :=
  let (lo, hi) := bounds m e
  let low := compareDecimal d k lo (e - 2)
  let high := compareDecimal d k hi (e - 2)
  if m % 2 = 0 then low.isGE && high.isLE else low.isGT && high.isLT

/-- The point of the grid `10 ^ k` nearest to `m * 2 ^ e`, if one of it rounds to that number. -/
def gridPoint? (m : Nat) (e : Int) (k : Int) : Option Nat :=
  let below := floorDecimal m e k
  let above := below + 1
  match readsBack m e below k, readsBack m e above k with
  | true, false => some below
  | false, true => some above
  | false, false => none
  | true, true =>
    -- Twice the number against the sum of its two neighbours.
    match compareDecimal (below + above) k (2 * m) e with
    | .gt => some below
    | .lt => some above
    | .eq => if below % 2 = 0 then some below else some above

/-- The digits and the power of ten of the shortest decimal of a positive number. -/
def shortest (m : Nat) (e : Int) : Nat × Int :=
  let top := decimalLength m e 700 (-324)
  let grids := (List.range 18).map fun (i : Nat) => top - ((i : Int) + 1)
  (grids.findSome? fun k => (gridPoint? m e k).map (·, k)).getD (m, 0)

/-- A decimal without zeros at the end of its digits. -/
def dropZeros : Nat → Nat → Int → Nat × Int
  | 0, d, k => (d, k)
  | fuel + 1, d, k => if d % 10 = 0 ∧ d ≠ 0 then dropZeros fuel (d / 10) (k + 1) else (d, k)

/-- Where the text of a number stops being positional. -/
structure Form where
  /-- The longest integer part that is written out. -/
  maxWhole : Int
  /-- The most zeros that are written out after the point. -/
  maxLeading : Int
  /-- What stands before the digits of an exponent that is not negative. -/
  exponentMark : List Char

/--
Sixteen places before the point and four zeros after it; beyond them an exponent is used, which
always has a sign.
-/
def Form.standard : Form := ⟨16, 4, ['+']⟩

/-- The text of a number: its shortest digits, with a point or an exponent. -/
def text (x : Binary64) (n : Form) : String :=
  let sign := if x.negative then "-" else ""
  if x.mantissa = 0 then sign ++ "0.0"
  else
    let (d, k) := shortest x.mantissa x.exponent
    let (d, k) := dropZeros 20 d k
    let digits := Nat.toDigits 10 d
    let whole := digits.length + k
    let body : List Char :=
      if 0 ≤ k ∧ whole ≤ n.maxWhole then digits ++ List.replicate k.toNat '0' ++ ['.', '0']
      else if 0 < whole ∧ whole ≤ n.maxWhole then
        digits.take whole.toNat ++ ['.'] ++ digits.drop whole.toNat
      else if -(n.maxLeading + 1) < whole ∧ whole ≤ 0 then
        ['0', '.'] ++ List.replicate (-whole).toNat '0' ++ digits
      else
        let point := if digits.length = 1 then [] else ['.']
        let exponent := whole - 1
        let mark := if 0 ≤ exponent then n.exponentMark else []
        digits.take 1 ++ point ++ digits.drop 1 ++ ['e'] ++ mark ++ (toString exponent).toList
    sign ++ String.ofList body

end Binary64

end Lifecycle
