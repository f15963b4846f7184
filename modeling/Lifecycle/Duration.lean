/-!
# Lengths of time

A duration is a whole number of nanoseconds. Timers tick in milliseconds, so a
duration reaches a clock only through `ceilMillis`: a timer never fires early,
and it fires at the first tick that is not too early.

The text of a duration picks the largest unit that leaves a whole part, and
writes the remainder as a decimal fraction without trailing zeros.
-/

namespace Lifecycle

structure Duration where
  nanos : Nat
  deriving DecidableEq

namespace Duration

instance : LT Duration := ⟨fun a b => a.nanos < b.nanos⟩

instance : LE Duration := ⟨fun a b => a.nanos ≤ b.nanos⟩

instance (a b : Duration) : Decidable (a < b) := inferInstanceAs (Decidable (a.nanos < b.nanos))

instance (a b : Duration) : Decidable (a ≤ b) := inferInstanceAs (Decidable (a.nanos ≤ b.nanos))

def zero : Duration := ⟨0⟩

def nanosPerMilli : Nat := 1000000

def nanosPerSec : Nat := 1000000000

def ofMillis (n : Nat) : Duration := ⟨n * nanosPerMilli⟩

def ofSecs (n : Nat) : Duration := ⟨n * nanosPerSec⟩

theorem nanos_ofMillis (n : Nat) : (ofMillis n).nanos = n * 1000000 := by
  rw [ofMillis, nanosPerMilli]

theorem nanos_ofSecs (n : Nat) : (ofSecs n).nanos = n * 1000000000 := by
  rw [ofSecs, nanosPerSec]

/-- A duration given as whole seconds and the nanoseconds beyond them. -/
def ofParts (secs nanos : Nat) : Duration := ⟨secs * nanosPerSec + nanos⟩

def secs (d : Duration) : Nat := d.nanos / nanosPerSec

/-- What a duration has beyond its whole seconds. -/
def subsecNanos (d : Duration) : Nat := d.nanos % nanosPerSec

/-- The number of millisecond ticks that cover a duration. -/
def ceilMillis (d : Duration) : Nat := (d.nanos + (nanosPerMilli - 1)) / nanosPerMilli

theorem le_ofMillis_ceilMillis (d : Duration) : d ≤ ofMillis d.ceilMillis := by
  show d.nanos ≤ (ofMillis d.ceilMillis).nanos
  simp only [nanos_ofMillis, ceilMillis, nanosPerMilli]
  omega

/-- A duration is longer than any number of ticks that does not cover it. -/
theorem ofMillis_lt {d : Duration} {n : Nat} (h : n < d.ceilMillis) : ofMillis n < d := by
  show (ofMillis n).nanos < d.nanos
  simp only [nanos_ofMillis, ceilMillis, nanosPerMilli] at h ⊢
  omega

@[simp] theorem ceilMillis_ofMillis (n : Nat) : (ofMillis n).ceilMillis = n := by
  simp only [ceilMillis, ofMillis, nanosPerMilli]
  omega

/-- Only the empty duration is over in no tick at all. -/
theorem ceilMillis_pos {d : Duration} (h : zero < d) : 0 < d.ceilMillis := by
  have : 0 < d.nanos := h
  simp only [ceilMillis, nanosPerMilli]
  omega

theorem ceilMillis_mono {a b : Duration} (h : a ≤ b) : a.ceilMillis ≤ b.ceilMillis := by
  have : a.nanos ≤ b.nanos := h
  simp only [ceilMillis, nanosPerMilli]
  omega

/-! ## The text of a duration -/

/-- `n` in decimal, filled up with leading zeros to `width` digits. -/
def paddedDigits (width n : Nat) : List Char :=
  let digits := Nat.toDigits 10 n
  List.replicate (width - digits.length) '0' ++ digits

/-- A list of digits without the zeros at its end. -/
def trimZeros (digits : List Char) : List Char :=
  (digits.reverse.dropWhile (· = '0')).reverse

/-- The decimal fraction `n / 10 ^ width`, point included; nothing when it is zero. -/
def fractionText (width n : Nat) : String :=
  match trimZeros (paddedDigits width n) with
  | [] => ""
  | digits => String.ofList ('.' :: digits)

/-- A whole part and a fraction of `width` digits, in front of their unit. -/
def inUnit (whole width rest : Nat) (unit : String) : String :=
  toString whole ++ fractionText width rest ++ unit

/-- The largest unit that leaves a whole part, with the rest as a fraction of it. -/
def text (d : Duration) : String :=
  if nanosPerSec ≤ d.nanos then inUnit d.secs 9 d.subsecNanos "s"
  else if nanosPerMilli ≤ d.nanos then
    inUnit (d.nanos / nanosPerMilli) 6 (d.nanos % nanosPerMilli) "ms"
  else if 1000 ≤ d.nanos then inUnit (d.nanos / 1000) 3 (d.nanos % 1000) "µs"
  else inUnit d.nanos 0 0 "ns"

end Duration

end Lifecycle
