/-!
# Blank characters

The twenty-five characters of the property White_Space, and a text without the
blanks at its two ends.
-/

namespace Lifecycle.Text

/-- The code points of the property White_Space, as closed ranges. -/
def blankRanges : List (Nat × Nat) :=
  [(0x9, 0xd), (0x20, 0x20), (0x85, 0x85), (0xa0, 0xa0), (0x1680, 0x1680), (0x2000, 0x200a),
    (0x2028, 0x2029), (0x202f, 0x202f), (0x205f, 0x205f), (0x3000, 0x3000)]

def isBlank (c : Char) : Bool :=
  blankRanges.any fun r => r.1 ≤ c.toNat && c.toNat ≤ r.2

/-- A text without the blanks in front of it and behind it. -/
def trim (s : List Char) : List Char :=
  ((s.dropWhile isBlank).reverse.dropWhile isBlank).reverse

/-- A text that neither starts nor ends with a blank is left alone. -/
theorem trim_eq_self {s : List Char} (hs : ∀ c ∈ s.head?, ¬ isBlank c)
    (he : ∀ c ∈ s.getLast?, ¬ isBlank c) : trim s = s := by
  have dropWhile_eq_self : ∀ {t : List Char}, (∀ c ∈ t.head?, ¬ isBlank c) →
      t.dropWhile isBlank = t := by
    intro t ht
    cases t with
    | nil => rfl
    | cons c r => simp_all
  rw [trim, dropWhile_eq_self hs, dropWhile_eq_self (by simpa using he), List.reverse_reverse]

end Lifecycle.Text
