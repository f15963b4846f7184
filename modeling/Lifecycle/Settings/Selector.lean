/-!
# Selectors

A selector maps labels to values. It is kept in ascending order of its labels
with each label once, so that equal selectors are equal lists.
-/

namespace Lifecycle

structure Selector where
  pairs : List (String × String)
  ascending : pairs.Pairwise fun a b => a.1 < b.1 := by decide
  deriving DecidableEq

namespace Selector

def empty : Selector := ⟨[], .nil⟩

/-- Pairs in ascending order with one more pair, which replaces one of its label. -/
def insertPair (label value : String) : List (String × String) → List (String × String)
  | [] => [(label, value)]
  | (l, v) :: rest =>
    if label < l then (label, value) :: (l, v) :: rest
    else if l < label then (l, v) :: insertPair label value rest
    else (label, value) :: rest

theorem mem_insertPair {label value : String} {ps : List (String × String)} {p : String × String}
    (h : p ∈ insertPair label value ps) : p.1 = label ∨ p ∈ ps := by
  induction ps with
  | nil => simp_all [insertPair]
  | cons q ps ih =>
    rw [insertPair] at h
    split at h
    · rcases List.mem_cons.1 h with rfl | h
      · exact .inl rfl
      · exact .inr h
    · split at h
      · rcases List.mem_cons.1 h with rfl | h
        · exact .inr (by simp)
        · rcases ih h with h | h
          · exact .inl h
          · exact .inr (by simp [h])
      · rcases List.mem_cons.1 h with rfl | h
        · exact .inl rfl
        · exact .inr (by simp [h])

theorem pairwise_insertPair (label value : String) {ps : List (String × String)}
    (h : ps.Pairwise fun a b => a.1 < b.1) :
    (insertPair label value ps).Pairwise fun a b => a.1 < b.1 := by
  induction ps with
  | nil => simp [insertPair]
  | cons q ps ih =>
    obtain ⟨l, v⟩ := q
    rw [List.pairwise_cons] at h
    rw [insertPair]
    split
    · next hlt =>
      refine .cons (fun p hp => ?_) (.cons h.1 h.2)
      rcases List.mem_cons.1 hp with rfl | hp
      · exact hlt
      · exact String.lt_trans hlt (h.1 p hp)
    · split
      · next hlt =>
        refine .cons (fun p hp => ?_) (ih h.2)
        rcases mem_insertPair hp with hp | hp
        · rw [hp]
          exact hlt
        · exact h.1 p hp
      · next hle hge =>
        have hl : label = l := String.le_antisymm (String.not_lt.1 hge) (String.not_lt.1 hle)
        subst hl
        exact .cons h.1 h.2

def insert (s : Selector) (label value : String) : Selector :=
  ⟨insertPair label value s.pairs, pairwise_insertPair label value s.ascending⟩

/-- The selector of a list of pairs; of two pairs with one label the later one stays. -/
def ofList (ps : List (String × String)) : Selector :=
  ps.foldl (fun s p => s.insert p.1 p.2) empty

end Selector

end Lifecycle
