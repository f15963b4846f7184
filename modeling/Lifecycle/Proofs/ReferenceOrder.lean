import Lifecycle.Store

/-!
# The order of references

`ResourceReference.order` compares five fields one after another. It is a
lexicographic product of orders that are known to be total, so all that has to
be said here is which product; transitivity and the rest come from the
instances of the library. What is used of it later is `sort_eq_of_perm`: a
sorted list of references does not depend on the order in which they were found.
-/

namespace Lifecycle.ResourceReference

open Std

theorem order_eq :
    order = compareLex (compareOn (·.group)) (compareLex (compareOn (·.version))
      (compareLex (compareOn (·.kind)) (compareLex (compareOn (·.name)) (compareOn (·.ns))))) := by
  funext a b
  obtain ⟨_, _, _, _, _ | _⟩ := a <;> obtain ⟨_, _, _, _, _ | _⟩ := b <;> rfl

instance : TransCmp order := by
  rw [order_eq]
  infer_instance

instance : LawfulEqCmp order where
  eq_of_compare {a b} h := by
    simp only [order_eq, compareLex_eq_eq, compareOn, Std.compare_eq_iff_eq] at h
    obtain ⟨hg, hv, hk, hn, hs⟩ := h
    cases a
    cases b
    simp_all

theorem isLE_antisymm {a b : ResourceReference} (h : (order a b).isLE) (h' : (order b a).isLE) :
    a = b := LawfulEqCmp.eq_of_compare (OrientedCmp.isLE_antisymm h h')

theorem pairwise_sort (rs : List ResourceReference) :
    (sort rs).Pairwise fun a b => (order a b).isLE :=
  List.pairwise_mergeSort (fun _ _ _ => TransCmp.isLE_trans)
    (fun a b => by
      rw [Bool.or_eq_true, ← OrientedCmp.isGE_iff_isLE (a := a) (b := b)]
      cases order a b <;> simp) rs

theorem sort_perm (rs : List ResourceReference) : (sort rs).Perm rs := List.mergeSort_perm rs _

/-- The order in which references were found does not show in a sorted list. -/
theorem sort_eq_of_perm {rs qs : List ResourceReference} (h : rs.Perm qs) : sort rs = sort qs :=
  List.Perm.eq_of_pairwise (fun _ _ _ _ => isLE_antisymm) (pairwise_sort rs) (pairwise_sort qs)
    ((sort_perm rs).trans (h.trans (sort_perm qs).symm))

end Lifecycle.ResourceReference
