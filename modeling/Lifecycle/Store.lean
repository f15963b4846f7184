import Lifecycle.Reference

/-!
# The controllers of an activator

An activator keeps the controller of every target it ever activated. A target
that is no longer wanted stays in the store as inactive, so that a later call can
bring its controller back. No reference occurs twice.
-/

namespace Lifecycle

structure Holding where
  reference : ResourceReference
  controller : String
  active : Bool
  deriving DecidableEq

/-- The controllers of an activator, in the order in which they were installed. -/
abbrev Store := List Holding

namespace Store

def get? (s : Store) (r : ResourceReference) : Option Holding := s.find? fun h => h.reference = r

def adjust (s : Store) (r : ResourceReference) (f : Holding → Holding) : Store :=
  s.map fun h => if h.reference = r then f h else h

/-- Puts a controller under a reference, active, in place of one that is there. -/
def install (s : Store) (r : ResourceReference) (controller : String) : Store :=
  if (s.get? r).isSome then s.adjust r fun _ => ⟨r, controller, true⟩
  else s ++ [⟨r, controller, true⟩]

def activate (s : Store) (r : ResourceReference) : Store :=
  s.adjust r fun h => { h with active := true }

/-- The active holdings that are not wanted. -/
def stale (s : Store) (wanted : List ResourceReference) : List Holding :=
  s.filter fun h => h.active && decide (h.reference ∉ wanted)

/-- Makes every holding inactive that is not wanted. -/
def retire (s : Store) (wanted : List ResourceReference) : Store :=
  s.map fun h => if h.reference ∈ wanted then h else { h with active := false }

/-- The references of the active holdings, in ascending order. -/
def activeReferences (s : Store) : List ResourceReference :=
  ResourceReference.sort ((s.filter (·.active)).map (·.reference))

/-! ## Looking up after a change -/

theorem reference_of_get? {s : Store} {r : ResourceReference} {h : Holding}
    (hg : s.get? r = some h) : h.reference = r := by
  simpa using List.find?_some hg

/-- A change that keeps its reference shows where that reference is looked up, and nowhere else. -/
theorem get?_adjust {r : ResourceReference} {f : Holding → Holding}
    (hf : ∀ h, h.reference = r → (f h).reference = r) (s : Store) (q : ResourceReference) :
    (s.adjust r f).get? q = (s.get? q).map fun h => if q = r then f h else h := by
  induction s with
  | nil => rfl
  | cons h s ih =>
    have hkey : (if h.reference = r then f h else h).reference = h.reference := by
      split
      · next hr => rw [hf h hr, hr]
      · rfl
    by_cases hq : h.reference = q
    · subst hq
      simp [adjust, get?, hkey]
    · simpa [adjust, get?, hkey, hq] using ih

theorem get?_activate (s : Store) (r q : ResourceReference) :
    (s.activate r).get? q = (s.get? q).map fun h => if q = r then { h with active := true } else h :=
  get?_adjust (f := fun h => { h with active := true }) (fun _ h => h) s q

/-- Whatever was there, an installed controller is found, active, under its reference. -/
theorem get?_install (s : Store) (r : ResourceReference) (c : String) (q : ResourceReference) :
    (s.install r c).get? q = if q = r then some ⟨r, c, true⟩ else s.get? q := by
  unfold install
  split
  · next hs =>
    rw [get?_adjust (r := r) (f := fun _ => ⟨r, c, true⟩) (fun _ _ => rfl)]
    split
    · next hq =>
      subst hq
      obtain ⟨h, hg⟩ := Option.isSome_iff_exists.1 hs
      simp [hg]
    · simp
  · next hs =>
    have hn : s.get? r = none := by simpa using hs
    rw [get?, List.find?_append, ← get?, List.find?_singleton]
    by_cases hq : q = r
    · subst hq
      simp [hn]
    · simp [hq, Ne.symm hq]

theorem get?_retire (s : Store) (wanted : List ResourceReference) (q : ResourceReference) :
    (s.retire wanted).get? q =
      (s.get? q).map fun h => if q ∈ wanted then h else { h with active := false } := by
  induction s with
  | nil => rfl
  | cons h s ih =>
    have hkey : (if h.reference ∈ wanted then h else { h with active := false }).reference =
        h.reference := by
      split <;> rfl
    by_cases hq : h.reference = q
    · subst hq
      simp [retire, get?, hkey]
    · simpa [retire, get?, hkey, hq] using ih

/-- The active references are those of the active holdings. -/
theorem mem_activeReferences {s : Store} {r : ResourceReference} :
    r ∈ s.activeReferences ↔ ∃ h ∈ s, h.active ∧ h.reference = r := by
  simp [activeReferences, ResourceReference.sort, List.mem_mergeSort, and_assoc]

end Store

end Lifecycle
