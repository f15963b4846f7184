import Lifecycle.Proofs.Loops
import Lifecycle.Proofs.Standing

/-!
# Whose names are whose

The registry is shared, and a name is all that it knows of a loop. Two things
that the engine promises depend on the users' keeping their names apart: one
name for one reference of one activator, and none of these for a loop of an
outsider. `Trace.Apart` says so of everything that happened. It is a statement
about a trace, so it can be evaluated, and what holds of a run holds of all that
went before.
-/

namespace Lifecycle

variable {C T : Type}

/-- The names of the loops that outsiders started. -/
def Trace.foreign (t : Trace C T) : List String :=
  ((Trace.starts t).filter (·.2.isNone)).map Prod.fst

section Apart

variable [Targeted T]

/-- The name that an entry gives to a controller, with the activator and the
reference that the controller is for. -/
def Entry.naming? (e : Entry C T) : Option ((Nat × ResourceReference) × String) :=
  match e.scope, e.what with
  | some x, .created c t _ => some ((x.activator, reference t), c)
  | _, _ => none

def Trace.namings (t : Trace C T) : List ((Nat × ResourceReference) × String) :=
  t.filterMap Entry.naming?

/-- Controllers of different references, or of different activators, have
different names, and outsiders use none of these names. -/
structure Trace.Apart (t : Trace C T) : Prop where
  units : ∀ p ∈ Trace.namings t, ∀ q ∈ Trace.namings t, p.2 = q.2 → p.1 = q.1
  foreign : ∀ p ∈ Trace.namings t, p.2 ∉ Trace.foreign t

theorem mem_namings {t : Trace C T} {k i : Nat} {r : ResourceReference} {n : String}
    (h : (i, .created n) ∈ Trace.acts t k r) : ((k, r), n) ∈ Trace.namings t := by
  obtain ⟨e, he, hact⟩ := List.mem_filterMap.1 h
  refine List.mem_filterMap.2 ⟨e, List.mem_reverse.1 he, ?_⟩
  unfold Entry.act? at hact
  split at hact
  · next x q a hx ha =>
      split at hact
      · next hkq =>
          cases hact
          obtain ⟨rfl, rfl⟩ := hkq
          unfold Happening.act? at ha
          split at ha <;> cases ha
          next hw => simp [Entry.naming?, hx, hw]
      · cases hact
  · cases hact

theorem Trace.Apart.unit_eq {t : Trace C T} (ht : Trace.Apart t) {k k' i i' : Nat}
    {r r' : ResourceReference} {n : String} (h : (i, .created n) ∈ Trace.acts t k r)
    (h' : (i', .created n) ∈ Trace.acts t k' r') : k = k' ∧ r = r' :=
  Prod.mk.inj (ht.units _ (mem_namings h) _ (mem_namings h') rfl)

theorem Trace.Apart.not_mem_foreign {t : Trace C T} (ht : Trace.Apart t) {k i : Nat}
    {r : ResourceReference} {n : String} (h : (i, .created n) ∈ Trace.acts t k r) :
    n ∉ Trace.foreign t := ht.foreign _ (mem_namings h)

end Apart

section Suffix

variable {t t' : Trace C T} (h : t <:+ t')

include h

theorem foreign_subset : Trace.foreign t ⊆ Trace.foreign t' := by
  obtain ⟨new, rfl⟩ := h
  rw [Trace.foreign, Trace.foreign, starts_append, List.filter_append, List.map_append]
  exact List.subset_append_left ..

variable [Targeted T]

theorem acts_subset {k : Nat} {r : ResourceReference} :
    Trace.acts t k r ⊆ Trace.acts t' k r := by
  obtain ⟨new, rfl⟩ := h
  rw [Trace.acts_append]
  exact List.subset_append_left ..

theorem Trace.Apart.of_suffix (ht : Trace.Apart t') : Trace.Apart t := by
  have hsub : Trace.namings t ⊆ Trace.namings t' := (h.sublist.filterMap _).subset
  exact ⟨fun p hp q hq => ht.units p (hsub hp) q (hsub hq),
    fun p hp hf => ht.foreign p (hsub hp) (foreign_subset h hf)⟩

end Suffix

end Lifecycle
