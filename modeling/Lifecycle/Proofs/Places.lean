/-!
# Lists that change at one place

Calls, attempts, activators and loops all stand in lists, each at its own place for good,
and nearly every operation changes what stands at one place. These are the facts about
such changes that need nothing of what the lists are of.
-/

namespace Lifecycle

section Places

variable {α β : Type} {l : List α} {i : Nat} {x : α} {f : α → α}

theorem modify_eq_self (h : l[i]? = some x) (hf : f x = x) : l.modify i f = l := by
  refine List.ext_getElem? fun j => ?_
  rw [List.getElem?_modify]
  by_cases hij : i = j
  · subst hij
    simp [h, hf]
  · simp [hij]

theorem set_eq_self (h : l[i]? = some x) : l.set i x = l := by
  obtain ⟨hi, rfl⟩ := List.getElem?_eq_some_iff.1 h
  exact List.set_getElem_self hi

/-- Changes that may change places do so wherever they are made. -/
theorem modify_comm {g : α → α} (h : ∀ x, f (g x) = g (f x)) (l : List α) (i j : Nat) :
    (l.modify i f).modify j g = (l.modify j g).modify i f := by
  by_cases hij : i = j
  · subst hij
    rw [List.modify_modify_eq, List.modify_modify_eq]
    exact congrArg (l.modify i) (funext fun x => (h x).symm)
  · exact List.modify_modify_ne f g l hij

theorem modify_concat (l : List α) (x : α) (f : α → α) :
    (l ++ [x]).modify l.length f = l ++ [f x] := by
  induction l with
  | nil => rfl
  | cons y l ih => exact congrArg (y :: ·) ih

theorem forall_mem_modify {P : α → Prop} (h : ∀ x ∈ l, P x)
    (hf : ∀ x, l[i]? = some x → P (f x)) : ∀ y ∈ l.modify i f, P y := by
  intro y hy
  obtain ⟨j, hj⟩ := List.mem_iff_getElem?.1 hy
  rw [List.getElem?_modify] at hj
  obtain ⟨x, hx, rfl⟩ := Option.map_eq_some_iff.1 hj
  split
  · next hij => exact hf x (hij ▸ hx)
  · exact h x (List.mem_of_getElem? hx)

theorem map_modify {g : α → β} {e : β → β} (h : ∀ x, g (f x) = e (g x)) (l : List α) (i : Nat) :
    (l.modify i f).map g = (l.map g).modify i e := by
  refine List.ext_getElem? fun j => ?_
  simp only [List.getElem?_map, List.getElem?_modify]
  cases l[j]? with
  | none => rfl
  | some x => by_cases hij : i = j <;> simp [hij, h]

/-- Where a change does not show, the list does not change. -/
theorem map_modify_of_same {g : α → β} (h : ∀ x, g (f x) = g x) (l : List α) (i : Nat) :
    (l.modify i f).map g = l.map g := by
  rw [map_modify (e := id) h, List.modify_id]

end Places

end Lifecycle
