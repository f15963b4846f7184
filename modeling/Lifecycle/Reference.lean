/-!
# Resource references

A target is known by the group, version and kind of its schema, by its name and,
unless it belongs to the whole cluster, by its namespace. Two references are the
same target exactly when all five agree.

References are ordered field by field, in the order in which they are declared
and a cluster-wide one before any namespace; strings are compared by their
characters, which is also the order of their UTF-8 bytes.
-/

namespace Lifecycle

/-- A group of schemas and one of its versions; the core group has no name. -/
structure GroupVersion where
  group : String
  version : String
  deriving DecidableEq

namespace GroupVersion

def isCore (gv : GroupVersion) : Bool := gv.group = ""

/-- The version, after its group and a slash unless the group is the core group. -/
def apiVersion (gv : GroupVersion) : String :=
  if gv.isCore then gv.version else gv.group ++ "/" ++ gv.version

end GroupVersion

structure ResourceReference where
  group : String
  version : String
  kind : String
  name : String
  /-- The namespace; a target of the whole cluster has none. -/
  ns : Option String
  deriving DecidableEq

namespace ResourceReference

def groupVersion (r : ResourceReference) : GroupVersion := ⟨r.group, r.version⟩

def gvk (r : ResourceReference) : String :=
  r.groupVersion.apiVersion ++ ", Kind=" ++ r.kind

/-- The whole reference as it is written in messages. -/
def text (r : ResourceReference) : String :=
  match r.ns with
  | some ns => r.gvk ++ " " ++ ns ++ "/" ++ r.name
  | none => r.gvk ++ " " ++ r.name

def order (a b : ResourceReference) : Ordering :=
  (compare a.group b.group).then <|
  (compare a.version b.version).then <|
  (compare a.kind b.kind).then <|
  (compare a.name b.name).then <|
  match a.ns, b.ns with
  | none, none => .eq
  | none, some _ => .lt
  | some _, none => .gt
  | some x, some y => compare x y

instance : Ord ResourceReference := ⟨order⟩

/-- The references of a list in ascending order, each occurrence kept. -/
def sort (rs : List ResourceReference) : List ResourceReference :=
  rs.mergeSort fun a b => (order a b).isLE

end ResourceReference

/-- The elements of a list that bring a reference not met before, in the order of the list. -/
def distinctBy {α β : Type} [DecidableEq β] (key : α → β) : List α → List β → List α
  | [], _ => []
  | x :: xs, seen =>
    if key x ∈ seen then distinctBy key xs seen
    else x :: distinctBy key xs (key x :: seen)

theorem distinctBy_sublist {α β : Type} [DecidableEq β] (key : α → β) (xs : List α)
    (seen : List β) : (distinctBy key xs seen).Sublist xs := by
  induction xs generalizing seen with
  | nil => exact .slnil
  | cons x xs ih =>
    rw [distinctBy]
    split
    · exact (ih seen).cons x
    · exact (ih _).cons_cons x

/-- Exactly the references that were not met before are brought. -/
theorem mem_map_distinctBy {α β : Type} [DecidableEq β] {key : α → β} {xs : List α}
    {seen : List β} {r : β} :
    r ∈ (distinctBy key xs seen).map key ↔ r ∈ xs.map key ∧ r ∉ seen := by
  induction xs generalizing seen with
  | nil => simp [distinctBy]
  | cons x xs ih =>
    rw [distinctBy]
    split
    · next hx =>
      rw [ih]
      by_cases hr : r = key x
      · subst hr
        simp [hx]
      · simp [hr]
    · next hx =>
      rw [List.map_cons, List.mem_cons, ih]
      by_cases hr : r = key x
      · subst hr
        simp [hx]
      · simp [hr]

/-- No reference is brought twice. -/
theorem nodup_map_distinctBy {α β : Type} [DecidableEq β] (key : α → β) (xs : List α)
    (seen : List β) : ((distinctBy key xs seen).map key).Nodup := by
  induction xs generalizing seen with
  | nil => simp [distinctBy]
  | cons x xs ih =>
    rw [distinctBy]
    split
    · exact ih seen
    · rw [List.map_cons, List.nodup_cons, mem_map_distinctBy]
      exact ⟨by simp, ih _⟩

/-- What is brought are the references in the order in which they are met for the first time. -/
theorem map_distinctBy {α β : Type} [DecidableEq β] (key : α → β) (xs : List α) (seen : List β) :
    (distinctBy key xs seen).map key = ((xs.map key).filter (· ∉ seen)).eraseDups := by
  induction xs generalizing seen with
  | nil => rfl
  | cons x xs ih =>
    rw [distinctBy]
    split
    · next hx =>
      rw [ih]
      simp [hx]
    · next hx =>
      rw [List.map_cons, ih, List.map_cons, List.filter_cons_of_pos (by simpa using hx),
        List.eraseDups_cons, List.filter_filter]
      congr 2
      refine List.filter_congr fun y _ => ?_
      by_cases hy : y = key x <;> simp [hy]

theorem find?_distinctBy {α β : Type} [DecidableEq β] {key : α → β} {r : β} {xs : List α}
    {seen : List β} (hr : r ∉ seen) :
    (distinctBy key xs seen).find? (fun x => key x = r) = xs.find? fun x => key x = r := by
  induction xs generalizing seen with
  | nil => rfl
  | cons x xs ih =>
    rw [distinctBy]
    split
    · next hx =>
      have hne : key x ≠ r := fun h => hr (h ▸ hx)
      rw [ih hr, List.find?_cons_of_neg (by simpa using hne)]
    · by_cases hx : key x = r
      · rw [List.find?_cons_of_pos (by simpa using hx),
          List.find?_cons_of_pos (by simpa using hx)]
      · rw [List.find?_cons_of_neg (by simpa using hx),
          List.find?_cons_of_neg (by simpa using hx), ih (by simp [Ne.symm hx, hr])]

/-- A list that brings each reference once, and none that was met before, is left as it is. -/
theorem distinctBy_eq_self {α β : Type} [DecidableEq β] {key : α → β} {xs : List α}
    {seen : List β} (hseen : ∀ x ∈ xs, key x ∉ seen) (hxs : (xs.map key).Nodup) :
    distinctBy key xs seen = xs := by
  induction xs generalizing seen with
  | nil => rfl
  | cons x xs ih =>
    obtain ⟨hx, hxs⟩ := List.nodup_cons.1 hxs
    rw [distinctBy, if_neg (hseen x (.head xs)), ih (fun y hy => ?_) hxs]
    rw [List.mem_cons, not_or]
    exact ⟨fun h => hx (h ▸ List.mem_map_of_mem hy), hseen y (.tail x hy)⟩

class Targeted (T : Type) where
  reference : T → ResourceReference

export Targeted (reference)

instance : Targeted ResourceReference := ⟨id⟩

/-- The first target of each reference, in the order of the list. -/
def distinctTargets {T : Type} [Targeted T] (targets : List T) : List T :=
  distinctBy reference targets []

theorem find?_distinctTargets {T : Type} [Targeted T] (targets : List T)
    (r : ResourceReference) : (distinctTargets targets).find? (fun t => reference t = r) =
      targets.find? fun t => reference t = r := find?_distinctBy List.not_mem_nil

theorem distinctTargets_distinctTargets {T : Type} [Targeted T] (targets : List T) :
    distinctTargets (distinctTargets targets) = distinctTargets targets :=
  distinctBy_eq_self (fun _ _ => List.not_mem_nil) (nodup_map_distinctBy ..)

theorem mem_map_distinctTargets {T : Type} [Targeted T] {targets : List T}
    {r : ResourceReference} :
    r ∈ (distinctTargets targets).map reference ↔ r ∈ targets.map reference :=
  mem_map_distinctBy.trans (and_iff_left List.not_mem_nil)

/-- The references of the targets that come after an equal one, in the order of the list. -/
def repeatedTargets {T : Type} [Targeted T] (targets : List T) : List ResourceReference :=
  let rec go : List T → List ResourceReference → List ResourceReference
    | [], _ => []
    | t :: ts, seen =>
      if reference t ∈ seen then reference t :: go ts seen
      else go ts (reference t :: seen)
  go targets []

end Lifecycle
