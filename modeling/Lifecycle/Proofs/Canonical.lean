import Mathlib.Data.String.Basic
import Lifecycle.Proofs.ReferenceOrder
import Lifecycle.Proofs.Steadiness

/-!
# One list of the active references

Who asks for the active references is given a list, though a store has no order of its
own: it may be gone through in any way. That the list is the same all the same comes
from the order of references being total, so that there is one way only of sorting
references that are all different, and from a store holding no reference twice.

The order is promised for the bytes of the texts and kept for their characters. In the
first half it is shown that this is the same. A character with a greater code point has
a greater encoding, and moreover one that is greater at a place that both of them have
(`Below`): so the characters behind them have no say, and the comparison of two texts
can go on from one character to the next.
-/

namespace Lifecycle

namespace Text

/-! ## Bytes -/

/-- The bytes of a text in UTF-8. -/
def utf8 (s : String) : List UInt8 := s.toUTF8.data.toList

theorem utf8_eq_flatMap (s : String) : utf8 s = s.toList.flatMap String.utf8EncodeChar := by
  rw [utf8, String.toUTF8, ← String.utf8Encode_toList, List.utf8Encode,
    List.toList_data_toByteArray]

/-- Bytes that are less than others at the first place at which the two differ, where both have
one. -/
def Below : List UInt8 → List UInt8 → Prop
  | x :: xs, y :: ys => x < y ∨ x = y ∧ Below xs ys
  | _, _ => False

theorem Below.append_lt_append {xs ys : List UInt8} (h : Below xs ys) (s t : List UInt8) :
    xs ++ s < ys ++ t := by
  induction xs generalizing ys with
  | nil => exact h.elim
  | cons x xs ih =>
      cases ys with
      | nil => exact h.elim
      | cons y ys =>
          rcases h with hlt | ⟨rfl, h⟩
          · exact .rel hlt
          · exact .cons (ih h)

theorem append_lt_append_iff (xs : List UInt8) {s t : List UInt8} :
    xs ++ s < xs ++ t ↔ s < t := by
  induction xs with
  | nil => rfl
  | cons x xs ih => simp [ih]

/-- The digits of a number in base 64, as they are spread over four bytes. -/
theorem exists_digits (v : Nat) : ∃ a b c d, v / 262144 = a ∧ v / 4096 % 64 = b ∧ v / 64 % 64 = c ∧
    v % 64 = d ∧ v = 262144 * a + 4096 * b + 64 * c + d ∧ b < 64 ∧ c < 64 ∧ d < 64 := by
  refine ⟨_, _, _, _, rfl, rfl, rfl, rfl, ?_⟩
  omega

theorem below_utf8EncodeChar {c d : Char} (h : c < d) :
    Below (String.utf8EncodeChar c) (String.utf8EncodeChar d) := by
  have hlt : c.val.toNat < d.val.toNat := h
  have hbound : d.val.toNat < 0x110000 := by
    rcases d.valid with hd | hd
    · exact Nat.lt_trans hd (by decide)
    · exact hd.2
  unfold String.utf8EncodeChar
  generalize c.val.toNat = v at hlt
  generalize d.val.toNat = w at hlt hbound
  dsimp only
  by_cases hlong : 65535 < v
  · -- Two encodings of four bytes: the digits are compared one after another.
    have hlong' : 65535 < w := Nat.lt_trans hlong hlt
    rw [if_neg (by omega), if_neg (by omega), if_neg (by omega), if_neg (by omega),
      if_neg (by omega), if_neg (by omega)]
    obtain ⟨a, b, c, d, ha, hb, hc, hd, hv, hdigits⟩ := exists_digits v
    obtain ⟨a', b', c', d', ha', hb', hc', hd', hw, hdigits'⟩ := exists_digits w
    rw [ha, hb, hc, hd, ha', hb', hc', hd']
    clear ha hb hc hd ha' hb' hc' hd'
    simp only [Below, UInt8.lt_iff_toNat_lt, ← UInt8.toNat_inj, UInt8.toNat_ofNat', or_false,
      and_false]
    omega
  · split_ifs
    all_goals
      simp only [Below, UInt8.lt_iff_toNat_lt, ← UInt8.toNat_inj, UInt8.toNat_ofNat', or_false,
        and_false]
      omega

theorem flatMap_utf8EncodeChar_lt_iff {cs ds : List Char} :
    cs.flatMap String.utf8EncodeChar < ds.flatMap String.utf8EncodeChar ↔ cs < ds := by
  induction cs generalizing ds with
  | nil =>
      cases ds with
      | nil => simp
      | cons d ds =>
          obtain ⟨x, xs, hd⟩ := List.exists_cons_of_ne_nil (String.utf8EncodeChar_ne_nil (c := d))
          simp [hd]
  | cons c cs ih =>
      cases ds with
      | nil => simp
      | cons d ds =>
          rw [List.flatMap_cons, List.flatMap_cons, List.cons_lt_cons_iff]
          rcases lt_trichotomy c d with hlt | rfl | hgt
          · exact iff_of_true ((below_utf8EncodeChar hlt).append_lt_append _ _) (.inl hlt)
          · rw [append_lt_append_iff, ih]
            simp
          · have habove := (below_utf8EncodeChar hgt).append_lt_append
              (ds.flatMap String.utf8EncodeChar) (cs.flatMap String.utf8EncodeChar)
            refine iff_of_false (List.lt_asymm habove) ?_
            rintro (hlt | ⟨rfl, -⟩)
            · exact lt_asymm hlt hgt
            · exact lt_irrefl c hgt

/-- Texts are in the order of their bytes. -/
theorem utf8_lt_utf8_iff {s t : String} : utf8 s < utf8 t ↔ s < t := by
  rw [utf8_eq_flatMap, utf8_eq_flatMap, flatMap_utf8EncodeChar_lt_iff, String.lt_iff_toList_lt]

end Text

/-! ## References -/

namespace ResourceReference

open Std Text

/-- A cluster-wide target comes before those of namespaces, and these in the order of the bytes
of the namespaces. -/
def NsPrecedes : Option String → Option String → Prop
  | none, some _ => True
  | some x, some y => utf8 x < utf8 y
  | _, none => False

/-- The order of references: field after field by the bytes of its text. -/
def Precedes (a b : ResourceReference) : Prop :=
  utf8 a.group < utf8 b.group ∨ a.group = b.group ∧
    (utf8 a.version < utf8 b.version ∨ a.version = b.version ∧
      (utf8 a.kind < utf8 b.kind ∨ a.kind = b.kind ∧
        (utf8 a.name < utf8 b.name ∨ a.name = b.name ∧ NsPrecedes a.ns b.ns)))

theorem order_eq_lt_iff {a b : ResourceReference} : order a b = .lt ↔ a.Precedes b := by
  obtain ⟨_, _, _, _, _ | _⟩ := a
  all_goals
    obtain ⟨_, _, _, _, _ | _⟩ := b
    all_goals simp [order, Ordering.then_eq_lt, compare_lt_iff_lt, Precedes, NsPrecedes,
      utf8_lt_utf8_iff]

theorem order_eq_eq_iff {a b : ResourceReference} : order a b = .eq ↔ a = b :=
  LawfulEqCmp.compare_eq_iff_eq

theorem not_precedes_self (a : ResourceReference) : ¬ a.Precedes a := by
  rw [← order_eq_lt_iff, order_eq_eq_iff.2 rfl]
  decide

theorem Precedes.trans {a b c : ResourceReference} (hab : a.Precedes b) (hbc : b.Precedes c) :
    a.Precedes c := by
  rw [← order_eq_lt_iff] at *
  exact TransCmp.lt_trans hab hbc

theorem precedes_or_eq_or_precedes (a b : ResourceReference) :
    a.Precedes b ∨ a = b ∨ b.Precedes a := by
  rw [← order_eq_lt_iff, ← order_eq_lt_iff, ← order_eq_eq_iff, ← OrientedCmp.gt_iff_lt (a := a)]
  cases order a b <;> simp

/-- Different references are sorted strictly. -/
theorem pairwise_precedes_sort {rs : List ResourceReference} (h : rs.Nodup) :
    (sort rs).Pairwise Precedes := by
  have hnodup : (sort rs).Nodup := (sort_perm rs).nodup_iff.2 h
  refine ((pairwise_sort rs).and hnodup).imp fun {a b} ⟨hle, hne⟩ => ?_
  rw [← order_eq_lt_iff]
  cases horder : order a b with
  | lt => rfl
  | eq => exact absurd (order_eq_eq_iff.1 horder) hne
  | gt =>
      rw [horder] at hle
      cases hle

end ResourceReference

open ResourceReference

/-! ## Stores -/

namespace Store

/-- In whatever way a store is gone through, the list is the same. -/
theorem activeReferences_of_perm {s t : Store} (h : s.Perm t) :
    s.activeReferences = t.activeReferences :=
  sort_eq_of_perm ((h.filter _).map _)

theorem Simple.nodup_active {s : Store} (hs : s.Simple) :
    ((s.filter (·.active)).map Holding.reference).Nodup :=
  hs.sublist ((List.filter_sublist).map _)

theorem Simple.pairwise_activeReferences {s : Store} (hs : s.Simple) :
    s.activeReferences.Pairwise Precedes := pairwise_precedes_sort hs.nodup_active

theorem Simple.nodup_activeReferences {s : Store} (hs : s.Simple) : s.activeReferences.Nodup :=
  (sort_perm _).nodup_iff.2 hs.nodup_active

/-- There is only one list for the same references. -/
theorem Simple.activeReferences_eq {s t : Store} (hs : s.Simple) (ht : t.Simple)
    (h : ∀ r, r ∈ s.activeReferences ↔ r ∈ t.activeReferences) :
    s.activeReferences = t.activeReferences := by
  have hperm : s.activeReferences.Perm t.activeReferences :=
    (List.perm_ext_iff_of_nodup hs.nodup_activeReferences ht.nodup_activeReferences).2 h
  refine List.Perm.eq_of_pairwise (fun a b _ _ hab hba => ?_) hs.pairwise_activeReferences
    ht.pairwise_activeReferences hperm
  exact absurd (hab.trans hba) a.not_precedes_self

end Store

namespace World

/-- References are totally ordered by the bytes of their fields, and the list of the active ones
is what this order makes of them, however a store is gone through and came about. -/
theorem active_references_canonical :
    (∀ a b : ResourceReference, order a b = .lt ↔ a.Precedes b) ∧
    (∀ a b : ResourceReference, order a b = .eq ↔ a = b) ∧
    (∀ a : ResourceReference, ¬ a.Precedes a) ∧
    (∀ a b c : ResourceReference, a.Precedes b → b.Precedes c → a.Precedes c) ∧
    (∀ a b : ResourceReference, a.Precedes b ∨ a = b ∨ b.Precedes a) ∧
    ∀ {C T C' T' : Type} [Targeted T] [Targeted T'] {env : Collaborators C T}
      {env' : Collaborators C' T'} {policies policies' : List (String × Policy)} {w : World C T}
      {w' : World C' T'}, Reachable env policies w → Reachable env' policies' w' →
      ∀ {k k' : Nat} {a a' : Activator}, w.activators[k]? = some a →
        w'.activators[k']? = some a' →
        (∀ s : Store, s.Perm a.store → s.activeReferences = a.store.activeReferences) ∧
        a.store.activeReferences.Pairwise Precedes ∧ a.store.activeReferences.Nodup ∧
        (∀ r, r ∈ a.store.activeReferences ↔ w.isActive k r) ∧
        ((∀ r, w.isActive k r ↔ w'.isActive k' r) →
          a.store.activeReferences = a'.store.activeReferences) := by
  refine ⟨fun a b => order_eq_lt_iff, fun a b => order_eq_eq_iff, not_precedes_self,
    fun a b c => Precedes.trans, precedes_or_eq_or_precedes, ?_⟩
  intro C T C' T' _ _ env env' policies policies' w w' hw hw' k k' a a' ha ha'
  have hs : a.store.Simple := hw.orderly.simple a (List.mem_of_getElem? ha)
  have hs' : a'.store.Simple := hw'.orderly.simple a' (List.mem_of_getElem? ha')
  have hmem : ∀ r, r ∈ a.store.activeReferences ↔ w.isActive k r := fun r => by
    rw [isActive, holding?_eq ha, hs.mem_activeReferences]
  have hmem' : ∀ r, r ∈ a'.store.activeReferences ↔ w'.isActive k' r := fun r => by
    rw [isActive, holding?_eq ha', hs'.mem_activeReferences]
  exact ⟨fun s hperm => Store.activeReferences_of_perm hperm, hs.pairwise_activeReferences,
    hs.nodup_activeReferences, hmem, fun hsame => hs.activeReferences_eq hs' fun r => by
      rw [hmem, hmem', hsame]⟩

/-- Two activators that took up the same targets, one of them in two calls and the other way
round. -/
theorem active_references_canonical_reversed :
    let policies := [("widgets", Policy.default)]
    let w := (ofActivators policies).play .prompt
      [.submit [.plain 0 "v1" ["a", "b"]], .join 0, .begin 0, .look 0 0, .look 0 1, .close 0]
    let w' := (ofActivators policies).play .prompt
      [.submit [.plain 0 "v1" ["b"]], .join 0, .begin 0, .look 0 0, .close 0,
        .submit [.plain 0 "v2" ["b", "a"]], .join 1, .begin 1, .look 1 0, .look 1 1, .close 1]
    let a : Activator :=
      ⟨"widgets", .default, [⟨.plain "a", "a", true⟩, ⟨.plain "b", "b", true⟩], []⟩
    let a' : Activator :=
      ⟨"widgets", .default, [⟨.plain "b", "b", true⟩, ⟨.plain "a", "a", true⟩], []⟩
    Reachable .prompt policies w ∧ Reachable .prompt policies w' ∧ w.activators[0]? = some a ∧
      w'.activators[0]? = some a' ∧ (∀ r, w.isActive 0 r ↔ w'.isActive 0 r) ∧
      a.store.activeReferences = a'.store.activeReferences := by
  intro policies w w' a a'
  have hw : Reachable .prompt policies w := ⟨_, rfl⟩
  have hw' : Reachable .prompt policies w' := ⟨_, rfl⟩
  have ha : w.activators[0]? = some a := by decide +kernel
  have ha' : w'.activators[0]? = some a' := by decide +kernel
  have hperm : a.store.Perm a'.store := .swap ..
  obtain ⟨-, -, -, -, -, hcanonical⟩ := active_references_canonical
  obtain ⟨-, -, -, hmem, honly⟩ := hcanonical hw hw' ha ha'
  obtain ⟨hany, -, -, hmem', -⟩ := hcanonical hw' hw ha' ha
  have hsame : ∀ r, w.isActive 0 r ↔ w'.isActive 0 r := fun r => by
    rw [← hmem, ← hmem', hany a.store hperm]
  exact ⟨hw, hw', ha, ha', hsame, honly hsame⟩

end World

end Lifecycle
