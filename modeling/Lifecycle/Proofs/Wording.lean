import Lifecycle.Reference

/-!
# Texts that name one reference only

In messages a reference is known by its text alone. The text is five fields with signs
between them, two of which may be left out, and nothing keeps the fields from having
such signs in them. What has to be excluded for the text to be read in one way only is
less than one might think: a namespace may have anything in it, and so may a name but
for slashes and a group but for commas.

A text is taken apart from both ends. The comma in front of the kind is the first one,
and so is the blank behind the kind in what is left. Whether there is a namespace, or a
group, is then told by a slash, which is the last one: `behind` is what both have in
common, a text with or without another one and a slash in front.
-/

namespace Lifecycle

/-! ## Signs that come first or last -/

theorem append_cons_inj {c : Char} {xs ys s t : List Char} (hx : c ∉ xs) (hy : c ∉ ys)
    (h : xs ++ c :: s = ys ++ c :: t) : xs = ys ∧ s = t := by
  induction xs generalizing ys with
  | nil =>
      cases ys with
      | nil => exact ⟨rfl, (List.cons.inj h).2⟩
      | cons y ys =>
          obtain rfl : c = y := (List.cons.inj h).1
          exact absurd List.mem_cons_self hy
  | cons x xs ih =>
      cases ys with
      | nil =>
          obtain rfl : x = c := (List.cons.inj h).1
          exact absurd List.mem_cons_self hx
      | cons y ys =>
          obtain ⟨hxy, htail⟩ := List.cons.inj h
          obtain ⟨hxs, hst⟩ := ih (fun hm => hx (List.mem_cons_of_mem x hm))
            (fun hm => hy (List.mem_cons_of_mem y hm)) htail
          exact ⟨by rw [hxy, hxs], hst⟩

theorem append_cons_inj_last {c : Char} {xs ys s t : List Char} (hs : c ∉ s) (ht : c ∉ t)
    (h : xs ++ c :: s = ys ++ c :: t) : xs = ys ∧ s = t := by
  have hrev : s.reverse ++ c :: xs.reverse = t.reverse ++ c :: ys.reverse := by
    simpa using congrArg List.reverse h
  obtain ⟨hst, hxy⟩ := append_cons_inj (by simpa using hs) (by simpa using ht) hrev
  exact ⟨List.reverse_inj.1 hxy, List.reverse_inj.1 hst⟩

/-- A text, perhaps behind another one and a slash. -/
def behind (front : Option String) (back : String) : String :=
  match front with
  | some s => s ++ "/" ++ back
  | none => back

theorem toList_behind_some (s t : String) :
    (behind (some s) t).toList = s.toList ++ '/' :: t.toList := by
  simp [behind]

theorem behind_inj {o o' : Option String} {s s' : String} (hs : '/' ∉ s.toList)
    (hs' : '/' ∉ s'.toList) (h : behind o s = behind o' s') : o = o' ∧ s = s' := by
  have hlist := congrArg String.toList h
  cases o with
  | none =>
      cases o' with
      | none => exact ⟨rfl, h⟩
      | some t' =>
          rw [toList_behind_some] at hlist
          exact absurd (hlist ▸ by simp : '/' ∈ s.toList) hs
  | some t =>
      cases o' with
      | none =>
          rw [toList_behind_some] at hlist
          exact absurd (hlist ▸ by simp : '/' ∈ s'.toList) hs'
      | some t' =>
          rw [toList_behind_some, toList_behind_some] at hlist
          obtain ⟨ht, hss⟩ := append_cons_inj_last hs hs' hlist
          exact ⟨congrArg some (String.toList_inj.1 ht), String.toList_inj.1 hss⟩

/-! ## Groups and versions -/

namespace GroupVersion

/-- A group and a version whose signs are not taken for those between them. -/
structure IsPlain (gv : GroupVersion) : Prop where
  group : ',' ∉ gv.group.toList
  version : ',' ∉ gv.version.toList
  slashless : '/' ∉ gv.version.toList

theorem apiVersion_eq_behind (gv : GroupVersion) :
    gv.apiVersion = behind (if gv.group = "" then none else some gv.group) gv.version := by
  by_cases h : gv.group = "" <;> simp [apiVersion, isCore, h, behind]

theorem IsPlain.notMem_apiVersion {gv : GroupVersion} (h : gv.IsPlain) :
    ',' ∉ gv.apiVersion.toList := by
  rw [apiVersion]
  split
  · exact h.version
  · simp [h.group, h.version]

theorem IsPlain.apiVersion_inj {gv gv' : GroupVersion} (h : gv.IsPlain) (h' : gv'.IsPlain)
    (heq : gv.apiVersion = gv'.apiVersion) : gv = gv' := by
  rw [apiVersion_eq_behind, apiVersion_eq_behind] at heq
  obtain ⟨hgroup, hversion⟩ := behind_inj h.slashless h'.slashless heq
  have hsame : gv.group = gv'.group := by
    split at hgroup <;> split at hgroup <;> simp_all
  cases gv
  cases gv'
  cases hsame
  cases hversion
  rfl

end GroupVersion

/-! ## References -/

namespace ResourceReference

/-- A reference whose signs are not taken for those between its fields. -/
structure IsPlain (r : ResourceReference) : Prop extends r.groupVersion.IsPlain where
  kind : ' ' ∉ r.kind.toList
  name : '/' ∉ r.name.toList

theorem toList_gvk (r : ResourceReference) : r.gvk.toList =
    r.groupVersion.apiVersion.toList ++ ',' :: (" Kind=".toList ++ r.kind.toList) := by
  simp [gvk]

theorem toList_text (r : ResourceReference) : r.text.toList =
    r.groupVersion.apiVersion.toList ++
      ',' :: (" Kind=".toList ++ (r.kind.toList ++ ' ' :: (behind r.ns r.name).toList)) := by
  cases h : r.ns <;> simp [text, h, toList_gvk, behind]

theorem gvk_inj {a b : ResourceReference} (ha : a.groupVersion.IsPlain)
    (hb : b.groupVersion.IsPlain) (h : a.gvk = b.gvk) :
    a.groupVersion = b.groupVersion ∧ a.kind = b.kind := by
  have hlist := congrArg String.toList h
  rw [toList_gvk, toList_gvk] at hlist
  obtain ⟨hversion, hkind⟩ := append_cons_inj ha.notMem_apiVersion hb.notMem_apiVersion hlist
  exact ⟨ha.apiVersion_inj hb (String.toList_inj.1 hversion),
    String.toList_inj.1 (List.append_cancel_left hkind)⟩

theorem text_inj {a b : ResourceReference} (ha : a.IsPlain) (hb : b.IsPlain)
    (h : a.text = b.text) : a = b := by
  have hlist := congrArg String.toList h
  rw [toList_text, toList_text] at hlist
  obtain ⟨hversion, hrest⟩ := append_cons_inj ha.toIsPlain.notMem_apiVersion
    hb.toIsPlain.notMem_apiVersion hlist
  obtain ⟨hkind, hplace⟩ := append_cons_inj ha.kind hb.kind (List.append_cancel_left hrest)
  have hgv := ha.toIsPlain.apiVersion_inj hb.toIsPlain (String.toList_inj.1 hversion)
  obtain ⟨hns, hname⟩ := behind_inj ha.name hb.name (String.toList_inj.1 hplace)
  have hkind := String.toList_inj.1 hkind
  cases a
  cases b
  cases hgv
  simp_all

/-- What messages say of a reference tells it from all others, and the schema that they name is
that of no other. -/
theorem displayed_unambiguously :
    (∀ a b : ResourceReference, a.IsPlain → b.IsPlain → (a.text = b.text ↔ a = b)) ∧
    ∀ a b : ResourceReference, a.groupVersion.IsPlain → b.groupVersion.IsPlain →
      (a.gvk = b.gvk ↔ a.group = b.group ∧ a.version = b.version ∧ a.kind = b.kind) := by
  refine ⟨fun a b ha hb => ⟨text_inj ha hb, congrArg text⟩, fun a b ha hb => ⟨fun h => ?_, ?_⟩⟩
  · obtain ⟨hgv, hkind⟩ := gvk_inj ha hb h
    exact ⟨congrArg GroupVersion.group hgv, congrArg GroupVersion.version hgv, hkind⟩
  · rintro ⟨hgroup, hversion, hkind⟩
    rw [gvk, gvk, groupVersion, groupVersion, hgroup, hversion, hkind]

/-- A blank in a name is not taken for the end of a namespace. -/
theorem displayed_unambiguously_blank :
    (⟨"", "v1", "Pod", "b", some "a"⟩ : ResourceReference).text ≠
        (⟨"", "v1", "Pod", "a b", none⟩ : ResourceReference).text ∧
      (⟨"", "v1", "Pod", "b", some "a"⟩ : ResourceReference).gvk ≠
        (⟨"v1", "v1", "Pod", "b", none⟩ : ResourceReference).gvk := by
  obtain ⟨htext, hgvk⟩ := displayed_unambiguously
  constructor
  · rw [ne_eq, htext _ _ ⟨⟨by decide, by decide, by decide⟩, by decide, by decide⟩
      ⟨⟨by decide, by decide, by decide⟩, by decide, by decide⟩]
    decide
  · rw [ne_eq, hgvk _ _ ⟨by decide, by decide, by decide⟩ ⟨by decide, by decide, by decide⟩]
    decide

/-- A slash in a name is. -/
example : (⟨"", "v1", "Pod", "a/b", none⟩ : ResourceReference).text =
    (⟨"", "v1", "Pod", "b", some "a"⟩ : ResourceReference).text := by
  decide

end ResourceReference

end Lifecycle
