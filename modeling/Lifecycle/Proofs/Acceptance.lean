import Mathlib.Data.List.Induction
import Mathlib.Data.List.Sort
import Lifecycle.Proofs.Rereading

/-!
# Which documents are accepted

A decoder says how a document is read. Which documents it accepts, as what, and what
it says about the others can be read off a description of the record that has no
order of reading in it: a `Layout` lists the fields with their keys, the values that
may stand for them, and what they are where they are left out. A layout `Governs` a
decoder that accepts just the documents which the layout allows.

Reading a record from an object has two parts, and they go through the fields in two
orders: the values are looked at in the order of the keys, and then the fields that
are left out are missed in the order of their declaration. `Visits` and `Needs` are
what is to be shown while fields are left in the one part and in the other, each with
a rule for the next field, so that for a record it remains to go through its own
decoder line by line. Which of two complaints comes first is said in these two rules
and nowhere else.

An array takes up one field after another, so that its elements can be given the keys
of the fields (`Layout.named`). It means what the object means that they then make.
-/

namespace Lifecycle

open Json

/-! ## Members -/

namespace Json

theorem lookup?_eq_some_iff {ms : List (String × Json)} (h : (ms.map Prod.fst).Nodup)
    {key : String} {v : Json} : lookup? key ms = some v ↔ (key, v) ∈ ms := by
  induction ms with
  | nil => simp
  | cons p ms ih =>
      obtain ⟨k, w⟩ := p
      obtain ⟨hk, hms⟩ := List.nodup_cons.1 h
      by_cases hkey : k = key
      · subst hkey
        have hnot : (k, v) ∉ ms := fun hmem => hk (List.mem_map.2 ⟨_, hmem, rfl⟩)
        simp [hnot, eq_comm]
      · rw [lookup?_cons_ne hkey, ih hms]
        simp [Ne.symm hkey]

/-- The order of members does not matter where no key comes twice. -/
theorem lookup?_perm {ms ns : List (String × Json)} (h : (ms.map Prod.fst).Nodup)
    (hperm : ms.Perm ns) (key : String) : lookup? key ms = lookup? key ns := by
  have hns : (ns.map Prod.fst).Nodup := (hperm.map Prod.fst).nodup_iff.1 h
  ext v
  rw [lookup?_eq_some_iff h, lookup?_eq_some_iff hns, hperm.mem_iff]

end Json

namespace Document

/-! ## Values of a sort -/

/-- A sort of values: how they are read, and which documents stand for which of them. -/
structure Format (β : Type) where
  decode : Decoder β
  Means : Json → β → Prop
  decode_eq_ok_iff : ∀ {v x}, decode v = .ok x ↔ Means v x

theorem bind_eq_ok_iff {β γ : Type} {r : Except Mismatch β} {k : β → Except Mismatch γ} {x : γ} :
    r >>= k = .ok x ↔ ∃ y, r = .ok y ∧ k y = .ok x := by
  cases r <;> simp [bind, Except.bind]

theorem string_eq_ok_iff {v : Json} {s : String} : string v = .ok s ↔ v = .string s := by
  cases v <;> simp [string, unfit]

theorem nullable_string_eq_ok_iff {v : Json} {o : Option String} :
    nullable string v = .ok o ↔ v = o.elim .null .string := by
  cases v <;> cases o <;> simp [nullable, string, unfit, Except.map]

theorem each_string_eq_ok_iff {vs : List Json} {ts : List String} :
    each string vs = .ok ts ↔ vs = ts.map .string := by
  refine ⟨fun h => ?_, fun h => h ▸ each_strings ts⟩
  induction vs generalizing ts with
  | nil =>
      cases h
      rfl
  | cons v vs ih =>
      obtain ⟨t, hv, h⟩ := bind_eq_ok_iff.1 h
      obtain ⟨us, hvs, h⟩ := bind_eq_ok_iff.1 h
      cases h
      rw [string_eq_ok_iff.1 hv, ih hvs, List.map_cons]

theorem list_string_eq_ok_iff {v : Json} {ts : List String} :
    list string v = .ok ts ↔ v = .array (ts.map .string) := by
  cases v with
  | array vs => simp [list, each_string_eq_ok_iff]
  | _ => simp [list, unfit]

namespace Format

def text : Format String := ⟨string, fun v s => v = .string s, string_eq_ok_iff⟩

def textOrNull : Format (Option String) :=
  ⟨nullable string, fun v o => v = o.elim .null .string, nullable_string_eq_ok_iff⟩

def texts : Format (List String) :=
  ⟨list string, fun v ts => v = .array (ts.map .string), list_string_eq_ok_iff⟩

end Format

end Document

open Document

namespace Selector

theorem decodeMembers_eq_ok_iff {ms : List (String × Json)} {ps : List (String × String)} :
    decodeMembers ms = .ok ps ↔ ms = ps.map fun p => (p.1, .string p.2) := by
  refine ⟨fun h => ?_, fun h => h ▸ decodeMembers_encode ps⟩
  induction ms generalizing ps with
  | nil =>
      cases h
      rfl
  | cons p ms ih =>
      obtain ⟨k, v⟩ := p
      obtain ⟨t, hv, h⟩ := bind_eq_ok_iff.1 h
      obtain ⟨qs, hms, h⟩ := bind_eq_ok_iff.1 h
      cases h
      rw [ih hms, string_eq_ok_iff.1 hv, List.map_cons]

theorem mem_insertPair_iff {label value : String} {ps : List (String × String)}
    (h : ps.Pairwise fun a b => a.1 < b.1) {l t : String} :
    (l, t) ∈ insertPair label value ps ↔ if l = label then t = value else (l, t) ∈ ps := by
  induction ps with
  | nil => by_cases hl : l = label <;> simp [insertPair, hl]
  | cons p ps ih =>
      obtain ⟨k, v⟩ := p
      obtain ⟨hk, hps⟩ := List.pairwise_cons.1 h
      have ih := ih hps
      have habove : (l, t) ∈ ps → k < l := fun hmem => hk _ hmem
      by_cases hlt : label < k
      · have hne := String.ne_of_lt hlt
        have hasymm := String.lt_asymm hlt
        simp only [insertPair, if_pos hlt, List.mem_cons, Prod.mk.injEq]
        grind
      · by_cases hgt : k < label
        · have hne := String.ne_of_lt hgt
          simp only [insertPair, if_neg hlt, if_pos hgt, List.mem_cons, Prod.mk.injEq, ih]
          grind
        · have heq : label = k := String.le_antisymm (String.not_lt.1 hgt) (String.not_lt.1 hlt)
          subst heq
          have hirrefl := String.lt_irrefl label
          simp only [insertPair, if_neg hlt, List.mem_cons, Prod.mk.injEq]
          grind

/-- Of two pairs with one label the later one counts. -/
theorem mem_pairs_ofList {ps : List (String × String)} {l t : String} :
    (l, t) ∈ (ofList ps).pairs ↔ ps.reverse.lookup l = some t := by
  induction ps using List.reverseRecOn with
  | nil => simp [ofList, empty]
  | append_singleton ps p ih =>
      have hlast : ofList (ps ++ [p]) = (ofList ps).insert p.1 p.2 := by simp [ofList]
      rw [hlast, insert, mem_insertPair_iff (ofList ps).ascending, ih, List.reverse_append,
        List.reverse_singleton, List.singleton_append, List.lookup_cons]
      by_cases hl : l = p.1
      · simp [hl, eq_comm]
      · simp [hl, beq_eq_false_iff_ne.2 hl]

theorem eq_of_mem_pairs_iff {s t : Selector} (h : ∀ l v, (l, v) ∈ s.pairs ↔ (l, v) ∈ t.pairs) :
    s = t := by
  have hnodup : ∀ u : Selector, u.pairs.Nodup := fun u =>
    u.ascending.imp fun {a b} (hlt : a.1 < b.1) heq => String.ne_of_lt hlt (congrArg Prod.fst heq)
  have hperm : s.pairs.Perm t.pairs :=
    (List.perm_ext_iff_of_nodup (hnodup s) (hnodup t)).2 fun p => h p.1 p.2
  have hpairs : s.pairs = t.pairs :=
    List.Perm.eq_of_pairwise (fun _ _ _ _ hlt hgt => absurd hgt (String.lt_asymm hlt)) s.ascending
      t.ascending hperm
  cases s
  cases t
  cases hpairs
  rfl

/-- A selector is meant by an object of texts, where the last member with a label counts. -/
def Means (v : Json) (s : Selector) : Prop :=
  ∃ ps : List (String × String), v = .object (ps.map fun p => (p.1, .string p.2)) ∧
    ∀ l t, (l, t) ∈ s.pairs ↔ ps.reverse.lookup l = some t

theorem decode_eq_ok_iff {v : Json} {s : Selector} : decode v = .ok s ↔ Means v s := by
  cases v with
  | object ms =>
      constructor
      · intro h
        cases hms : decodeMembers ms with
        | error m => simp [decode, hms, Except.map] at h
        | ok ps =>
            simp only [decode, hms, Except.map, Except.ok.injEq] at h
            subst h
            exact ⟨ps, by rw [decodeMembers_eq_ok_iff.1 hms], fun l t => mem_pairs_ofList⟩
      · rintro ⟨ps, hv, hs⟩
        cases hv
        have heq : ofList ps = s :=
          eq_of_mem_pairs_iff fun l t => mem_pairs_ofList.trans (hs l t).symm
        rw [decode, decodeMembers_encode, Except.map, heq]
  | _ => simp [decode, unfit, Means]

def format : Format Selector := ⟨decode, Means, decode_eq_ok_iff⟩

end Selector

namespace Document

/-! ## Fields -/

/-- What is said about a field of a record. -/
structure Field (α : Type) where
  key : String
  Value : Type
  format : Format Value
  get : α → Value
  /-- What the field is where it is left out; a field that is required has nothing for that. -/
  default : Option Value

namespace Field

variable {α : Type}

/-- What is given for a field, perhaps nothing, stands for that field of a record. -/
def Stands (f : Field α) (given : Option Json) (x : α) : Prop :=
  match given with
  | some v => f.format.Means v (f.get x)
  | none => f.default = some (f.get x)

def Admits (f : Field α) : Option Json → Prop
  | some v => ∃ y, f.format.Means v y
  | none => f.default.isSome

def Refuses (f : Field α) (given : Option Json) (m : Mismatch) : Prop :=
  ∃ v, given = some v ∧ f.format.decode v = .error m

/-- Whether a field is required, and nothing is given for it. -/
def lacks (f : Field α) (given : Option Json) : Bool := given.isNone && f.default.isNone

theorem admits_iff {f : Field α} {given : Option Json} :
    f.Admits given ↔ (∀ m, ¬ f.Refuses given m) ∧ f.lacks given = false := by
  cases given with
  | none => cases h : f.default <;> simp [Admits, Refuses, lacks, h]
  | some v =>
      have hmeans : (∃ y, f.format.Means v y) ↔ ∃ y, f.format.decode v = .ok y := by
        simp only [f.format.decode_eq_ok_iff]
      rw [Admits, hmeans]
      cases h : f.format.decode v <;> simp [Refuses, lacks, h]

theorem Stands.admits {f : Field α} {given : Option Json} {x : α} (h : f.Stands given x) :
    f.Admits given := by
  cases given with
  | none => exact Option.isSome_iff_exists.2 ⟨_, h⟩
  | some v => exact ⟨_, h⟩

theorem Stands.get_eq {f : Field α} {given : Option Json} {x y : α} (hx : f.Stands given x)
    (hy : f.Stands given y) : f.get x = f.get y := by
  cases given with
  | none => exact Option.some.inj (hx.symm.trans hy)
  | some v =>
      have hxy := (f.format.decode_eq_ok_iff.2 hx).symm.trans (f.format.decode_eq_ok_iff.2 hy)
      exact Except.ok.inj hxy

/-- All that counts of what is given is what it is read as. -/
theorem stands_congr {f : Field α} {given given' : Option Json}
    (h : given.map f.format.decode = given'.map f.format.decode) (x : α) :
    f.Stands given x ↔ f.Stands given' x := by
  cases given <;> cases given'
  · rfl
  · cases h
  · cases h
  · simp only [Stands, ← f.format.decode_eq_ok_iff, Option.some.inj h]

theorem refuses_congr {f : Field α} {given given' : Option Json}
    (h : given.map f.format.decode = given'.map f.format.decode) (m : Mismatch) :
    f.Refuses given m ↔ f.Refuses given' m := by
  cases given <;> cases given'
  · rfl
  · cases h
  · cases h
  · simp [Refuses, Option.some.inj h]

theorem lacks_congr {f : Field α} {given given' : Option Json}
    (h : given.map f.format.decode = given'.map f.format.decode) :
    f.lacks given = f.lacks given' := by
  have hnone := congrArg Option.isNone h
  rw [Option.isNone_map, Option.isNone_map] at hnone
  rw [lacks, lacks, hnone]

/-- The value of a field is read, or it is refused. -/
theorem field?_cases (f : Field α) (ms : List (String × Json)) :
    (∃ m, f.Refuses (lookup? f.key ms) m ∧ field? ms f.key f.format.decode = .error m) ∨
      (∀ m, ¬ f.Refuses (lookup? f.key ms) m) ∧
        ∃ o, field? ms f.key f.format.decode = .ok o := by
  rw [field?]
  cases lookup? f.key ms with
  | none => exact .inr ⟨by simp [Refuses], none, rfl⟩
  | some v => cases h : f.format.decode v <;> simp [Refuses, Except.map, h]

theorem stands_of_field? {f : Field α} {ms : List (String × Json)} {o : Option f.Value} {x : α}
    (h : field? ms f.key f.format.decode = .ok o) (hx : (o <|> f.default) = some (f.get x)) :
    f.Stands (lookup? f.key ms) x := by
  rw [field?] at h
  cases hv : lookup? f.key ms with
  | none =>
      rw [hv] at h
      cases h
      exact hx
  | some v =>
      rw [hv] at h
      cases hy : f.format.decode v with
      | error m => simp [hy, Except.map] at h
      | ok y =>
          simp only [hy, Except.map, Except.ok.injEq] at h
          subst h
          cases hx
          exact f.format.decode_eq_ok_iff.1 hy

theorem lacks_of_field? {f : Field α} {ms : List (String × Json)} {o : Option f.Value}
    (h : field? ms f.key f.format.decode = .ok o) :
    f.lacks (lookup? f.key ms) = (o.isNone && f.default.isNone) := by
  rw [field?] at h
  rw [lacks]
  cases hv : lookup? f.key ms with
  | none =>
      rw [hv] at h
      cases h
      rfl
  | some v =>
      rw [hv] at h
      cases hy : f.format.decode v with
      | error m => simp [hy, Except.map] at h
      | ok y =>
          simp only [hy, Except.map, Except.ok.injEq] at h
          subst h
          rfl

end Field

/-! ## Layouts -/

/-- The fields of a record, in the order of their declaration. -/
structure Layout (α : Type) where
  fields : List (Field α)
  nodup_keys : (fields.map Field.key).Nodup
  /-- The fields are all of the record. -/
  ext : ∀ {x y : α}, (∀ f ∈ fields, f.get x = f.get y) → x = y

namespace Layout

variable {α : Type}

/-- What is wrong with an object that is no document of a record. -/
inductive Complaint (l : Layout α) (ms : List (String × Json)) : Mismatch → Prop where
  /-- A value is refused, and none of a smaller key is. -/
  | refused {f : Field α} {m : Mismatch} (hf : f ∈ l.fields) (hm : f.Refuses (lookup? f.key ms) m)
      (hfirst : ∀ g ∈ l.fields, g.key < f.key → ∀ m, ¬ g.Refuses (lookup? g.key ms) m) :
      Complaint l ms m
  /-- No value is refused, and this is the first field that is lacking. -/
  | missing {f : Field α} (hread : ∀ g ∈ l.fields, ∀ m, ¬ g.Refuses (lookup? g.key ms) m)
      (hf : l.fields.find? (fun g => g.lacks (lookup? g.key ms)) = some f) :
      Complaint l ms (.missingField f.key)

/-- An array as an object: its elements under the keys of the fields. -/
def named (l : Layout α) (vs : List Json) : List (String × Json) :=
  (l.fields.map Field.key).zip vs

/-- The records that a document stands for. -/
def Means (l : Layout α) : Json → α → Prop
  | .object ms, x => ∀ f ∈ l.fields, f.Stands (lookup? f.key ms) x
  | .array vs, x =>
    vs.length ≤ l.fields.length ∧ ∀ f ∈ l.fields, f.Stands (lookup? f.key (l.named vs)) x
  | _, _ => False

/-- A decoder accepts just the documents that a layout describes, and says what is wrong with
the others. -/
structure Governs (l : Layout α) (s : Shape) (decode : Decoder α) : Prop where
  decode_eq_ok_iff : ∀ {v x}, decode v = .ok x ↔ l.Means v x
  accepts_object_iff : ∀ ms, (∃ x, decode (.object ms) = .ok x) ↔
    ∀ f ∈ l.fields, f.Admits (lookup? f.key ms)
  object_eq_error_iff : ∀ ms m, decode (.object ms) = .error m ↔ l.Complaint ms m
  /-- Nothing counts but what the values of known keys are read as. -/
  object_congr : ∀ ms ns, (∀ f ∈ l.fields, (lookup? f.key ms).map f.format.decode =
    (lookup? f.key ns).map f.format.decode) → decode (.object ms) = decode (.object ns)
  object_perm : ∀ ms ns : List (String × Json), (ms.map Prod.fst).Nodup → ms.Perm ns →
    decode (.object ms) = decode (.object ns)
  accepts_array_iff : ∀ vs, (∃ x, decode (.array vs) = .ok x) ↔
    ∃ given rest, l.fields = given ++ rest ∧
      List.Forall₂ (fun f v => f.Admits (some v)) given vs ∧ ∀ f ∈ rest, f.Admits none
  object_of_array : ∀ vs x, decode (.array vs) = .ok x → decode (.object (l.named vs)) = .ok x
  eq_unfit : ∀ v, (∀ ms, v ≠ .object ms) → (∀ vs, v ≠ .array vs) → decode v = unfit s.wanted v

/-- The keys of the fields that may be left out. -/
def optionalKeys : List String :=
  ["namespace", "audiences", "workloadSelector", "hostPaths", "ports"]

/-- Fields with these keys may be left out and no others, and only a namespace may be null. -/
structure Permits (l : Layout α) : Prop where
  admits_none_iff : ∀ f ∈ l.fields, f.Admits none ↔ f.key ∈ optionalKeys
  admits_null_iff : ∀ f ∈ l.fields, f.Admits (some .null) ↔ f.key = "namespace"

/-! ## Reading an object -/

section Objects

variable {l : Layout α} {ms : List (String × Json)}

/-- A right result of reading an object. -/
def Reads (l : Layout α) (ms : List (String × Json)) : Except Mismatch α → Prop
  | .ok x => ∀ f ∈ l.fields, f.Stands (lookup? f.key ms) x
  | .error m => l.Complaint ms m

theorem eq_of_key_eq (l : Layout α) {f g : Field α} (hf : f ∈ l.fields) (hg : g ∈ l.fields)
    (h : f.key = g.key) : f = g := List.inj_on_of_nodup_map l.nodup_keys hf hg h

theorem Complaint.not_admits {m : Mismatch} (h : l.Complaint ms m) :
    ∃ f ∈ l.fields, ¬ f.Admits (lookup? f.key ms) := by
  cases h with
  | @refused f m hf hm hfirst => exact ⟨f, hf, fun h => (Field.admits_iff.1 h).1 m hm⟩
  | @missing f hread hf =>
      refine ⟨f, List.mem_of_find?_eq_some hf, fun h => ?_⟩
      have hlacks := List.find?_some hf
      rw [(Field.admits_iff.1 h).2] at hlacks
      cases hlacks

theorem Complaint.unique {m m' : Mismatch} (h : l.Complaint ms m) (h' : l.Complaint ms m') :
    m = m' := by
  cases h with
  | @refused f m hf hm hfirst =>
      cases h' with
      | @refused g m' hg hm' hfirst' =>
          have hle : g.key ≤ f.key := String.not_lt.1 fun hlt => hfirst' f hf hlt m hm
          have hge : f.key ≤ g.key := String.not_lt.1 fun hgt => hfirst g hg hgt m' hm'
          obtain rfl := l.eq_of_key_eq hf hg (String.le_antisymm hge hle)
          obtain ⟨v, hv, hm⟩ := hm
          obtain ⟨w, hw, hm'⟩ := hm'
          rw [hv] at hw
          cases hw
          rw [hm] at hm'
          exact Except.error.inj hm'
      | missing hread => exact absurd hm (hread f hf m)
  | @missing f hread hf =>
      cases h' with
      | @refused g m' hg hm' hfirst' => exact absurd hm' (hread g hg m')
      | missing hread' hf' =>
          rw [hf] at hf'
          cases hf'
          rfl

theorem Reads.unique {r r' : Except Mismatch α} (h : l.Reads ms r) (h' : l.Reads ms r') :
    r = r' := by
  have hnever : ∀ {x m}, l.Reads ms (.ok x) → ¬ l.Reads ms (.error m) := fun hx hm => by
    obtain ⟨f, hf, hnot⟩ := Complaint.not_admits hm
    exact hnot (hx f hf).admits
  cases r with
  | error m =>
      cases r' with
      | error m' => rw [Complaint.unique h h']
      | ok x' => exact absurd h (hnever h')
  | ok x =>
      cases r' with
      | error m' => exact absurd h' (hnever h)
      | ok x' => rw [l.ext fun f hf => (h f hf).get_eq (h' f hf)]

/-- The fields in the order in which their values are looked at. -/
def visits (l : Layout α) : List (Field α) := l.fields.insertionSort fun f g => f.key ≤ g.key

theorem mem_visits {f : Field α} : f ∈ l.visits ↔ f ∈ l.fields := List.mem_insertionSort _

theorem pairwise_visits (l : Layout α) : l.visits.Pairwise fun f g => f.key ≤ g.key := by
  have : IsTrans (Field α) fun f g => f.key ≤ g.key := ⟨fun _ _ _ => String.le_trans⟩
  have : Std.Total fun f g : Field α => f.key ≤ g.key := ⟨fun f g => String.le_total f.key g.key⟩
  exact List.pairwise_insertionSort _ _

/-- What is to be shown of a result while the values of some fields are still to be looked at. -/
def Visits (l : Layout α) (ms : List (String × Json)) (todo : List (Field α))
    (r : Except Mismatch α) : Prop :=
  ∀ done, l.visits = done ++ todo →
    (∀ g ∈ done, ∀ m, ¬ g.Refuses (lookup? g.key ms) m) → l.Reads ms r

/-- What is to be shown of a result while some fields may still be lacking. -/
def Needs (l : Layout α) (ms : List (String × Json)) (todo : List (Field α))
    (r : Except Mismatch α) : Prop :=
  ∀ done, l.fields = done ++ todo → (∀ g ∈ l.fields, ∀ m, ¬ g.Refuses (lookup? g.key ms) m) →
    (∀ g ∈ done, g.lacks (lookup? g.key ms) = false) → l.Reads ms r

theorem Reads.of_visits {r : Except Mismatch α} (h : l.Visits ms l.visits r) : l.Reads ms r :=
  h [] rfl nofun

theorem Visits.next {f : Field α} {todo : List (Field α)} {k : Option f.Value → Except Mismatch α}
    (hk : ∀ o, field? ms f.key f.format.decode = .ok o → l.Visits ms todo (k o)) :
    l.Visits ms (f :: todo) (field? ms f.key f.format.decode >>= k) := by
  intro done hdone hread
  rcases f.field?_cases ms with ⟨m, hm, heq⟩ | ⟨hno, o, heq⟩
  · rw [heq]
    have hmem : f ∈ l.fields := mem_visits.1 (hdone ▸ by simp)
    refine Complaint.refused hmem hm fun g hg hlt => hread g ?_
    have hvisited : g ∈ done ++ f :: todo := hdone ▸ mem_visits.2 hg
    rcases List.mem_append.1 hvisited with hmem | hmem
    · exact hmem
    · have hsorted := (List.pairwise_append.1 (hdone ▸ l.pairwise_visits)).2.1
      rcases List.mem_cons.1 hmem with rfl | hmem
      · exact absurd hlt (String.lt_irrefl _)
      · exact absurd hlt (String.not_lt.2 ((List.pairwise_cons.1 hsorted).1 g hmem))
  · rw [heq]
    exact hk o heq (done ++ [f]) (by simp [hdone])
      (List.forall_mem_append.2 ⟨hread, List.forall_mem_singleton.2 hno⟩)

theorem Visits.over {r : Except Mismatch α} (h : l.Needs ms l.fields r) : l.Visits ms [] r := by
  intro done hdone hread
  rw [List.append_nil] at hdone
  exact h [] rfl (fun g hg => hread g (hdone ▸ mem_visits.2 hg)) nofun

theorem Needs.required {f : Field α} {todo : List (Field α)} {o : Option f.Value}
    {k : f.Value → Except Mismatch α} (ho : field? ms f.key f.format.decode = .ok o)
    (hf : f.default = none)
    (hk : ∀ y, field? ms f.key f.format.decode = .ok (some y) → l.Needs ms todo (k y)) :
    l.Needs ms (f :: todo) (Document.required f.key o >>= k) := by
  intro done hdone hread hgiven
  have hlacks := Field.lacks_of_field? ho
  rw [hf] at hlacks
  cases o with
  | none =>
      refine Complaint.missing hread ?_
      rw [hdone, List.find?_append, List.find?_eq_none.2 fun g hg => by simp [hgiven g hg]]
      simp [hlacks]
  | some y =>
      exact hk y ho (done ++ [f]) (by simp [hdone]) hread
        (List.forall_mem_append.2 ⟨hgiven, List.forall_mem_singleton.2 hlacks⟩)

theorem Needs.optional {f : Field α} {todo : List (Field α)} {r : Except Mismatch α}
    (hf : f.default.isSome) (h : l.Needs ms todo r) : l.Needs ms (f :: todo) r := by
  intro done hdone hread hgiven
  have hlacks : f.lacks (lookup? f.key ms) = false := by
    rw [Field.lacks, Option.isNone_eq_false_iff.2 hf, Bool.and_false]
  exact h (done ++ [f]) (by simp [hdone]) hread
    (List.forall_mem_append.2 ⟨hgiven, List.forall_mem_singleton.2 hlacks⟩)

theorem Needs.over {x : α} (h : ∀ f ∈ l.fields, f.Stands (lookup? f.key ms) x) :
    l.Needs ms [] (.ok x) := fun _ _ _ _ => h

end Objects

/-! ## Reading an array -/

section Arrays

variable {fs : List (Field α)}

/-- What holds of each field and of the element at its place, if there is one. -/
def Elementwise (P : Field α → Option Json → Prop) : List (Field α) → List Json → Prop
  | [], _ => True
  | f :: fs, vs => P f vs.head? ∧ Elementwise P fs vs.tail

variable {P : Field α → Option Json → Prop} {vs : List Json}

theorem elementwise_nil : Elementwise P fs [] ↔ ∀ f ∈ fs, P f none := by
  induction fs with
  | nil => simp [Elementwise]
  | cons f fs ih => simp [Elementwise, ih]

/-- The element at the place of a field is found under its key. -/
theorem elementwise_iff_named (h : (fs.map Field.key).Nodup) :
    Elementwise P fs vs ↔ ∀ f ∈ fs, P f (lookup? f.key ((fs.map Field.key).zip vs)) := by
  induction fs generalizing vs with
  | nil => simp [Elementwise]
  | cons f fs ih =>
      cases vs with
      | nil => simp [elementwise_nil]
      | cons v vs =>
          obtain ⟨hf, hfs⟩ := List.nodup_cons.1 h
          rw [Elementwise, List.tail_cons, ih hfs, List.forall_mem_cons, List.map_cons,
            List.zip_cons_cons, lookup?_cons_self, List.head?_cons]
          refine and_congr_right fun _ => forall₂_congr fun g hg => ?_
          have hne : f.key ≠ g.key := fun heq => hf (List.mem_map.2 ⟨g, hg, heq.symm⟩)
          rw [lookup?_cons_ne hne]

/-- The elements belong to the first fields, and for the others there is none. -/
theorem elementwise_iff_exists : vs.length ≤ fs.length ∧ Elementwise P fs vs ↔
    ∃ given rest, fs = given ++ rest ∧ List.Forall₂ (fun f v => P f (some v)) given vs ∧
      ∀ f ∈ rest, P f none := by
  induction vs generalizing fs with
  | nil => simp [elementwise_nil]
  | cons v vs ih =>
      cases fs with
      | nil => simp
      | cons f fs =>
          have ih := @ih fs
          rw [Elementwise, List.head?_cons, List.tail_cons, List.length_cons, List.length_cons,
            Nat.succ_le_succ_iff]
          constructor
          · rintro ⟨hle, hf, hfs⟩
            obtain ⟨given, rest, rfl, hgiven, hrest⟩ := ih.1 ⟨hle, hfs⟩
            exact ⟨f :: given, rest, rfl, .cons hf hgiven, hrest⟩
          · rintro ⟨given, rest, heq, hgiven, hrest⟩
            cases hgiven with
            | cons hf hgiven =>
                cases heq
                obtain ⟨hle, hfs⟩ := ih.2 ⟨_, rest, rfl, hgiven, hrest⟩
                exact ⟨hle, hf, hfs⟩

theorem run_required_nil {β : Type} (wanted : String) (decode : Decoder β) (k : β → Row α)
    (i : Nat) :
    StateT.run (Row.required wanted decode >>= k) (i, []) = .error (.invalidLength i wanted) := rfl

theorem run_required_cons {β : Type} (wanted : String) (decode : Decoder β) (k : β → Row α)
    (i : Nat) (v : Json) (vs : List Json) :
    StateT.run (Row.required wanted decode >>= k) (i, v :: vs) =
      decode v >>= fun y => StateT.run (k y) (i + 1, vs) := by
  simp [Row.required]

theorem run_optional_nil {β : Type} (default : β) (decode : Decoder β) (k : β → Row α) (i : Nat) :
    StateT.run (Row.optional default decode >>= k) (i, []) =
      StateT.run (k default) (i + 1, []) := rfl

theorem run_optional_cons {β : Type} (default : β) (decode : Decoder β) (k : β → Row α) (i : Nat)
    (v : Json) (vs : List Json) :
    StateT.run (Row.optional default decode >>= k) (i, v :: vs) =
      decode v >>= fun y => StateT.run (k y) (i + 1, vs) := by
  simp [Row.optional]

/-- A row takes up some fields, and gives the records for which they stand among those that are
known to be meant. -/
def Takes (fs : List (Field α)) (Known : α → Prop) (row : Row α) : Prop :=
  ∀ i vs x s, StateT.run row (i, vs) = .ok (x, s) ↔
    Known x ∧ Elementwise (fun f given => f.Stands given x) fs vs ∧
      s = (i + fs.length, vs.drop fs.length)

variable {Known : α → Prop} {f : Field α} {k : f.Value → Row α}

/-- Where there is an element, it does not matter whether its field is required. -/
theorem run_cons_iff (hk : ∀ y, Takes fs (fun x => Known x ∧ f.get x = y) (k y)) (i : Nat)
    (v : Json) (vs : List Json) (x : α) (s : Nat × List Json) :
    (f.format.decode v >>= fun y => StateT.run (k y) (i + 1, vs)) = .ok (x, s) ↔
      Known x ∧ Elementwise (fun f given => f.Stands given x) (f :: fs) (v :: vs) ∧
        s = (i + (f :: fs).length, (v :: vs).drop (f :: fs).length) := by
  have hlength : i + (f :: fs).length = i + 1 + fs.length := by
    rw [List.length_cons]
    omega
  rw [bind_eq_ok_iff, hlength, List.length_cons, List.drop_succ_cons, Elementwise, List.head?_cons,
    List.tail_cons]
  constructor
  · rintro ⟨y, hy, h⟩
    obtain ⟨⟨hknown, rfl⟩, hfs, hs⟩ := (hk y _ _ _ _).1 h
    exact ⟨hknown, ⟨f.format.decode_eq_ok_iff.1 hy, hfs⟩, hs⟩
  · rintro ⟨hknown, ⟨hmeans, hfs⟩, hs⟩
    exact ⟨f.get x, f.format.decode_eq_ok_iff.2 hmeans,
      (hk _ _ _ _ _).2 ⟨⟨hknown, rfl⟩, hfs, hs⟩⟩

theorem Takes.required {wanted : String} (hf : f.default = none)
    (hk : ∀ y, Takes fs (fun x => Known x ∧ f.get x = y) (k y)) :
    Takes (f :: fs) Known (Row.required wanted f.format.decode >>= k) := by
  intro i vs x s
  cases vs with
  | nil =>
      rw [run_required_nil]
      simp [Elementwise, Field.Stands, hf]
  | cons v vs => rw [run_required_cons, run_cons_iff hk]

theorem Takes.optional {default : f.Value} (hf : f.default = some default)
    (hk : ∀ y, Takes fs (fun x => Known x ∧ f.get x = y) (k y)) :
    Takes (f :: fs) Known (Row.optional default f.format.decode >>= k) := by
  intro i vs x s
  cases vs with
  | nil =>
      have hlength : i + (f :: fs).length = i + 1 + fs.length := by
        rw [List.length_cons]
        omega
      rw [run_optional_nil, hk default, hlength, List.drop_nil, List.drop_nil, Elementwise,
        List.head?_nil, List.tail_nil, Field.Stands, hf, Option.some.injEq, and_assoc, and_assoc,
        eq_comm (a := default)]
  | cons v vs => rw [run_optional_cons, run_cons_iff hk]

theorem Takes.over {x : α} (h : ∀ y, Known y ↔ y = x) : Takes [] Known (pure x) := by
  intro i vs y s
  rw [StateT.run_pure, h]
  simp [Elementwise, pure, Except.pure, eq_comm]

theorem Takes.run_eq_ok_iff {l : Layout α} {row : Row α} (h : Takes l.fields (fun _ => True) row)
    {x : α} : Row.run row vs = .ok x ↔ l.Means (.array vs) x := by
  have hmeans : l.Means (.array vs) x ↔ vs.length ≤ l.fields.length ∧
      Elementwise (fun f given => f.Stands given x) l.fields vs := by
    rw [Means, elementwise_iff_named l.nodup_keys]
    rfl
  rw [Row.run, bind_eq_ok_iff, hmeans]
  constructor
  · rintro ⟨⟨y, s⟩, hrow, hrest⟩
    obtain ⟨-, hfs, rfl⟩ := (h 0 vs y s).1 hrow
    dsimp only at hrest
    split at hrest
    · next hempty =>
        cases hrest
        exact ⟨by simpa using hempty, hfs⟩
    · cases hrest
  · rintro ⟨hle, hfs⟩
    refine ⟨_, (h 0 vs x _).2 ⟨trivial, hfs, rfl⟩, ?_⟩
    dsimp only
    rw [if_pos (by simpa using hle)]
    rfl

end Arrays

/-! ## Records -/

section Records

variable {l : Layout α}

theorem Complaint.congr {ms ns : List (String × Json)} {m : Mismatch}
    (h : ∀ f ∈ l.fields, (lookup? f.key ms).map f.format.decode =
      (lookup? f.key ns).map f.format.decode) (hm : l.Complaint ms m) : l.Complaint ns m := by
  cases hm with
  | @refused f m hf hm hfirst =>
      exact .refused hf ((Field.refuses_congr (h f hf) m).1 hm) fun g hg hlt m hrefuses =>
        hfirst g hg hlt m ((Field.refuses_congr (h g hg) m).2 hrefuses)
  | @missing f hread hf =>
      refine .missing (fun g hg m hrefuses =>
        hread g hg m ((Field.refuses_congr (h g hg) m).2 hrefuses)) ?_
      rw [← hf, ← List.head?_filter, ← List.head?_filter,
        List.filter_congr fun g hg => Field.lacks_congr (h g hg)]

theorem Reads.congr {ms ns : List (String × Json)} {r : Except Mismatch α}
    (h : ∀ f ∈ l.fields, (lookup? f.key ms).map f.format.decode =
      (lookup? f.key ns).map f.format.decode) (hr : l.Reads ms r) : l.Reads ns r := by
  cases r with
  | ok x => exact fun f hf => (Field.stands_congr (h f hf) x).1 (hr f hf)
  | error m => exact Complaint.congr h hr

/-- For a record it remains to be shown how its fields are looked at, missed and taken up. -/
theorem Governs.of_record {s : Shape} {ofObject : List (String × Json) → Except Mismatch α}
    {ofArray : Row α} (hobject : ∀ ms, l.Reads ms (ofObject ms))
    (harray : Takes l.fields (fun _ => True) ofArray) :
    l.Governs s (record s ofObject ofArray) := by
  have hreads : ∀ {ms r}, ofObject ms = r ↔ l.Reads ms r := fun {ms r} =>
    ⟨fun h => h ▸ hobject ms, Reads.unique (hobject ms)⟩
  have hok : ∀ {v x}, record s ofObject ofArray v = .ok x ↔ l.Means v x := by
    intro v x
    cases v with
    | object ms => exact hreads
    | array vs => exact harray.run_eq_ok_iff
    | _ => simp [record, unfit, Means]
  have haccepts : ∀ ms, (∃ x, ofObject ms = .ok x) ↔
      ∀ f ∈ l.fields, f.Admits (lookup? f.key ms) := by
    intro ms
    constructor
    · rintro ⟨x, hx⟩ f hf
      exact (hreads.1 hx f hf).admits
    · intro h
      cases hr : ofObject ms with
      | ok x => exact ⟨x, rfl⟩
      | error m =>
          obtain ⟨f, hf, hnot⟩ := Complaint.not_admits (hreads.1 hr)
          exact absurd (h f hf) hnot
  have hcongr : ∀ ms ns, (∀ f ∈ l.fields, (lookup? f.key ms).map f.format.decode =
      (lookup? f.key ns).map f.format.decode) → ofObject ms = ofObject ns :=
    fun ms ns h => Reads.unique ((hobject ms).congr h) (hobject ns)
  refine ⟨hok, haccepts, fun ms m => hreads, hcongr,
    fun ms ns hms hperm => hcongr ms ns fun f _ => by rw [lookup?_perm hms hperm], fun vs => ?_,
    fun vs x h => hreads.2 (hok.1 h).2, fun v hobject harray => ?_⟩
  · rw [← elementwise_iff_exists, elementwise_iff_named l.nodup_keys]
    refine Iff.trans ?_ (and_congr_right fun _ => haccepts (l.named vs))
    simp only [hok, Means, exists_and_left]
    exact and_congr_right fun _ => exists_congr fun x => (hok (v := .object (l.named vs))).symm
  · cases v with
    | object ms => exact absurd rfl (hobject ms)
    | array vs => exact absurd rfl (harray vs)
    | _ => rfl

end Records

end Layout

end Document

open Document Layout

theorem orElse_some {β : Type} (o : Option β) (default : β) :
    (o <|> some default) = some (o.getD default) := by
  cases o <;> rfl

namespace GroupVersion

def layout : Layout GroupVersion where
  fields := [⟨"group", _, .text, (·.group), none⟩, ⟨"version", _, .text, (·.version), none⟩]
  nodup_keys := by decide
  ext {x y} h := by
    cases x
    cases y
    simp_all

theorem permits_layout : layout.Permits :=
  ⟨by simp [layout, optionalKeys, Field.Admits],
    by simp [layout, Field.Admits, Format.text]⟩

theorem reads_object (ms : List (String × Json)) : layout.Reads ms (decode (.object ms)) := by
  refine .of_visits <| .next fun group hgroup => .next fun version hversion => .over ?_
  refine .required hgroup rfl fun group hgroup => .required hversion rfl fun version hversion =>
    .over ?_
  simp only [layout, List.forall_mem_cons]
  exact ⟨Field.stands_of_field? hgroup rfl, Field.stands_of_field? hversion rfl, nofun⟩

theorem governs_layout : layout.Governs shape decode := by
  refine .of_record reads_object ?_
  refine .required rfl fun group => .required rfl fun version => .over fun gv => ?_
  cases gv
  simp

end GroupVersion

namespace ResourceReference

def layout : Layout ResourceReference where
  fields := [⟨"group", _, .text, (·.group), none⟩, ⟨"version", _, .text, (·.version), none⟩,
    ⟨"kind", _, .text, (·.kind), none⟩, ⟨"name", _, .text, (·.name), none⟩,
    ⟨"namespace", _, .textOrNull, (·.ns), some none⟩]
  nodup_keys := by decide
  ext {x y} h := by
    cases x
    cases y
    simp_all

theorem permits_layout : layout.Permits := by
  have hnull : ∃ ns, Format.textOrNull.Means .null ns := ⟨none, rfl⟩
  exact ⟨by simp [layout, optionalKeys, Field.Admits],
    by simp [layout, Field.Admits, Format.text, hnull]⟩

theorem reads_object (ms : List (String × Json)) : layout.Reads ms (decode (.object ms)) := by
  refine .of_visits <| .next fun group hgroup => .next fun kind hkind => .next fun name hname =>
    .next fun ns hns => .next fun version hversion => .over ?_
  refine .required hgroup rfl fun group hgroup => .required hversion rfl fun version hversion =>
    .required hkind rfl fun kind hkind => .required hname rfl fun name hname =>
    .optional rfl <| .over ?_
  simp only [layout, List.forall_mem_cons]
  exact ⟨Field.stands_of_field? hgroup rfl, Field.stands_of_field? hversion rfl,
    Field.stands_of_field? hkind rfl, Field.stands_of_field? hname rfl,
    Field.stands_of_field? hns (by cases ns <;> rfl), nofun⟩

theorem governs_layout : layout.Governs shape decode := by
  refine .of_record reads_object ?_
  refine .required rfl fun group => .required rfl fun version => .required rfl fun kind =>
    .required rfl fun name => .optional rfl fun ns => .over fun r => ?_
  cases r
  simp [and_assoc]

def format : Format ResourceReference :=
  ⟨decode, layout.Means, governs_layout.decode_eq_ok_iff⟩

end ResourceReference

namespace ProviderConfig

def layout : Layout ProviderConfig where
  fields := [⟨"label", _, .text, (·.label), none⟩, ⟨"audiences", _, .texts, (·.audiences), some []⟩,
    ⟨"providerName", _, .text, (·.providerName), none⟩]
  nodup_keys := by decide
  ext {x y} h := by
    cases x
    cases y
    simp_all

theorem permits_layout : layout.Permits :=
  ⟨by simp [layout, optionalKeys, Field.Admits],
    by simp [layout, Field.Admits, Format.text, Format.texts]⟩

theorem reads_object (ms : List (String × Json)) : layout.Reads ms (decode (.object ms)) := by
  refine .of_visits <| .next fun audiences haudiences => .next fun label hlabel =>
    .next fun providerName hproviderName => .over ?_
  refine .required hlabel rfl fun label hlabel => .optional rfl <|
    .required hproviderName rfl fun providerName hproviderName => .over ?_
  simp only [layout, List.forall_mem_cons]
  exact ⟨Field.stands_of_field? hlabel rfl, Field.stands_of_field? haudiences (orElse_some _ _),
    Field.stands_of_field? hproviderName rfl, nofun⟩

theorem governs_layout : layout.Governs shape decode := by
  refine .of_record reads_object ?_
  refine .required rfl fun label => .optional rfl fun audiences => .required rfl
    fun providerName => .over fun c => ?_
  cases c
  simp [and_assoc]

end ProviderConfig

namespace ProtectedResource

def layout : Layout ProtectedResource where
  fields := [⟨"resourceReference", _, ResourceReference.format, (·.resourceReference), none⟩,
    ⟨"workloadSelector", _, Selector.format, (·.workloadSelector), some .empty⟩,
    ⟨"hostPaths", _, .texts, (·.hostPaths), some []⟩, ⟨"ports", _, .texts, (·.ports), some []⟩]
  nodup_keys := by decide
  ext {x y} h := by
    cases x
    cases y
    simp_all

theorem permits_layout : layout.Permits :=
  ⟨by simp [layout, optionalKeys, Field.Admits],
    by simp [layout, Field.Admits, Format.texts, Selector.format, Selector.Means,
    ResourceReference.format, Layout.Means]⟩

theorem reads_object (ms : List (String × Json)) : layout.Reads ms (decode (.object ms)) := by
  refine .of_visits <| .next fun hostPaths hhostPaths => .next fun ports hports =>
    .next fun reference hreference => .next fun selector hselector => .over ?_
  refine .required hreference rfl fun reference hreference => .optional rfl <| .optional rfl <|
    .optional rfl <| .over ?_
  simp only [layout, List.forall_mem_cons]
  exact ⟨Field.stands_of_field? hreference rfl, Field.stands_of_field? hselector (orElse_some _ _),
    Field.stands_of_field? hhostPaths (orElse_some _ _),
    Field.stands_of_field? hports (orElse_some _ _), nofun⟩

theorem governs_layout : layout.Governs shape decode := by
  refine .of_record reads_object ?_
  refine .required rfl fun reference => .optional rfl fun selector => .optional rfl fun hostPaths =>
    .optional rfl fun ports => .over fun t => ?_
  cases t
  simp [and_assoc]

end ProtectedResource

namespace IngressConfig

def layout : Layout IngressConfig where
  fields := [⟨"ingressSelectorLabel", _, .text, (·.ingressSelectorLabel), none⟩,
    ⟨"ingressSelectorValue", _, .text, (·.ingressSelectorValue), none⟩,
    ⟨"ingressService", _, .text, (·.ingressService), none⟩,
    ⟨"gatewayNamespace", _, .text, (·.gatewayNamespace), none⟩]
  nodup_keys := by decide
  ext {x y} h := by
    cases x
    cases y
    simp_all

theorem permits_layout : layout.Permits :=
  ⟨by simp [layout, optionalKeys, Field.Admits],
    by simp [layout, Field.Admits, Format.text]⟩

theorem reads_object (ms : List (String × Json)) : layout.Reads ms (decode (.object ms)) := by
  refine .of_visits <| .next fun ns hns => .next fun label hlabel => .next fun value hvalue =>
    .next fun service hservice => .over ?_
  refine .required hlabel rfl fun label hlabel => .required hvalue rfl fun value hvalue =>
    .required hservice rfl fun service hservice => .required hns rfl fun ns hns => .over ?_
  simp only [layout, List.forall_mem_cons]
  exact ⟨Field.stands_of_field? hlabel rfl, Field.stands_of_field? hvalue rfl,
    Field.stands_of_field? hservice rfl, Field.stands_of_field? hns rfl, nofun⟩

theorem governs_layout : layout.Governs shape decode := by
  refine .of_record reads_object ?_
  refine .required rfl fun label => .required rfl fun value => .required rfl fun service =>
    .required rfl fun ns => .over fun c => ?_
  cases c
  simp [and_assoc]

end IngressConfig

namespace RoutingTarget

def layout : Layout RoutingTarget where
  fields := [⟨"resourceReference", _, ResourceReference.format, (·.resourceReference), none⟩]
  nodup_keys := by decide
  ext {x y} h := by
    cases x
    cases y
    simp_all

theorem permits_layout : layout.Permits :=
  ⟨by simp [layout, optionalKeys, Field.Admits],
    by simp [layout, Field.Admits, ResourceReference.format, Layout.Means]⟩

theorem reads_object (ms : List (String × Json)) : layout.Reads ms (decode (.object ms)) := by
  refine .of_visits <| .next fun reference hreference => .over ?_
  refine .required hreference rfl fun reference hreference => .over ?_
  simp only [layout, List.forall_mem_cons]
  exact ⟨Field.stands_of_field? hreference rfl, nofun⟩

theorem governs_layout : layout.Governs shape decode := by
  refine .of_record reads_object ?_
  refine .required rfl fun reference => .over fun t => ?_
  cases t
  simp

end RoutingTarget

/-- Each record is read from the documents that its layout describes, and from no others. -/
theorem documents_accepted :
    (GroupVersion.layout.Governs GroupVersion.shape GroupVersion.decode ∧
      GroupVersion.layout.Permits) ∧
    (ResourceReference.layout.Governs ResourceReference.shape ResourceReference.decode ∧
      ResourceReference.layout.Permits) ∧
    (ProviderConfig.layout.Governs ProviderConfig.shape ProviderConfig.decode ∧
      ProviderConfig.layout.Permits) ∧
    (ProtectedResource.layout.Governs ProtectedResource.shape ProtectedResource.decode ∧
      ProtectedResource.layout.Permits) ∧
    (IngressConfig.layout.Governs IngressConfig.shape IngressConfig.decode ∧
      IngressConfig.layout.Permits) ∧
    (RoutingTarget.layout.Governs RoutingTarget.shape RoutingTarget.decode ∧
      RoutingTarget.layout.Permits) :=
  ⟨⟨GroupVersion.governs_layout, GroupVersion.permits_layout⟩,
    ⟨ResourceReference.governs_layout, ResourceReference.permits_layout⟩,
    ⟨ProviderConfig.governs_layout, ProviderConfig.permits_layout⟩,
    ⟨ProtectedResource.governs_layout, ProtectedResource.permits_layout⟩,
    ⟨IngressConfig.governs_layout, IngressConfig.permits_layout⟩,
    ⟨RoutingTarget.governs_layout, RoutingTarget.permits_layout⟩⟩

/-- A version that is no text is complained of sooner than a group that is left out. -/
example : GroupVersion.decode (.object [("version", .null)]) = unfit "a string" .null := rfl

end Lifecycle
