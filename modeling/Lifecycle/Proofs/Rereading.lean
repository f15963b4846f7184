import Lifecycle.Document.Text
import Lifecycle.Settings

/-!
# What is written is read back

The printer puts a value into its compact text and the reader finds a value in a
text, and the two know nothing of each other. What ties them together is one
statement about scanners: a value is `Legible` to a scanner that finds it in front
of its own text, whatever comes after the text and without using any of that. A
string is legible because each character is, whichever of the nine ways of writing
it applies; a list or an object is legible to the scanner of one more level as soon
as its parts are legible to the scanner of their level. An induction over `Plain`
values, which is what the settings are written as, puts these together.

What is found is not the value itself but the value `ordered`: the reader sorts the
members of every object, and records are written in the order in which their fields
are declared. For a record the order of the keys is a matter of evaluating it. For a
selector, whose labels are not known, it comes from the labels being ascending.

A `Faithful` pair of an `encode` and a `decode` is one whose documents survive being
written and read. That no two records are written alike is a consequence, and so is
that a namespace that is absent, which leaves no trace in the text, is not mistaken
for an empty one.
-/

namespace Lifecycle

namespace Json

/-! ## Strings -/

theorem stringBody_of_escape {strict : Bool} {s r : List Char} {c : Char}
    (h : escape strict s = .ok (c, r)) :
    stringBody strict ('\\' :: s) = (stringBody strict r).map fun p => (c :: p.1, p.2) := by
  rw [stringBody, if_neg (by decide), if_pos rfl]
  split
  · next he =>
      rw [h] at he
      cases he
  · next d q he =>
      rw [h] at he
      cases he
      cases stringBody strict r <;> rfl

theorem stringBody_cons {strict : Bool} {s : List Char} {c : Char} (hquote : c ≠ '"')
    (hslash : c ≠ '\\') (hcontrol : 0x20 ≤ c.toNat) :
    stringBody strict (c :: s) = (stringBody strict s).map fun p => (c :: p.1, p.2) := by
  rw [stringBody, if_neg hquote, if_neg hslash, if_neg (Nat.not_lt.2 hcontrol)]
  cases stringBody strict s <;> rfl

theorem hexValue?_of_lt : ∀ n < 0x20, hexValue?
    ['0', '0', Nat.digitChar (n / 16), Nat.digitChar (n % 16)] = some n := by
  decide

theorem hexWord_cons {a b c d : Char} {s : List Char} {n : Nat}
    (h : hexValue? [a, b, c, d] = some n) : hexWord (a :: b :: c :: d :: s) = .ok (n, s) := by
  have hlong : ¬ byteLength (a :: b :: c :: d :: s) < 4 := by
    have ha := a.utf8Size_pos
    have hb := b.utf8Size_pos
    have hc := c.utf8Size_pos
    have hd := d.utf8Size_pos
    simp only [byteLength, List.map_cons, List.foldr_cons]
    omega
  rw [hexWord, if_neg hlong]
  have htake : (a :: b :: c :: d :: s).take 4 = [a, b, c, d] := rfl
  rw [htake, h]
  dsimp only
  rw [if_neg (by simp)]
  rfl

/-- A control character that is written by its code point is read from it. -/
theorem escape_control {c : Char} (h : c.toNat < 0x20) (s : List Char) :
    escape true ('u' :: '0' :: '0' :: Nat.digitChar (c.toNat / 16) ::
      Nat.digitChar (c.toNat % 16) :: s) = .ok (c, s) := by
  rw [escape, show letterChar? 'u' = none by decide]
  dsimp only
  rw [if_pos rfl, codeChar, hexWord_cons (hexValue?_of_lt _ h)]
  dsimp only
  rw [if_neg (by decide), if_neg (by omega), if_neg (by omega), Char.ofNat_toNat]

/-- Whatever a character is written as, it is read back. -/
theorem stringBody_escapedChar (c : Char) (s : List Char) :
    stringBody true (escapedChar c ++ s) =
      (stringBody true s).map fun p => (c :: p.1, p.2) := by
  have hnat : ∀ {n : Nat}, c.toNat = n → Char.ofNat n = c := fun h => by
    rw [← h, Char.ofNat_toNat]
  unfold escapedChar
  split
  · next h => subst h; exact stringBody_of_escape (by rfl)
  split
  · next h => subst h; exact stringBody_of_escape (by rfl)
  split
  · next h => subst h; exact stringBody_of_escape (by rfl)
  split
  · next h => subst h; exact stringBody_of_escape (by rfl)
  split
  · next h => subst h; exact stringBody_of_escape (by rfl)
  split
  · next h => rw [← hnat h]; exact stringBody_of_escape (by rfl)
  split
  · next h => rw [← hnat h]; exact stringBody_of_escape (by rfl)
  split
  · next h => exact stringBody_of_escape (escape_control h s)
  · next hquote hslash _ _ _ _ _ hcontrol =>
      exact stringBody_cons hquote hslash (Nat.not_lt.1 hcontrol)

theorem stringBody_escaped (cs s : List Char) :
    stringBody true (cs.flatMap escapedChar ++ '"' :: s) = .ok (cs, s) := by
  induction cs with
  | nil => rw [List.flatMap_nil, List.nil_append, stringBody, if_pos rfl]
  | cons c cs ih =>
      rw [List.flatMap_cons, List.append_assoc, stringBody_escapedChar, ih]
      rfl

/-- A string is read back from between its quotes. -/
theorem stringText_escaped (t : String) (s : List Char) :
    stringText (t.toList.flatMap escapedChar ++ '"' :: s) = .ok (t, s) := by
  rw [stringText, stringBody_escaped]
  exact congrArg (fun u => Except.ok (u, s)) String.ofList_toList

/-! ## Values -/

mutual

/-- A value as it comes out of its text: the members of its objects are in ascending order. -/
def ordered : Json → Json
  | null => null
  | bool b => bool b
  | integer i => integer i
  | float x => float x
  | string s => string s
  | array items => array (orderedItems items)
  | object members => object (orderedMembers [] members)

def orderedItems : List Json → List Json
  | [] => []
  | v :: rest => ordered v :: orderedItems rest

/-- The members of an object that were read, and those that are still to come. -/
def orderedMembers (ms : List (String × Json)) : List (String × Json) → List (String × Json)
  | [] => ms
  | (k, v) :: rest => orderedMembers (insertMember k (ordered v) ms) rest

end

/-- A value without numbers in it whose lists and objects are at most so many levels deep. -/
inductive Plain : Nat → Json → Prop where
  | null {d : Nat} : Plain d null
  | bool {d : Nat} (b : Bool) : Plain d (bool b)
  | string {d : Nat} (s : String) : Plain d (string s)
  | array {d : Nat} {items : List Json} (h : ∀ v ∈ items, Plain d v) : Plain (d + 1) (array items)
  | object {d : Nat} {members : List (String × Json)} (h : ∀ p ∈ members, Plain d p.2) :
      Plain (d + 1) (object members)

/-- A value that a scanner finds in its text, whatever comes after it. -/
structure Legible (item : List Char → Scan Json) (v : Json) : Prop where
  head : ∃ c s, v.chars = c :: s ∧ isGap c = false ∧ c ≠ ']'
  reads : ∀ r, item (v.chars ++ r) = .ok (v.ordered, r)

theorem skipGap_cons {c : Char} (h : isGap c = false) (s : List Char) :
    skipGap (c :: s) = c :: s := by
  rw [skipGap, List.dropWhile_cons_of_neg (by simp [h])]

theorem stringChars_append (s : String) (r : List Char) :
    stringChars s ++ r = '"' :: (s.toList.flatMap escapedChar ++ '"' :: r) := by
  simp [stringChars]

section Lists

variable {item : List Char → Scan Json} {vs : List Json}

theorem itemsChars_cons (v : Json) (vs : List Json) :
    itemsChars (v :: vs) = v.chars ++ vs.flatMap fun w => ',' :: w.chars := by
  induction vs generalizing v with
  | nil => simp [itemsChars]
  | cons w vs ih =>
      rw [itemsChars, ih, List.flatMap_cons, List.cons_append]
      exact List.cons_ne_nil w vs

theorem readItems_of_end {first : Bool} {s r : List Char} {fuel : Nat}
    (h : nextItem first s = .ok (false, r)) : readItems item (fuel + 1) first s = .ok ([], r) := by
  rw [readItems, h]
  rfl

theorem readItems_of_more {first : Bool} {s q r : List Char} {v : Json} {fuel : Nat}
    (h : nextItem first s = .ok (true, q)) (hv : item q = .ok (v, r)) :
    readItems item (fuel + 1) first s =
      (readItems item fuel false r).map fun p => (v :: p.1, p.2) := by
  rw [readItems, h]
  dsimp only [bind, Except.bind]
  rw [if_pos rfl, hv]
  dsimp only
  cases readItems item fuel false r <;> rfl

theorem nextItem_end (first : Bool) (r : List Char) :
    nextItem first (']' :: r) = .ok (false, r) := by
  rw [nextItem, skipGap_cons (by decide)]
  exact if_pos rfl

theorem nextItem_first {v : Json} (h : Legible item v) (r : List Char) :
    nextItem true (v.chars ++ r) = .ok (true, v.chars ++ r) := by
  obtain ⟨c, s, hc, hgap, hend⟩ := h.head
  rw [hc, List.cons_append, nextItem, skipGap_cons hgap]
  dsimp only
  rw [if_neg hend, if_pos rfl]

theorem nextItem_later {v : Json} (h : Legible item v) (r : List Char) :
    nextItem false (',' :: (v.chars ++ r)) = .ok (true, v.chars ++ r) := by
  obtain ⟨c, s, hc, hgap, hend⟩ := h.head
  rw [hc, List.cons_append, nextItem, skipGap_cons (by decide)]
  dsimp only
  rw [if_neg (by decide), if_neg (by decide), if_pos rfl, skipGap_cons hgap]
  dsimp only
  rw [if_neg hend]

-- The fuel is the length of the text, and every element takes at least its comma off it.
theorem readItems_later (h : ∀ v ∈ vs, Legible item v) {fuel : Nat}
    (hfuel : (vs.flatMap fun v => ',' :: v.chars).length < fuel) (r : List Char) :
    readItems item fuel false ((vs.flatMap fun v => ',' :: v.chars) ++ ']' :: r) =
      .ok (orderedItems vs, r) := by
  obtain ⟨fuel, rfl⟩ : ∃ n, fuel = n + 1 := ⟨fuel - 1, by omega⟩
  induction vs generalizing fuel with
  | nil => exact readItems_of_end (nextItem_end false r)
  | cons v vs ih =>
      have hv := h v List.mem_cons_self
      rw [List.flatMap_cons, List.length_append, List.length_cons] at hfuel
      obtain ⟨fuel, rfl⟩ : ∃ n, fuel = n + 1 := ⟨fuel - 1, by omega⟩
      rw [List.flatMap_cons, List.append_assoc, List.cons_append,
        readItems_of_more (nextItem_later hv _) (hv.reads _),
        ih (fun w hw => h w (List.mem_cons_of_mem v hw)) fuel (by omega)]
      rfl

theorem readItems_chars (h : ∀ v ∈ vs, Legible item v) (r : List Char) :
    readItems item ((itemsChars vs ++ ']' :: r).length + 1) true (itemsChars vs ++ ']' :: r) =
      .ok (orderedItems vs, r) := by
  cases vs with
  | nil => exact readItems_of_end (nextItem_end true r)
  | cons v vs =>
      have hv := h v List.mem_cons_self
      rw [itemsChars_cons, List.append_assoc, readItems_of_more (nextItem_first hv _) (hv.reads _),
        readItems_later (fun w hw => h w (List.mem_cons_of_mem v hw)) (by simp; omega)]
      rfl

end Lists

section Objects

variable {item : List Char → Scan Json} {ms : List (String × Json)}

/-- A member with its key. -/
def memberChars (p : String × Json) : List Char := stringChars p.1 ++ ':' :: p.2.chars

theorem membersChars_cons (p : String × Json) (ms : List (String × Json)) :
    membersChars (p :: ms) = memberChars p ++ ms.flatMap fun q => ',' :: memberChars q := by
  induction ms generalizing p with
  | nil => simp [membersChars, memberChars]
  | cons q ms ih =>
      rw [membersChars, ih, List.flatMap_cons, List.cons_append]
      · simp only [memberChars, List.append_assoc, List.cons_append]
      · exact List.cons_ne_nil q ms

theorem memberChars_append (p : String × Json) (r : List Char) :
    memberChars p ++ r =
      '"' :: (p.1.toList.flatMap escapedChar ++ '"' :: ':' :: (p.2.chars ++ r)) := by
  rw [memberChars, List.append_assoc, stringChars_append, List.cons_append]

theorem readMembers_of_end {first : Bool} {s r : List Char} {fuel : Nat}
    (h : nextMember first s = .ok (false, r)) :
    readMembers item (fuel + 1) first ms s = .ok (ms, r) := by
  rw [readMembers, h]
  rfl

theorem nextMember_end (first : Bool) (r : List Char) :
    nextMember first ('\x7d' :: r) = .ok (false, r) := by
  rw [nextMember, skipGap_cons (by decide)]
  exact if_pos rfl

theorem nextMember_first (r : List Char) : nextMember true ('"' :: r) = .ok (true, r) := by
  rw [nextMember, skipGap_cons (by decide)]
  rfl

theorem nextMember_later (r : List Char) : nextMember false (',' :: '"' :: r) = .ok (true, r) := by
  rw [nextMember, skipGap_cons (by decide)]
  dsimp only
  rw [skipGap_cons (by decide)]
  rfl

/-- Once the quote of its key is found, a member is read. -/
theorem readMembers_of_more {first : Bool} {s r : List Char} {k : String} {v : Json} {fuel : Nat}
    (h : nextMember first s =
      .ok (true, k.toList.flatMap escapedChar ++ '"' :: ':' :: (v.chars ++ r)))
    (hv : Legible item v) :
    readMembers item (fuel + 1) first ms s =
      readMembers item fuel false (insertMember k v.ordered ms) r := by
  have hcolon : colon (':' :: (v.chars ++ r)) = .ok ((), v.chars ++ r) := by
    rw [colon, skipGap_cons (by decide)]
    exact if_pos rfl
  rw [readMembers, h]
  dsimp only [bind, Except.bind]
  rw [if_pos rfl, stringText_escaped]
  dsimp only
  rw [hcolon]
  dsimp only
  rw [hv.reads]

theorem readMembers_later {ns : List (String × Json)} (h : ∀ p ∈ ns, Legible item p.2) {fuel : Nat}
    (hfuel : (ns.flatMap fun p => ',' :: memberChars p).length < fuel) (r : List Char) :
    readMembers item fuel false ms ((ns.flatMap fun p => ',' :: memberChars p) ++ '\x7d' :: r) =
      .ok (orderedMembers ms ns, r) := by
  obtain ⟨fuel, rfl⟩ : ∃ n, fuel = n + 1 := ⟨fuel - 1, by omega⟩
  induction ns generalizing fuel ms with
  | nil => exact readMembers_of_end (nextMember_end false r)
  | cons p ns ih =>
      rw [List.flatMap_cons, List.length_append, List.length_cons] at hfuel
      obtain ⟨fuel, rfl⟩ : ∃ n, fuel = n + 1 := ⟨fuel - 1, by omega⟩
      rw [List.flatMap_cons, List.append_assoc, List.cons_append, memberChars_append,
        readMembers_of_more (nextMember_later _) (h p List.mem_cons_self),
        ih (fun q hq => h q (List.mem_cons_of_mem p hq)) fuel (by omega)]
      rfl

theorem readMembers_chars (h : ∀ p ∈ ms, Legible item p.2) (r : List Char) :
    readMembers item ((membersChars ms ++ '\x7d' :: r).length + 1) true []
      (membersChars ms ++ '\x7d' :: r) = .ok (orderedMembers [] ms, r) := by
  cases ms with
  | nil => exact readMembers_of_end (nextMember_end true r)
  | cons p ms =>
      have hfuel : (ms.flatMap fun q => ',' :: memberChars q).length <
          (membersChars (p :: ms) ++ '\x7d' :: r).length := by
        rw [membersChars_cons]
        simp only [List.length_append, List.length_cons]
        omega
      generalize (membersChars (p :: ms) ++ '\x7d' :: r).length = fuel at hfuel
      rw [membersChars_cons, List.append_assoc, memberChars_append,
        readMembers_of_more (nextMember_first _) (h p List.mem_cons_self),
        readMembers_later (fun q hq => h q (List.mem_cons_of_mem p hq)) hfuel]
      rfl

end Objects

theorem readValue_quote (d : Nat) (s : List Char) :
    readValue d ('"' :: s) = (stringText s).map fun p => (string p.1, p.2) := by
  rw [readValue, skipGap_cons (by decide)]
  rfl

theorem readValue_bracket (d : Nat) (s : List Char) :
    readValue (d + 1) ('[' :: s) =
      (readItems (readValue d) (s.length + 1) true s).map fun p => (array p.1, p.2) := by
  rw [readValue, skipGap_cons (by decide)]
  rfl

theorem readValue_brace (d : Nat) (s : List Char) :
    readValue (d + 1) ('\x7b' :: s) =
      (readMembers (readValue d) (s.length + 1) true [] s).map fun p => (object p.1, p.2) := by
  rw [readValue, skipGap_cons (by decide)]
  rfl

theorem readValue_null (d : Nat) (r : List Char) :
    readValue d ('n' :: 'u' :: 'l' :: 'l' :: r) = .ok (null, r) := by
  rw [readValue, skipGap_cons (by decide)]
  rfl

theorem readValue_bool (d : Nat) (b : Bool) (r : List Char) :
    readValue d ((bool b).chars ++ r) = .ok (bool b, r) := by
  cases b
  all_goals
    rw [readValue, chars, List.cons_append, skipGap_cons (by decide)]
    rfl

/-- A value without numbers is read back from its text. -/
theorem Plain.legible {d : Nat} {v : Json} (h : Plain d v) : Legible (readValue d) v := by
  induction h with
  | null => exact ⟨⟨'n', _, rfl, rfl, by decide⟩, readValue_null _⟩
  | bool b =>
      refine ⟨?_, readValue_bool _ b⟩
      cases b
      · exact ⟨'f', _, rfl, rfl, by decide⟩
      · exact ⟨'t', _, rfl, rfl, by decide⟩
  | string s =>
      refine ⟨⟨'"', _, rfl, rfl, by decide⟩, fun r => ?_⟩
      rw [chars, stringChars_append, readValue_quote, stringText_escaped]
      rfl
  | array h ih =>
      refine ⟨⟨'[', _, rfl, rfl, by decide⟩, fun r => ?_⟩
      rw [chars, List.cons_append, List.append_assoc, List.singleton_append, readValue_bracket,
        readItems_chars ih]
      rfl
  | object h ih =>
      refine ⟨⟨'\x7b', _, rfl, rfl, by decide⟩, fun r => ?_⟩
      rw [chars, List.cons_append, List.append_assoc, List.singleton_append, readValue_brace,
        readMembers_chars ih]
      rfl

/-- The reader undoes the printer, up to the order of members. -/
theorem read_text {v : Json} (h : Plain maxDepth v) : read v.text = .ok v.ordered := by
  have hchars : readChars v.chars = .ok v.ordered := by
    have hreads := h.legible.reads []
    rw [List.append_nil] at hreads
    rw [readChars, hreads]
    rfl
  rw [read, text, String.toList_ofList, hchars]

/-! ## Members that are in order already -/

theorem insertMember_above {k : String} {ms : List (String × Json)} (h : ∀ p ∈ ms, p.1 < k)
    (v : Json) : insertMember k v ms = ms ++ [(k, v)] := by
  induction ms with
  | nil => rfl
  | cons p ms ih =>
      have hlt := h p List.mem_cons_self
      have hgt : compare k p.1 = .gt := by
        show compareOfLessAndEq k p.1 = .gt
        rw [compareOfLessAndEq, if_neg (String.lt_asymm hlt), if_neg (String.ne_of_lt hlt).symm]
      rw [insertMember, hgt, ih fun q hq => h q (List.mem_cons_of_mem p hq)]
      rfl

theorem orderedMembers_ascending {ms ns : List (String × Json)}
    (h : (ms ++ ns).Pairwise fun a b => a.1 < b.1) (hns : ∀ p ∈ ns, p.2.ordered = p.2) :
    orderedMembers ms ns = ms ++ ns := by
  induction ns generalizing ms with
  | nil => rw [orderedMembers, List.append_nil]
  | cons p ns ih =>
      have hlt : ∀ q ∈ ms, q.1 < p.1 := fun q hq =>
        (List.pairwise_append.1 h).2.2 q hq p List.mem_cons_self
      rw [List.append_cons] at h ⊢
      rw [orderedMembers, hns p List.mem_cons_self, insertMember_above hlt,
        ih h fun q hq => hns q (List.mem_cons_of_mem p hq)]

end Json

open Document Json

/-! ## The parts of records -/

theorem field?_of_lookup {α : Type} {ms : List (String × Json)} {key : String} {v : Json} {x : α}
    {decode : Decoder α} (h : lookup? key ms = some v) (hv : decode v = .ok x) :
    field? ms key decode = .ok (some x) := by
  rw [field?, h]
  dsimp only
  rw [hv, Except.map]

theorem ordered_encodeTexts (ts : List String) : (encodeTexts ts).ordered = encodeTexts ts := by
  have hitems : orderedItems (ts.map .string) = ts.map .string := by
    induction ts with
    | nil => rfl
    | cons t ts ih => rw [List.map_cons, orderedItems, ih, ordered]
  rw [encodeTexts, ordered, hitems]

theorem each_strings (ts : List String) : each Document.string (ts.map .string) = .ok ts := by
  induction ts with
  | nil => rfl
  | cons t ts ih =>
      rw [List.map_cons, each, ih]
      rfl

theorem list_ordered (ts : List String) :
    list Document.string (encodeTexts ts).ordered = .ok ts := by
  rw [ordered_encodeTexts, encodeTexts, list, each_strings]

theorem plain_encodeTexts (d : Nat) (ts : List String) : Plain (d + 1) (encodeTexts ts) := by
  refine .array fun v hv => ?_
  obtain ⟨t, -, rfl⟩ := List.mem_map.1 hv
  exact .string t

namespace Selector

theorem ordered_encode (s : Selector) : s.encode.ordered = s.encode := by
  have hmembers : orderedMembers [] (s.pairs.map fun p => (p.1, .string p.2)) =
      s.pairs.map fun p => (p.1, .string p.2) := by
    refine orderedMembers_ascending (s.ascending.map _ fun _ _ h => h) fun p hp => ?_
    obtain ⟨q, -, rfl⟩ := List.mem_map.1 hp
    rfl
  rw [encode, ordered, hmembers]

theorem decodeMembers_encode (ps : List (String × String)) :
    decodeMembers (ps.map fun p => (p.1, .string p.2)) = .ok ps := by
  induction ps with
  | nil => rfl
  | cons p ps ih =>
      rw [List.map_cons, decodeMembers, ih]
      rfl

theorem insertPair_above {l : String} {ps : List (String × String)} (h : ∀ p ∈ ps, p.1 < l)
    (v : String) : insertPair l v ps = ps ++ [(l, v)] := by
  induction ps with
  | nil => rfl
  | cons p ps ih =>
      have hlt := h p List.mem_cons_self
      rw [insertPair, if_neg (String.lt_asymm hlt), if_pos hlt,
        ih fun q hq => h q (List.mem_cons_of_mem p hq)]
      rfl

theorem pairs_foldl_insert {s : Selector} {ps : List (String × String)}
    (h : (s.pairs ++ ps).Pairwise fun a b => a.1 < b.1) :
    (ps.foldl (fun s p => s.insert p.1 p.2) s).pairs = s.pairs ++ ps := by
  induction ps generalizing s with
  | nil => rw [List.foldl_nil, List.append_nil]
  | cons p ps ih =>
      have hinsert : (s.insert p.1 p.2).pairs = s.pairs ++ [p] :=
        insertPair_above (fun q hq => (List.pairwise_append.1 h).2.2 q hq p List.mem_cons_self) p.2
      rw [List.append_cons, ← hinsert] at h ⊢
      exact ih h

/-- A selector is the selector of its own pairs. -/
theorem ofList_pairs (s : Selector) : ofList s.pairs = s := by
  have hpairs : (ofList s.pairs).pairs = s.pairs :=
    pairs_foldl_insert (s := empty) s.ascending
  generalize ofList s.pairs = t at hpairs
  cases s
  cases t
  cases hpairs
  rfl

theorem decode_ordered (s : Selector) : decode s.encode.ordered = .ok s := by
  rw [ordered_encode, encode, decode, decodeMembers_encode, Except.map, ofList_pairs]

theorem plain_encode (d : Nat) (s : Selector) : Plain (d + 1) s.encode := by
  refine .object fun p hp => ?_
  obtain ⟨q, -, rfl⟩ := List.mem_map.1 hp
  exact .string q.2

end Selector

/-! ## Records -/

namespace GroupVersion

theorem plain_encode (d : Nat) (gv : GroupVersion) : Plain (d + 1) gv.encode :=
  .object (by simp [Plain.string])

theorem decode_ordered (gv : GroupVersion) : decode gv.encode.ordered = .ok gv := rfl

end GroupVersion

namespace ResourceReference

theorem plain_encode (d : Nat) (r : ResourceReference) : Plain (d + 1) r.encode := by
  obtain ⟨_, _, _, _, _ | _⟩ := r
  all_goals exact .object (by simp [Plain.string])

-- The two documents differ in a member, so the namespace decides what is evaluated.
theorem decode_ordered (r : ResourceReference) : decode r.encode.ordered = .ok r := by
  obtain ⟨_, _, _, _, _ | _⟩ := r
  all_goals rfl

end ResourceReference

namespace ProviderConfig

theorem plain_encode (d : Nat) (c : ProviderConfig) : Plain (d + 2) c.encode :=
  .object (by simp [Plain.string, plain_encodeTexts])

theorem decode_ordered (c : ProviderConfig) : decode c.encode.ordered = .ok c := by
  let ms := [("audiences", (encodeTexts c.audiences).ordered), ("label", .string c.label),
    ("providerName", .string c.providerName)]
  have hordered : c.encode.ordered = .object ms := rfl
  have haudiences : field? ms "audiences" (list Document.string) = .ok (some c.audiences) :=
    field?_of_lookup rfl (list_ordered c.audiences)
  rw [hordered, decode, record]
  rw [haudiences]
  rfl

end ProviderConfig

namespace IngressConfig

theorem plain_encode (d : Nat) (c : IngressConfig) : Plain (d + 1) c.encode :=
  .object (by simp [Plain.string])

theorem decode_ordered (c : IngressConfig) : decode c.encode.ordered = .ok c := rfl

end IngressConfig

namespace ProtectedResource

theorem plain_encode (d : Nat) (t : ProtectedResource) : Plain (d + 2) t.encode :=
  .object (by simp [t.resourceReference.plain_encode, t.workloadSelector.plain_encode,
    plain_encodeTexts])

theorem decode_ordered (t : ProtectedResource) : decode t.encode.ordered = .ok t := by
  let ms := [("hostPaths", (encodeTexts t.hostPaths).ordered),
    ("ports", (encodeTexts t.ports).ordered),
    ("resourceReference", t.resourceReference.encode.ordered),
    ("workloadSelector", t.workloadSelector.encode.ordered)]
  have hordered : t.encode.ordered = .object ms := rfl
  have hpaths : field? ms "hostPaths" (list Document.string) = .ok (some t.hostPaths) :=
    field?_of_lookup rfl (list_ordered t.hostPaths)
  have hports : field? ms "ports" (list Document.string) = .ok (some t.ports) :=
    field?_of_lookup rfl (list_ordered t.ports)
  have hreference : field? ms "resourceReference" ResourceReference.decode =
      .ok (some t.resourceReference) :=
    field?_of_lookup rfl t.resourceReference.decode_ordered
  have hselector : field? ms "workloadSelector" Selector.decode = .ok (some t.workloadSelector) :=
    field?_of_lookup rfl t.workloadSelector.decode_ordered
  rw [hordered, decode, record]
  rw [hpaths, hports, hreference, hselector]
  rfl

end ProtectedResource

namespace RoutingTarget

theorem plain_encode (d : Nat) (t : RoutingTarget) : Plain (d + 2) t.encode :=
  .object (by simp [t.resourceReference.plain_encode])

theorem decode_ordered (t : RoutingTarget) : decode t.encode.ordered = .ok t := by
  let ms := [("resourceReference", t.resourceReference.encode.ordered)]
  have hordered : t.encode.ordered = .object ms := rfl
  have hreference : field? ms "resourceReference" ResourceReference.decode =
      .ok (some t.resourceReference) :=
    field?_of_lookup rfl t.resourceReference.decode_ordered
  rw [hordered, decode, record]
  rw [hreference]
  rfl

end RoutingTarget

/-! ## From text to text -/

namespace Document

/-- Every record is read back from its own text, so no two records are written alike. -/
structure Faithful {α : Type} (encode : α → Json) (decode : Decoder α) : Prop where
  reread : ∀ x, ofText decode (write encode x) = .ok x
  injective : Function.Injective (write encode)

theorem Faithful.of_decode {α : Type} {encode : α → Json} {decode : Decoder α}
    (hplain : ∀ x, Plain maxDepth (encode x)) (hdecode : ∀ x, decode (encode x).ordered = .ok x) :
    Faithful encode decode := by
  have hreread : ∀ x, ofText decode (write encode x) = .ok x := fun x => by
    rw [ofText, write, read_text (hplain x)]
    dsimp only
    rw [hdecode]
  refine ⟨hreread, fun x y h => ?_⟩
  have hxy : Except.ok x = (Except.ok y : Except TextError α) := by
    rw [← hreread x, h, hreread]
  exact Except.ok.inj hxy

theorem Faithful.survives {α : Type} [DecidableEq α] {encode : α → Json} {decode : Decoder α}
    (h : Faithful encode decode) (x : α) : survives encode decode x = true := by
  rw [Document.survives, h.reread]
  exact decide_eq_true rfl

end Document

/-- All settings survive being written and read, and with them the difference between no
namespace and an empty one. -/
theorem records_reread :
    Faithful GroupVersion.encode GroupVersion.decode ∧
    Faithful ResourceReference.encode ResourceReference.decode ∧
    Faithful ProviderConfig.encode ProviderConfig.decode ∧
    Faithful ProtectedResource.encode ProtectedResource.decode ∧
    Faithful IngressConfig.encode IngressConfig.decode ∧
    Faithful RoutingTarget.encode RoutingTarget.decode ∧
    ∀ r q : ResourceReference, write ResourceReference.encode { r with ns := none } ≠
      write ResourceReference.encode { q with ns := some "" } := by
  have hreference : Faithful ResourceReference.encode ResourceReference.decode :=
    .of_decode (ResourceReference.plain_encode 126) ResourceReference.decode_ordered
  refine ⟨.of_decode (GroupVersion.plain_encode 126) GroupVersion.decode_ordered, hreference,
    .of_decode (ProviderConfig.plain_encode 125) ProviderConfig.decode_ordered,
    .of_decode (ProtectedResource.plain_encode 125) ProtectedResource.decode_ordered,
    .of_decode (IngressConfig.plain_encode 126) IngressConfig.decode_ordered,
    .of_decode (RoutingTarget.plain_encode 125) RoutingTarget.decode_ordered, fun r q h => ?_⟩
  cases congrArg ResourceReference.ns (hreference.injective h)

end Lifecycle
