import Lifecycle.Proofs.Turns

/-!
# Who stands in a queue

The queue of an activator has only those of its calls that have come and are
not over, each once: those that wait and the one at work. A call joins it when it
comes and leaves it when it is closed or dropped; no other step touches a queue,
and no other step takes a call out of these stages. `Step.queue` and
`Step.isInLine` are the two halves of that, and `inLine_step` puts them together.
-/

namespace Lifecycle

variable {C T : Type}

/-- Whether a call has joined the queue of its activator and has not left it. -/
def Call.isInLine (c : Call C T) : Bool :=
  match c.stage with
  | .queued | .working _ => true
  | _ => false

namespace World

def isInLine (w : World C T) (i : Nat) : Bool := w.calls[i]?.any Call.isInLine

/-- A queue has calls on its own activator that wait or are at work, each once. -/
structure InLine (w : World C T) : Prop where
  nodup : ∀ a ∈ w.activators, a.queue.Nodup
  inLine : ∀ k a, w.activators[k]? = some a → ∀ i ∈ a.queue, w.isOn k i ∧ w.isInLine i

theorem isInLine_iff {w : World C T} {i : Nat} :
    w.isInLine i ↔ ∃ c, w.calls[i]? = some c ∧ c.isInLine := by
  simp [isInLine, Option.any_eq_true]

theorem isInLine_modify {w w' : World C T} {i : Nat} {f : Call C T → Call C T}
    (hc : w'.calls = w.calls.modify i f) {j : Nat} (hj : w.isInLine j)
    (hf : i = j → ∀ c, c.isInLine → (f c).isInLine) : w'.isInLine j := by
  obtain ⟨c, hcj, hl⟩ := isInLine_iff.1 hj
  refine isInLine_iff.2 ⟨if i = j then f c else c, ?_, ?_⟩
  · rw [hc, List.getElem?_modify, hcj]
    split <;> rfl
  · split
    · next hij => exact hf hij c hl
    · exact hl

variable [Targeted T]

theorem Step.isInLine {env : Collaborators C T} {m : Move C T} {w w' : World C T}
    (h : Step env m w w') {j : Nat} (hj : w.isInLine j) :
    w'.isInLine j ∨ m = .close j ∨ m = .drop j := by
  have hback := h.background
  cases h with
  | submit =>
      obtain ⟨c, hc, hl⟩ := isInLine_iff.1 hj
      refine .inl (isInLine_iff.2 ⟨c, ?_, hl⟩)
      exact (List.getElem?_append_left (List.getElem?_eq_some_iff.1 hc).1).trans hc
  | join | begin | look => exact .inl (isInLine_modify rfl hj fun _ _ _ => rfl)
  | cancel => exact .inl (isInLine_modify (f := fun c => { c with cancelled := true }) rfl hj fun _ _ h => h)
  | @close _ i =>
      by_cases hij : i = j
      · exact .inr (.inl (by rw [hij]))
      · exact .inl (isInLine_modify (closed_calls ..) hj fun h => absurd h hij)
  | @drop _ i =>
      by_cases hij : i = j
      · exact .inr (.inr (by rw [hij]))
      · exact .inl (isInLine_modify rfl hj fun h => absurd h hij)
  | _ =>
      obtain ⟨hcs, -, -⟩ := hback rfl
      rw [World.isInLine, hcs]
      exact .inl hj

omit [Targeted T] in
theorem isOn_unique {w : World C T} {k l i : Nat} (hk : w.isOn k i) (hl : w.isOn l i) : k = l := by
  obtain ⟨c, hc, rfl⟩ := isOn_iff.1 hk
  obtain ⟨d, hd, rfl⟩ := isOn_iff.1 hl
  rw [hc] at hd
  cases hd
  rfl

/-- What a step does to the queue of an activator: a call joins it, a call leaves
it, or it stays, and then no call of the activator has left. -/
theorem Step.queue {env : Collaborators C T} {m : Move C T} {w w' : World C T}
    (h : Step env m w w') {k : Nat} {a' : Activator} (ha : w'.activators[k]? = some a') :
    ∃ a, w.activators[k]? = some a ∧
      ((a'.queue = a.queue ∧ ∀ i, m = .close i ∨ m = .drop i → ¬ w.isOn k i) ∨
      (∃ i, m = .join i ∧ w.isOn k i ∧ w.isInLine i = false ∧ w'.isInLine i ∧
        a'.queue = a.queue ++ [i]) ∨
      ∃ i, (m = .close i ∨ m = .drop i) ∧ w.isOn k i ∧ a'.queue = a.queue.erase i) := by
  have hback := h.background
  have hsame : ∀ {l : Nat} {f : Activator → Activator}, w'.activators = w.activators.modify l f →
      (∀ a, (f a).queue = a.queue) → ∃ a, w.activators[k]? = some a ∧ a'.queue = a.queue := by
    intro l f hf hq
    obtain ⟨a, hk, rfl⟩ := exists_of_modify hf ha
    refine ⟨a, hk, ?_⟩
    split
    · exact hq a
    · rfl
  -- The call `i` of the activator `l` joins or leaves.
  have hchange : ∀ {i l : Nat} {f : Activator → Activator} {P : Activator → Prop},
      w'.activators = w.activators.modify l f → w.isOn l i →
      (∀ i', m = .close i' ∨ m = .drop i' → i' = i) →
      (w.isOn k i → ∀ a, w.activators[k]? = some a → a'.queue = (f a).queue → P a) →
      ∃ a, w.activators[k]? = some a ∧
        ((a'.queue = a.queue ∧ ∀ i, m = .close i ∨ m = .drop i → ¬ w.isOn k i) ∨ P a) := by
    intro i l f P hf hi hm hP
    obtain ⟨a, hk, rfl⟩ := exists_of_modify hf ha
    refine ⟨a, hk, ?_⟩
    by_cases hl : l = k
    · subst hl
      exact .inr (hP hi a hk (by rw [if_pos rfl]))
    · refine .inl ⟨by rw [if_neg hl], fun i' h' hk' => ?_⟩
      rw [hm i' h'] at hk'
      exact hl (isOn_unique hi hk')
  cases h with
  | submit | cancel => exact ⟨a', ha, .inl ⟨rfl, by simp⟩⟩
  | begin | look =>
      obtain ⟨a, hk, hq⟩ := hsame rfl fun _ => rfl
      exact ⟨a, hk, .inl ⟨hq, by simp⟩⟩
  | @join _ i c a hf hs =>
      obtain ⟨hc, -⟩ := find?_eq_some.1 hf
      refine hchange rfl (isOn_iff.2 ⟨c, hc, rfl⟩) (by simp) fun hi b hk hq => ?_
      refine .inl ⟨i, rfl, hi, ?_, ?_, hq⟩
      · simp [World.isInLine, hc, Call.isInLine, hs]
      · simp [World.isInLine, setStage, setQueue, hc, Call.isInLine]
  | @close _ i c a as hf hs hd =>
      obtain ⟨hc, -⟩ := find?_eq_some.1 hf
      have hact : (w.closed i c a as).activators =
          w.activators.modify c.activator fun a => { a with queue := a.queue.erase i } := by
        unfold closed
        dsimp only
        split <;> rfl
      refine hchange hact (isOn_iff.2 ⟨c, hc, rfl⟩) (by simp) fun hi b hk hq => ?_
      exact .inr ⟨i, .inl rfl, hi, hq⟩
  | @drop _ i c hc ho =>
      refine hchange rfl (isOn_iff.2 ⟨c, hc, rfl⟩) (by simp) fun hi b hk hq => ?_
      exact .inr ⟨i, .inr rfl, hi, hq⟩
  | _ =>
      obtain ⟨-, hact, -⟩ := hback rfl
      exact ⟨a', by rw [← hact, ha], .inl ⟨rfl, by simp⟩⟩

theorem inLine_step {env : Collaborators C T} {m : Move C T} {w w' : World C T}
    (h : Step env m w w') (hw : w.InLine) : w'.InLine := by
  have hkey : ∀ k a', w'.activators[k]? = some a' →
      a'.queue.Nodup ∧ ∀ i ∈ a'.queue, w'.isOn k i ∧ w'.isInLine i := by
    intro k a' ha'
    obtain ⟨a, hk, hq⟩ := h.queue ha'
    have hnd := hw.nodup a (List.mem_of_getElem? hk)
    have hin := hw.inLine k a hk
    rcases hq with ⟨hq, hm⟩ | ⟨i, rfl, hi, hout, hjoined, hq⟩ | ⟨i, hm, hi, hq⟩
    · rw [hq]
      refine ⟨hnd, fun j hj => ⟨h.isOn (hin j hj).1, ?_⟩⟩
      exact (h.isInLine (hin j hj).2).resolve_right fun hl => hm j hl (hin j hj).1
    · rw [hq]
      have hnew : i ∉ a.queue := fun hi => by
        rw [(hin i hi).2] at hout
        cases hout
      refine ⟨by simpa using hnd.concat hnew, List.forall_mem_append.2 ⟨fun j hj => ?_, ?_⟩⟩
      · exact ⟨h.isOn (hin j hj).1, (h.isInLine (hin j hj).2).resolve_right (by simp)⟩
      · simpa using ⟨h.isOn hi, hjoined⟩
    · rw [hq]
      refine ⟨hnd.erase i, fun j hj => ?_⟩
      obtain ⟨hne, hj⟩ := (List.Nodup.mem_erase_iff hnd).1 hj
      refine ⟨h.isOn (hin j hj).1, (h.isInLine (hin j hj).2).resolve_right fun hl => hne ?_⟩
      rcases hm with rfl | rfl <;> rcases hl with hl | hl <;> cases hl <;> rfl
  refine ⟨fun a ha => ?_, fun k a ha => (hkey k a ha).2⟩
  obtain ⟨k, hk⟩ := List.mem_iff_getElem?.1 ha
  exact (hkey k a hk).1

theorem inLine_play {env : Collaborators C T} {w : World C T} (hw : w.InLine)
    (ms : List (Move C T)) : (w.play env ms).InLine :=
  invariant_of_play (A := fun _ => True) (fun _ => inLine_step) (fun _ _ => trivial) hw

omit [Targeted T] in
theorem inLine_ofActivators (as : List (String × Policy)) :
    (ofActivators as : World C T).InLine := by
  have hq : ∀ a ∈ (ofActivators as : World C T).activators, a.queue = [] := by
    intro a ha
    obtain ⟨p, -, rfl⟩ := List.mem_map.1 ha
    rfl
  refine ⟨fun a ha => ?_, fun k a ha i hi => ?_⟩
  · rw [hq a ha]
    exact List.nodup_nil
  · rw [hq a (List.mem_of_getElem? ha)] at hi
    cases hi

end World

end Lifecycle
