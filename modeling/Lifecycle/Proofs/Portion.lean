import Lifecycle.Proofs.Queues
import Lifecycle.Proofs.Sight
import Lifecycle.Proofs.Story

/-!
# The portion of an activator

What an activator has of a world are its own calls, its store with the queue, and what
was noted for its calls. `World.Portion` says that another world, in which nobody else
has calls, has just that: the calls under new numbers, since the others are missing, and
of the loops only those names that matter to the activator.

The two worlds move together. A move of a call on the activator is made in both,
under the number that the call has there, and comes to the same: for an attempt this is
`look_matches`, and the rest is arithmetic of places. A move of anybody else's call is
made in the larger world only, and leaves the portion as it is. Nothing is gained by
following such a move any closer than to the names it uses.
-/

namespace Lifecycle

variable {C T : Type}

/-! ## Places among some -/

section Places

variable {α : Type} {p : α → Bool} {l : List α} {i j : Nat} {x y : α}

/-- Among those of a kind, an element stands after as many as stand before it in all. -/
theorem getElem?_filter_countP (hx : l[i]? = some x) (hp : p x) :
    (l.filter p)[(l.take i).countP p]? = some x := by
  induction l generalizing i with
  | nil => cases hx
  | cons z l ih =>
      cases i with
      | zero =>
          cases hx
          simp [hp]
      | succ i =>
          have h := ih hx
          cases hz : p z <;> simpa [hz] using h

theorem countP_take_inj (hx : l[i]? = some x) (hy : l[j]? = some y) (hpx : p x) (hpy : p y)
    (h : (l.take i).countP p = (l.take j).countP p) : i = j := by
  induction l generalizing i j with
  | nil => cases hx
  | cons z l ih =>
      cases i with
      | zero =>
          cases j with
          | zero => rfl
          | succ j =>
              cases hx
              simp [hpx] at h
      | succ i =>
          cases j with
          | zero =>
              cases hy
              simp [hpy] at h
          | succ j =>
              rw [ih hx hy (by simpa [List.countP_cons] using h)]

theorem filter_modify {f : α → α} (hf : ∀ x, p (f x) = p x) (hx : l[i]? = some x) :
    (l.modify i f).filter p =
      if p x then (l.filter p).modify ((l.take i).countP p) f else l.filter p := by
  induction l generalizing i with
  | nil => cases hx
  | cons z l ih =>
      cases i with
      | zero =>
          cases hx
          cases hp : p x <;> simp [hf, hp]
      | succ i =>
          have h := ih hx
          cases hz : p z <;> cases hp : p x <;> simp_all

theorem map_erase_of_injOn {f : Nat → Nat} {q : List Nat} (h : ∀ j ∈ q, f j = f i → j = i) :
    (q.erase i).map f = (q.map f).erase (f i) := by
  induction q with
  | nil => rfl
  | cons j q ih =>
      have ih := ih fun l hl => h l (.tail j hl)
      by_cases hj : j = i
      · simp [hj]
      · have hfj : f j ≠ f i := fun hf => hj (h j (.head q) hf)
        simp [hj, hfj, ih]

end Places

/-! ## Calls without their tickets -/

/-- An attempt without the tickets that it drew. -/
def Attempt.bare (a : Attempt T) : Attempt T := { a with ticket := 0, checkTicket := 0 }

def CallStage.bare : CallStage T → CallStage T
  | .fresh => .fresh
  | .queued => .queued
  | .working as => .working (as.map Attempt.bare)
  | .ended as time => .ended (as.map Attempt.bare) time
  | .dropped time => .dropped time

/-- A call without the tickets that its attempts drew. -/
def Call.bare (c : Call C T) : Call C T := { c with stage := c.stage.bare }

theorem Attempt.bare_eq_iff {a b : Attempt T} :
    a.bare = b.bare ↔ a.target = b.target ∧ a.stage = b.stage := by
  cases a
  cases b
  simp [bare]

/-- The tickets have no part in the stage of a call. -/
theorem CallStage.of_bare {st st' : CallStage T} (h : st'.bare = st.bare) :
    match st with
    | .working as => ∃ bs, st' = .working bs ∧ bs.map Attempt.bare = as.map Attempt.bare
    | .ended as time => ∃ bs, st' = .ended bs time ∧ bs.map Attempt.bare = as.map Attempt.bare
    | st => st' = st := by
  cases st <;> cases st' <;> simp [CallStage.bare] at h ⊢
  all_goals simp [h]

theorem Call.targets_bare {c d : Call C T} (h : d.bare = c.bare) : d.targets = c.targets :=
  (congrArg Call.targets h :)

theorem Call.stage_bare {c d : Call C T} (h : d.bare = c.bare) : d.stage.bare = c.stage.bare :=
  (congrArg Call.stage h :)

/-- A call is at work when it is without its tickets. -/
theorem Call.working_of_bare {c d : Call C T} (h : d.bare = c.bare) {as : List (Attempt T)}
    (hs : c.stage = .working as) :
    ∃ bs, d.stage = .working bs ∧ bs.map Attempt.bare = as.map Attempt.bare :=
  CallStage.of_bare (hs ▸ stage_bare h)

theorem Call.isOver_bare (c : Call C T) : c.bare.isOver = c.isOver := by
  cases hs : c.stage <;> simp [isOver, bare, CallStage.bare, hs]

theorem CallStage.eq_fresh_iff {st st' : CallStage T} (h : st'.bare = st.bare) :
    st' = .fresh ↔ st = .fresh := by
  have h := of_bare h
  cases st with
  | working | ended =>
      obtain ⟨bs, rfl, -⟩ := h
      simp
  | _ =>
      rw [h]

theorem CallStage.eq_queued_iff {st st' : CallStage T} (h : st'.bare = st.bare) :
    st' = .queued ↔ st = .queued := by
  have h := of_bare h
  cases st with
  | working | ended =>
      obtain ⟨bs, rfl, -⟩ := h
      simp
  | _ => rw [h]

theorem Attempt.getElem?_of_bare {as bs : List (Attempt T)}
    (h : bs.map Attempt.bare = as.map Attempt.bare) {j : Nat} {t : Attempt T}
    (ht : as[j]? = some t) : ∃ u, bs[j]? = some u ∧ u.bare = t.bare := by
  have hplace : bs[j]?.map Attempt.bare = as[j]?.map Attempt.bare := by
    rw [← List.getElem?_map, ← List.getElem?_map, h]
  rw [ht] at hplace
  exact Option.map_eq_some_iff.1 hplace

theorem Attempt.filterMap_cause?_congr {as bs : List (Attempt T)}
    (h : bs.map Attempt.bare = as.map Attempt.bare) :
    bs.filterMap Attempt.cause? = as.filterMap Attempt.cause? := by
  have hcause : (Attempt.cause? : Attempt T → Option Cause) = Attempt.cause? ∘ Attempt.bare := rfl
  rw [hcause, ← List.filterMap_map, ← List.filterMap_map, h]

theorem Attempt.all_isDone_congr {as bs : List (Attempt T)}
    (h : bs.map Attempt.bare = as.map Attempt.bare) :
    bs.all Attempt.isDone = as.all Attempt.isDone := by
  have hdone : (Attempt.isDone : Attempt T → Bool) = Attempt.isDone ∘ Attempt.bare := rfl
  rw [hdone, ← List.all_map, ← List.all_map, h]

/-- What the tickets leave out is all that the result of a call rests on. -/
theorem Call.result?_bare [Targeted T] (c : Call C T) : c.bare.result? = c.result? := by
  have hcauses : c.bare.causes = c.causes := by
    cases hs : c.stage with
    | working as | ended as =>
        have has :
            (as.map Attempt.bare).filterMap Attempt.cause? = as.filterMap Attempt.cause? := by
          rw [List.filterMap_map]
          rfl
        simpa [causes, bare, CallStage.bare, attempts, hs] using has
    | _ => simp [causes, bare, CallStage.bare, attempts, hs]
  rw [result?, result?, hcauses]
  cases hs : c.stage <;> simp [bare, CallStage.bare, hs]

/-- An entry of a call under another number. -/
def Entry.renumber (f : Nat → Nat) (e : Entry C T) : Entry C T :=
  { e with scope := e.scope.map fun x => { x with call := f x.call } }

/-- The call that a move is about. -/
def Move.call? : Move C T → Option Nat
  | .join i | .begin i | .look i _ | .close i | .cancel i | .drop i => some i
  | _ => none

/-- A move makes calls, or is about a call, or about none. -/
theorem Move.kinds (m : Move C T) :
    (∃ rs, m = .submit rs) ∨ m.isBackground ∨ ∃ i, m.call? = some i := by
  cases m <;> simp [isBackground, call?]

/-- A move about a call under another number. -/
def Move.renumber (f : Nat → Nat) : Move C T → Move C T
  | .join i => .join (f i)
  | .begin i => .begin (f i)
  | .look i j => .look (f i) j
  | .close i => .close (f i)
  | .cancel i => .cancel (f i)
  | .drop i => .drop (f i)
  | m => m

/-- What was noted for an activator, with its calls under other numbers. -/
def Trace.Renumbered (k : Nat) (f : Nat → Nat) (t t' : Trace C T) : Prop :=
  Trace.ofActivator t' k = (Trace.ofActivator t k).map (Entry.renumber f)

namespace Trace

variable {k : Nat} {f : Nat → Nat} {t t' : Trace C T}

theorem ofActivator_map_renumber (f : Nat → Nat) (t : Trace C T) (k : Nat) :
    ofActivator (t.map (Entry.renumber f)) k = (ofActivator t k).map (Entry.renumber f) := by
  rw [ofActivator, ofActivator, ← List.map_reverse, List.filter_map]
  refine congrArg _ (List.filter_congr fun e _ => ?_)
  cases hx : e.scope <;> simp [Entry.renumber, hx]

theorem Renumbered.append (h : Renumbered k f t t') (new : Trace C T) :
    Renumbered k f (new ++ t) (new.map (Entry.renumber f) ++ t') := by
  rw [Renumbered, ofActivator_append, ofActivator_append, ofActivator_map_renumber, h,
    List.map_append]

theorem Renumbered.note (h : Renumbered k f t t') {x x' : Scope C}
    (hx : x' = { x with call := f x.call }) (time : Nat) (what : Happening C T) :
    Renumbered k f (⟨time, some x, what⟩ :: t) (⟨time, some x', what⟩ :: t') := by
  subst hx
  exact h.append [_]

end Trace

/-- Calls of some kind are cancelled alike, under other numbers. -/
def Fired.Renumbered (p : Nat → Bool) (f : Nat → Nat) (c c' : Fired) : Prop :=
  ∀ i, p i → c'.hits (f i) = c.hits i

/-- Cancelling a call under both numbers makes no difference, if no other call has them. -/
theorem Fired.Renumbered.fire {p : Nat → Bool} {f : Nat → Nat} {c c' : Fired}
    (h : Renumbered p f c c') {i : Nat} (hf : ∀ j, p j → f j = f i → j = i) (whole : Bool) :
    Renumbered p f (c.fire whole i) (c'.fire whole (f i)) := by
  intro j hj
  have hsame : f j = f i ↔ j = i := ⟨hf j hj, congrArg f⟩
  simp only [hits_fire, h j hj, hsame]

namespace World

/-- The number of calls on an activator before a call. -/
def rank (k : Nat) (w : World C T) (i : Nat) : Nat :=
  (w.calls.take i).countP fun c => c.activator = k

/-- Two worlds in which the same goes on around the calls, as far as some names go. -/
structure Level (own : String → Prop) (w v : World C T) : Prop where
  now : v.now = w.now
  registry : w.registry.Like own v.registry

namespace Level

variable {own : String → Prop} {w v u : World C T}

theorem refl (w : World C T) : w.Level own w := ⟨rfl, .refl _⟩

theorem trans (h : w.Level own v) (h' : v.Level own u) : w.Level own u :=
  ⟨h'.now.trans h.now, h.registry.trans h'.registry⟩

theorem symm (h : w.Level own v) : v.Level own w := ⟨h.now.symm, h.registry.symm⟩

end Level

/-- A world that has what an activator has in another one, and no calls of others. The names
of the controllers of the activator are given. -/
structure Portion (own : String → Prop) (k : Nat) (w v : World C T) : Prop extends
    w.Level own v where
  alone : ∀ c ∈ v.calls, c.activator = k
  calls : v.calls.map Call.bare = (w.calls.filter fun c => c.activator = k).map Call.bare
  activator : v.activators[k]? =
    w.activators[k]?.map fun a => { a with queue := a.queue.map (w.rank k) }
  trace : Trace.Renumbered k (w.rank k) w.trace v.trace
  fired : Fired.Renumbered (w.isOn k) (w.rank k) w.fired v.fired

section Rank

variable {w w' : World C T} {k i j : Nat}

theorem rank_congr (h : w'.calls.map Call.activator = w.calls.map Call.activator) :
    w'.rank k = w.rank k := by
  have hrank : ∀ (w : World C T) i,
      w.rank k i = ((w.calls.map Call.activator).take i).countP fun l => l = k := by
    intro w i
    rw [rank, ← List.map_take, List.countP_map]
    rfl
  funext i
  rw [hrank, hrank, h]

theorem isOn_congr (h : w'.calls.map Call.activator = w.calls.map Call.activator) :
    w'.isOn k = w.isOn k := by
  have hon : ∀ (w : World C T) i, w.isOn k i = (w.calls.map Call.activator)[i]?.any (· = k) := by
    intro w i
    rw [isOn, List.getElem?_map, Option.any_map]
  funext i
  rw [hon, hon, h]

theorem rank_modify {f : Call C T → Call C T} (hf : ∀ c, (f c).activator = c.activator) :
    ({ w with calls := w.calls.modify i f } : World C T).rank k = w.rank k := by
  refine rank_congr ?_
  exact map_modify_of_same hf ..

theorem isOn_modify {f : Call C T → Call C T} (hf : ∀ c, (f c).activator = c.activator) :
    ({ w with calls := w.calls.modify i f } : World C T).isOn k = w.isOn k := by
  refine isOn_congr ?_
  exact map_modify_of_same hf ..

theorem rank_setStage (w : World C T) (k i : Nat) (st : CallStage T) :
    (w.setStage i st).rank k = w.rank k := rank_modify fun _ => rfl

theorem rank_inj (hi : w.isOn k i) (hj : w.isOn k j) (h : w.rank k i = w.rank k j) : i = j := by
  obtain ⟨c, hc, hck⟩ := isOn_iff.1 hi
  obtain ⟨d, hd, hdk⟩ := isOn_iff.1 hj
  exact countP_take_inj hc hd (by simpa using hck) (by simpa using hdk) h

/-- Calls keep their ranks when others come. -/
theorem rank_submit (hi : w.isOn k i) (cs : List (Call C T)) :
    (w.submit cs).rank k i = w.rank k i := by
  obtain ⟨c, hc, -⟩ := isOn_iff.1 hi
  have hlt := (List.getElem?_eq_some_iff.1 hc).1
  simp only [rank, submit, List.take_append_of_le_length (Nat.le_of_lt hlt)]

theorem activator_ne {l : Nat} {c : Call C T} (hl : w.isOn k l = false)
    (hc : w.calls[l]? = some c) : c.activator ≠ k := by
  intro hk
  rw [isOn_iff.2 ⟨c, hc, hk⟩] at hl
  cases hl

end Rank

section Portion

variable {own : String → Prop} {k i : Nat} {w v w' v' : World C T} {c : Call C T}
  {a : Activator} (h : w.Portion own k v)

include h

/-- A call on the activator is in the portion, under its rank. -/
theorem Portion.call (hc : w.calls[i]? = some c) (hk : c.activator = k) :
    ∃ d, v.calls[w.rank k i]? = some d ∧ d.bare = c.bare := by
  have hat := getElem?_filter_countP (p := fun c : Call C T => c.activator = k) hc
    (by simpa using hk)
  have hbare : (v.calls.map Call.bare)[w.rank k i]? = some c.bare := by
    rw [h.calls, List.getElem?_map]
    exact congrArg (Option.map Call.bare) hat
  rw [List.getElem?_map] at hbare
  exact Option.map_eq_some_iff.1 hbare

theorem Portion.find? (hon : w.isOn k i) (hf : w.find? i = some (c, a)) : c.activator = k ∧
    ∃ d, v.find? (w.rank k i) = some (d, { a with queue := a.queue.map (w.rank k) }) ∧
      d.activator = k ∧ d.bare = c.bare := by
  obtain ⟨hc, ha⟩ := find?_eq_some.1 hf
  obtain ⟨c', hc', hk⟩ := isOn_iff.1 hon
  obtain rfl : c = c' := Option.some.inj (hc.symm.trans hc')
  obtain ⟨d, hd, hbare⟩ := h.call hc hk
  have hdk : d.activator = k := h.alone d (List.mem_of_getElem? hd)
  refine ⟨hk, d, find?_eq_some.2 ⟨hd, ?_⟩, hdk, hbare⟩
  rw [hdk, h.activator, ← hk, ha]
  rfl

theorem Portion.find?_eq_none (hf : w.find? i = none) (hon : w.isOn k i) :
    v.find? (w.rank k i) = none := by
  obtain ⟨c, hc, hk⟩ := isOn_iff.1 hon
  have ha : w.activators[k]? = none := by
    rw [Option.eq_none_iff_forall_ne_some]
    intro a ha
    rw [find?_eq_some.2 ⟨hc, hk ▸ ha⟩] at hf
    cases hf
  rw [Option.eq_none_iff_forall_ne_some]
  intro p hp
  obtain ⟨hd, hb⟩ := find?_eq_some.1 hp
  rw [h.alone _ (List.mem_of_getElem? hd), h.activator, ha] at hb
  cases hb

/-- The attempts of the activator see the same in both worlds. -/
theorem Portion.site (a : Activator) (queue : List Nat) :
    (w.site a).Matches own (fun s s' => s' = s) (Trace.Renumbered k (w.rank k))
      (Fired.Renumbered (w.isOn k) (w.rank k)) (v.site { a with queue }) :=
  ⟨h.now, h.fired, h.registry, rfl, h.trace⟩

/-! ### What is done in both worlds -/

/-- Something is done to a call, with tickets or without. -/
theorem Portion.modify (hon : w.isOn k i) {f g F : Call C T → Call C T}
    (hf : ∀ c, (f c).activator = c.activator ∧ (f c).bare = F c.bare)
    (hg : ∀ c, (g c).activator = c.activator ∧ (g c).bare = F c.bare) :
    ({ w with calls := w.calls.modify i f } : World C T).Portion own k
      { v with calls := v.calls.modify (w.rank k i) g } := by
  obtain ⟨c, hc, hk⟩ := isOn_iff.1 hon
  have hrank := rank_modify (w := w) (k := k) (i := i) fun c => (hf c).1
  have hkept := isOn_modify (w := w) (k := k) (i := i) fun c => (hf c).1
  refine ⟨⟨h.now, h.registry⟩, ?_, ?_, hrank ▸ h.activator, hrank ▸ h.trace,
    by rw [hkept, hrank]; exact h.fired⟩
  · exact forall_mem_modify h.alone fun d hd =>
      (hg d).1.trans (h.alone d (List.mem_of_getElem? hd))
  · have hfilter := filter_modify (p := fun c : Call C T => c.activator = k) (f := f)
      (fun c => by rw [(hf c).1]) hc
    rw [if_pos (by simpa using hk)] at hfilter
    rw [hfilter, map_modify fun c => (hg c).2, map_modify fun c => (hf c).2, h.calls]
    rfl

theorem Portion.setStage (hon : w.isOn k i) {st st' : CallStage T} (hst : st'.bare = st.bare) :
    (w.setStage i st).Portion own k (v.setStage (w.rank k i) st') :=
  h.modify hon (F := fun c => { c with stage := st.bare }) (fun _ => ⟨rfl, rfl⟩)
    fun _ => ⟨rfl, by rw [← hst]; rfl⟩

theorem Portion.setQueue {f g : List Nat → List Nat}
    (hfg : ∀ a, w.activators[k]? = some a →
      g (a.queue.map (w.rank k)) = (f a.queue).map (w.rank k)) :
    (w.setQueue k f).Portion own k (v.setQueue k g) := by
  refine ⟨⟨h.now, h.registry⟩, h.alone, h.calls, ?_, h.trace, h.fired⟩
  simp only [World.setQueue, List.getElem?_modify_eq, h.activator]
  cases ha : w.activators[k]? with
  | none => rfl
  | some a => exact congrArg (fun queue => some { a with queue }) (hfg a ha)

theorem Portion.withSite {s s' : Site C T}
    (hs : s.Matches own (fun t t' => t' = t) (Trace.Renumbered k (w.rank k))
      (Fired.Renumbered (w.isOn k) (w.rank k)) s') :
    (w.withSite k s).Portion own k (v.withSite k s') := by
  refine ⟨⟨h.now, hs.registry⟩, h.alone, h.calls, ?_, hs.trace, hs.fired⟩
  simp only [World.withSite, List.getElem?_modify_eq, h.activator, hs.store]
  cases w.activators[k]? <;> rfl

theorem Portion.note {x x' : Scope C} (hx : x' = { x with call := w.rank k x.call })
    (what : Happening C T) :
    (w.note (some x) what).Portion own k (v.note (some x') what) := by
  refine ⟨⟨h.now, h.registry⟩, h.alone, h.calls, h.activator, ?_, h.fired⟩
  simp only [World.note, h.now]
  exact h.trace.note hx w.now what

/-! ### What is done to others -/

theorem Portion.modify_other {l : Nat} (hl : w.isOn k l = false) {f : Call C T → Call C T}
    (hf : ∀ c, (f c).activator = c.activator) :
    ({ w with calls := w.calls.modify l f } : World C T).Portion own k v := by
  have hrank := rank_modify (w := w) (k := k) (i := l) hf
  have hkept := isOn_modify (w := w) (k := k) (i := l) hf
  refine ⟨⟨h.now, h.registry⟩, h.alone, ?_, hrank ▸ h.activator, hrank ▸ h.trace,
    by rw [hkept, hrank]; exact h.fired⟩
  rw [h.calls]
  cases hc : w.calls[l]? with
  | none => rw [List.modify_eq_self (List.getElem?_eq_none_iff.1 hc)]
  | some c =>
      have hfilter := filter_modify (p := fun c : Call C T => c.activator = k) (f := f)
        (fun c => by rw [hf c]) hc
      rw [hfilter, if_neg (by simpa using activator_ne hl hc)]

theorem Portion.setStage_other {l : Nat} (hl : w.isOn k l = false) (st : CallStage T) :
    (w.setStage l st).Portion own k v := h.modify_other hl fun _ => rfl

theorem Portion.setQueue_other {l : Nat} (hl : l ≠ k) (f : List Nat → List Nat) :
    (w.setQueue l f).Portion own k v :=
  ⟨⟨h.now, h.registry⟩, h.alone, h.calls,
    by simp only [World.setQueue, List.getElem?_modify_ne _ _ hl]; exact h.activator, h.trace,
    h.fired⟩

theorem Portion.withSite_other {l : Nat} (hl : l ≠ k) {s : Site C T}
    (hfired : ∀ i, w.isOn k i → s.fired.hits i = w.fired.hits i)
    (hregistry : w.registry.Like own s.registry)
    (htrace : Trace.ofActivator s.trace k = Trace.ofActivator w.trace k) :
    (w.withSite l s).Portion own k v :=
  ⟨⟨h.now, hregistry.symm.trans h.registry⟩, h.alone, h.calls,
    by simp only [World.withSite, List.getElem?_modify_ne _ _ hl]; exact h.activator,
    by rw [Trace.Renumbered, World.withSite, htrace]; exact h.trace,
    fun i hi => (h.fired i hi).trans (hfired i hi).symm⟩

theorem Portion.note_other {x : Scope C} (hx : x.activator ≠ k) (what : Happening C T) :
    (w.note (some x) what).Portion own k v := by
  refine ⟨⟨h.now, h.registry⟩, h.alone, h.calls, h.activator, ?_, h.fired⟩
  have htrace : Trace.ofActivator (w.note (some x) what).trace k = Trace.ofActivator w.trace k := by
    rw [World.note, Trace.ofActivator, List.reverse_cons, List.filter_append]
    simp [hx, Trace.ofActivator]
  rw [Trace.Renumbered, htrace]
  exact h.trace

/-- What is noted for a call is noted for its activator. -/
theorem Portion.site_other {l : Nat} {c : Call C T} {a : Activator} {s : Site C T}
    (hk : c.activator ≠ k) (hnoted : (w.site a).Noted (context a l c) s)
    (hfired : ∀ i, w.isOn k i → s.fired.hits i = w.fired.hits i)
    (hregistry : w.registry.Like own s.registry) :
    (w.withSite c.activator s).Portion own k v := by
  obtain ⟨new, ht, hnew, -⟩ := hnoted
  refine h.withSite_other hk hfired hregistry ?_
  rw [ht, Trace.ofActivator_append, Trace.ofActivator_of_scope hnew]
  simp [context, hk, World.site]

/-- What belongs to no call. -/
theorem Portion.background (hw : w'.calls = w.calls ∧ w'.activators = w.activators ∧
      w'.fired = w.fired ∧
      ∃ ns : List LoopNotice, w'.trace = ns.map (fun n => ⟨w.now, none, .loop n none⟩) ++ w.trace)
    (hv : v'.calls = v.calls ∧ v'.activators = v.activators ∧ v'.fired = v.fired ∧
      ∃ ns : List LoopNotice, v'.trace = ns.map (fun n => ⟨v.now, none, .loop n none⟩) ++ v.trace)
    (hlevel : w'.Level own v') : w'.Portion own k v' := by
  have hnone : ∀ (time : Nat) (ns : List LoopNotice) (t : Trace C T), Trace.ofActivator
      (ns.map (fun n => ⟨time, none, .loop n none⟩) ++ t) k = Trace.ofActivator t k := by
    intro time ns t
    have hnew : ∀ e ∈ ns.map fun n => (⟨time, none, .loop n none⟩ : Entry C T), e.scope = none := by
      intro e he
      obtain ⟨n, -, rfl⟩ := List.mem_map.1 he
      rfl
    rw [Trace.ofActivator_append, Trace.ofActivator_of_scope hnew]
    simp
  obtain ⟨hwc, hwa, hwf, ns, hwt⟩ := hw
  obtain ⟨hvc, hva, hvf, ns', hvt⟩ := hv
  have hrank : w'.rank k = w.rank k := rank_congr (by rw [hwc])
  have hkept : w'.isOn k = w.isOn k := isOn_congr (by rw [hwc])
  refine ⟨hlevel, by rw [hvc]; exact h.alone, by rw [hvc, hwc]; exact h.calls,
    by rw [hva, hwa, hrank]; exact h.activator, ?_, by rw [hvf, hwf, hkept, hrank]; exact h.fired⟩
  rw [Trace.Renumbered, hvt, hwt, hnone, hnone, hrank]
  exact h.trace

end Portion

/-- A call has its context in both worlds, but for its number. -/
theorem context_of_bare {c d : Call C T} (h : d.bare = c.bare) (a : Activator) (queue : List Nat)
    (i j : Nat) : context { a with queue } j d =
      { context a i c with scope := { (context a i c).scope with call := j } } := by
  cases c
  cases d
  simp only [Call.bare, Call.mk.injEq] at h
  obtain ⟨rfl, rfl, rfl, rfl, -⟩ := h
  rfl

/-- An attempt of a call sees the same in both worlds. -/
theorem sight_of_bare [Targeted T] {k i : Nat} {p : Nat → Bool} {f : Nat → Nat} (hi : p i)
    (hf : ∀ j, p j → f j = f i → j = i) {c d : Call C T} (h : d.bare = c.bare) (a : Activator)
    (queue : List Nat) (r : ResourceReference) :
    Sight (T := T) (context a i c) (context { a with queue } (f i) d) r (fun s s' => s' = s)
      (Trace.Renumbered k f) (Fired.Renumbered p f) := by
  rw [context_of_bare h a queue i]
  exact {
    context := ⟨rfl, rfl, rfl, rfl⟩
    holding := fun hs => by rw [hs]
    install := fun hs c => by rw [hs]
    activate := fun hs => by rw [hs]
    note := fun ht time what => ht.note rfl time what
    hits := fun hc => hc i hi
    fire := fun hc whole => hc.fire hf whole
    fireAll := fun _ _ => rfl }

/-! ## Moves of the calls on the activator -/

section Site

variable [Targeted T] {own : String → Prop} {H : Trace C T → Trace C T → Prop}
  {F : Fired → Fired → Prop} {x x' : Context C}
  (hnote : ∀ {t t'}, H t t' → ∀ time what,
    H (⟨time, some x.scope, what⟩ :: t) (⟨time, some x'.scope, what⟩ :: t'))

include hnote

omit [Targeted T] in
theorem foldl_note_matches {α : Type} {S : Store → Store → Prop} (f : α → Happening C T)
    (xs : List α) : ∀ {s s' : Site C T}, s.Matches own S H F s' →
      (xs.foldl (fun s a => s.note x (f a)) s).Matches own S H F
        (xs.foldl (fun s a => s.note x' (f a)) s') := by
  induction xs with
  | nil => exact fun hs => hs
  | cons a xs ih =>
      intro s s' hs
      refine ih ⟨hs.now, hs.fired, hs.registry, hs.store, ?_⟩
      simp only [Site.note, hs.now]
      exact hnote hs.trace s.now (f a)

theorem beginWork_matches (targets : List T) {s s' : Site C T}
    (hs : s.Matches own (fun t t' => t' = t) H F s') :
    (beginWork x targets s).2.Matches own (fun t t' => t' = t) H F (beginWork x' targets s').2 := by
  unfold beginWork deactivateStale
  dsimp only
  rw [hs.store]
  refine foldl_note_matches hnote _ _ (foldl_note_matches hnote _ _ ?_)
  exact ⟨hs.now, hs.fired, hs.registry, rfl, hs.trace⟩

end Site

section Own

variable {own : String → Prop} {k i : Nat} {w v : World C T} (h : w.Portion own k v)
  (hon : w.isOn k i)

include h hon

theorem Portion.join : (w.join i).Portion own k (v.join (w.rank k i)) := by
  cases hf : w.find? i with
  | none =>
      simp only [World.join, hf, h.find?_eq_none hf hon]
      exact h
  | some p =>
      obtain ⟨c, a⟩ := p
      obtain ⟨hk, d, hd, hdk, hbare⟩ := h.find? hon hf
      have hfresh := CallStage.eq_fresh_iff (Call.stage_bare hbare)
      by_cases hs : c.stage = .fresh
      · simp only [World.join, hf, hd, hs, hfresh.2 hs, hk, hdk]
        have hqueued : (w.setQueue k (· ++ [i])).Portion own k (v.setQueue k (· ++ [w.rank k i])) :=
          h.setQueue fun a _ => by simp
        exact hqueued.setStage hon rfl
      · have hds : d.stage ≠ .fresh := fun hd => hs (hfresh.1 hd)
        have hstay : ∀ {w : World C T} {i : Nat} {c : Call C T} {a : Activator},
            w.find? i = some (c, a) → c.stage ≠ .fresh → w.join i = w := by
          intro w i c a hf hs
          cases hst : c.stage <;> simp_all [World.join]
        rw [hstay hf hs, hstay hd hds]
        exact h

theorem Portion.cancel : (w.cancel i).Portion own k (v.cancel (w.rank k i)) :=
  h.modify hon (F := fun c => { c with cancelled := true }) (fun _ => ⟨rfl, rfl⟩)
    fun _ => ⟨rfl, rfl⟩

/-- The attempts of a call are done in both worlds or in none. -/
theorem Portion.isSettled : v.isSettled (w.rank k i) = w.isSettled i := by
  unfold World.isSettled
  cases hf : w.find? i with
  | none => rw [h.find?_eq_none hf hon]
  | some p =>
      obtain ⟨c, a⟩ := p
      obtain ⟨-, d, hd, -, hbare⟩ := h.find? hon hf
      have hst := Call.stage_bare hbare
      simp only [hd]
      generalize c.stage = st at hst ⊢
      generalize d.stage = st' at hst ⊢
      have hstage := CallStage.of_bare hst
      cases st with
      | working as =>
          obtain ⟨bs, rfl, hbs⟩ := hstage
          exact Attempt.all_isDone_congr hbs
      | ended as time =>
          obtain ⟨bs, rfl, -⟩ := hstage
          rfl
      | _ => rw [hstage]

omit h in
theorem InLine.rank_inj (hline : w.InLine) {a : Activator} (ha : w.activators[k]? = some a) :
    ∀ j ∈ a.queue, w.rank k j = w.rank k i → j = i :=
  fun j hj => World.rank_inj (hline.inLine k a ha j hj).1 hon

variable (hline : w.InLine)

include hline

/-- Nobody else is waited for. -/
theorem Portion.hasTurn : v.hasTurn (w.rank k i) = w.hasTurn i := by
  rw [Bool.eq_iff_iff, hasTurn_iff, hasTurn_iff]
  cases hf : w.find? i with
  | none => simp [h.find?_eq_none hf hon]
  | some p =>
      obtain ⟨c, a⟩ := p
      obtain ⟨hk, d, hd, -, hbare⟩ := h.find? hon hf
      have ha := (find?_eq_some.1 hf).2
      have hqueued := CallStage.eq_queued_iff (Call.stage_bare hbare)
      have hhead : (a.queue.map (w.rank k)).head? = some (w.rank k i) ↔ a.queue.head? = some i := by
        rw [List.head?_map, Option.map_eq_some_iff]
        constructor
        · intro hj
          obtain ⟨j, hj, hrank⟩ := hj
          have hmem : j ∈ a.queue := List.mem_of_mem_head? hj
          rw [hj, hline.rank_inj hon (hk ▸ ha) j hmem hrank]
        · exact fun hi => ⟨i, hi, rfl⟩
      constructor
      · intro hv
        obtain ⟨d', b, hd', hs, hh⟩ := hv
        rw [hd] at hd'
        cases hd'
        exact ⟨c, a, rfl, hqueued.1 hs, hhead.1 hh⟩
      · intro hw
        obtain ⟨c', a', hf', hs, hh⟩ := hw
        cases hf'
        exact ⟨d, _, hd, hqueued.2 hs, hhead.2 hh⟩

/-- A call that is over leaves its queue. -/
theorem Portion.leave {st st' : CallStage T} (hst : st'.bare = st.bare) :
    ((w.setStage i st).setQueue k (·.erase i)).Portion own k
      ((v.setStage (w.rank k i) st').setQueue k (·.erase (w.rank k i))) := by
  refine (h.setStage hon hst).setQueue fun a ha => ?_
  rw [rank_setStage, map_erase_of_injOn (hline.rank_inj hon ha)]

theorem Portion.drop : (w.drop i).Portion own k (v.drop (w.rank k i)) := by
  obtain ⟨c, hc, hk⟩ := isOn_iff.1 hon
  obtain ⟨d, hd, hbare⟩ := h.call hc hk
  have hdk := h.alone d (List.mem_of_getElem? hd)
  have hover : d.isOver = c.isOver := by rw [← d.isOver_bare, hbare, c.isOver_bare]
  rw [World.drop, World.drop, hc, hd]
  dsimp only
  rw [hover]
  split
  · exact h
  · rw [hk, hdk, h.now]
    exact h.leave hon hline rfl

variable [Targeted T]

theorem Portion.close : (w.close i).Portion own k (v.close (w.rank k i)) := by
  have hsettled := h.isSettled hon
  cases hw : w.isSettled i with
  | false =>
      rw [hw] at hsettled
      rw [close_eq_self hw, close_eq_self hsettled]
      exact h
  | true =>
      obtain ⟨c, a, as, hf, hs, hdone⟩ := isSettled_iff.1 hw
      obtain ⟨hk, d, hd, hdk, hbare⟩ := h.find? hon hf
      obtain ⟨bs, hds, hbs⟩ := Call.working_of_bare hbare hs
      have hstage : (CallStage.ended bs w.now).bare = (CallStage.ended as w.now).bare := by
        simp only [CallStage.bare, hbs]
      have hcauses : d.causes.length = c.causes.length := by
        simp only [Call.causes, Call.attempts, hs, hds, Attempt.filterMap_cause?_congr hbs]
      rw [close_eq_closed hf hs hdone,
        close_eq_closed hd hds ((Attempt.all_isDone_congr hbs).trans hdone), closed, closed,
        hcauses, context_of_bare hbare a _ i, hk, hdk]
      dsimp only
      split
      · rw [h.now]
        exact h.leave hon hline hstage
      · have hnoted : (w.note (some (context a i c).scope) (.callFailed c.causes.length)).Portion
            own k (v.note (some { (context a i c).scope with call := w.rank k i })
              (.callFailed c.causes.length)) := h.note rfl _
        rw [hnoted.now]
        exact hnoted.leave hon ⟨hline.nodup, hline.inLine⟩ hstage

theorem Portion.begin : (w.begin i).Portion own k (v.begin (w.rank k i)) := by
  have hturn := h.hasTurn hon hline
  cases hw : w.hasTurn i with
  | false =>
      rw [hw] at hturn
      rw [begin_eq_self hw, begin_eq_self hturn]
      exact h
  | true =>
      rw [hw] at hturn
      obtain ⟨c, a, hf, hs, hh⟩ := hasTurn_iff.1 hw
      obtain ⟨hk, d, hd, hdk, hbare⟩ := h.find? hon hf
      obtain ⟨d', a', hd', hds, hdh⟩ := hasTurn_iff.1 hturn
      rw [hd] at hd'
      cases hd'
      rw [begin_eq_begun hf hs hh, begin_eq_begun hd hds hdh, begun, begun,
        Call.targets_bare hbare, context_of_bare hbare a _ i, hk, hdk]
      refine (h.withSite (beginWork_matches (fun ht time what => ?_) c.targets
        (h.site a (a.queue.map (w.rank k))))).setStage hon ?_
      · exact ht.note rfl time what
      · rw [beginWork_eq, beginWork_eq]

omit hline in
/-- What an attempt does it does in both worlds. -/
theorem Portion.look {env : Collaborators C T} (j : Nat)
    (henv : ∀ c a as t, w.find? i = some (c, a) → c.stage = .working as → as[j]? = some t →
      env.Regards (context a i c).scope t.target own (Trace.Renumbered k (w.rank k)) ∧
        t.Discreet own) :
    (w.look env i j).Portion own k (v.look env (w.rank k i) j) := by
  cases hf : w.find? i with
  | none =>
      simp only [World.look, hf, h.find?_eq_none hf hon]
      exact h
  | some p =>
      obtain ⟨c, a⟩ := p
      obtain ⟨hk, d, hd, hdk, hbare⟩ := h.find? hon hf
      by_cases hat : ∃ as t, c.stage = .working as ∧ as[j]? = some t
      · obtain ⟨as, t, hs, ht⟩ := hat
        obtain ⟨bs, hds, hbs⟩ := Call.working_of_bare hbare hs
        obtain ⟨u, hu, hut⟩ := Attempt.getElem?_of_bare hbs ht
        obtain ⟨htarget, hstage⟩ := Attempt.bare_eq_iff.1 hut
        obtain ⟨henv, hdiscreet⟩ := henv c a as t hf hs ht
        obtain ⟨htarget, hstage, hsite⟩ := Attempt.look_matches henv
          (sight_of_bare hon (fun l hl => rank_inj hl hon) hbare a _ t.reference) (h.site a (a.queue.map (w.rank k)))
          htarget hstage hdiscreet
        have hlook := Attempt.bare_eq_iff.2 ⟨htarget, hstage⟩
        simp only [World.look, hf, hs, ht, hd, hds, hu]
        rw [hk, hdk]
        refine (h.withSite hsite).setStage hon ?_
        simp only [CallStage.bare, List.map_set, hbs, hlook]
      · have hstill : w.look env i j = w := by
          refine (look_cases env w i j).resolve_right ?_
          rintro ⟨c', a', as, t, hf', hs, ht, -⟩
          rw [hf] at hf'
          cases hf'
          exact hat ⟨as, t, hs, ht⟩
        have hstill' : v.look env (w.rank k i) j = v := by
          refine (look_cases env v _ j).resolve_right ?_
          rintro ⟨d', a', bs, u, hd', hs, hu, -⟩
          rw [hd] at hd'
          cases hd'
          obtain ⟨as, hs, has⟩ := Call.working_of_bare hbare.symm hs
          obtain ⟨t, ht, -⟩ := Attempt.getElem?_of_bare has hu
          exact hat ⟨as, t, hs, ht⟩
        rw [hstill, hstill']
        exact h

end Own

/-! ## Moves that are not of its calls -/

/-- A background move leaves calls and activators alone, and notes only what the loops report. -/
theorem move_background [Targeted T] {env : Collaborators C T} {w : World C T} {m : Move C T}
    (hm : m.isBackground) : (w.move env m).calls = w.calls ∧
      (w.move env m).activators = w.activators ∧ (w.move env m).fired = w.fired ∧
      ∃ ns : List LoopNotice,
        (w.move env m).trace = ns.map (fun n => ⟨w.now, none, .loop n none⟩) ++ w.trace := by
  rcases move_cases env w (m := m) (by rintro i j rfl; cases hm) with hw | hw
  · rw [hw]
    exact ⟨rfl, rfl, rfl, [], rfl⟩
  · obtain ⟨hc, ha, ht⟩ := hw.background hm
    exact ⟨hc, ha, hw.background_fired hm, ht⟩

/-- A turn of the loops changes no names. -/
theorem level_turnLoops (own : String → Prop) (w : World C T) : w.Level own w.turnLoops := by
  rw [turnLoops_eq]
  exact ⟨rfl, rfl, fun _ _ => rfl⟩

section Outsiders

variable {own : String → Prop} {name : String} (hn : ¬ own name) (w : World C T)

include hn

/-- What an outsider does with other names is nothing to the activator. -/
theorem level_spawn (body : LoopBody) : w.Level own (w.spawn name body).2 := by
  unfold World.spawn
  split
  · exact .refl w
  · next g hg =>
      have hstarted : w.Level own ({ w with registry := g }.noteLoop (.registered name)) :=
        ⟨rfl, .of_spawn hn hg⟩
      exact hstarted.trans (level_turnLoops ..)

theorem level_abort : w.Level own (w.abort name).2 := by
  unfold World.abort
  split
  · exact .refl w
  · next g hg =>
      have hfreed : w.Level own ({ w with registry := g }.noteLoop (.aborted name)) :=
        ⟨rfl, .of_abort hn hg⟩
      exact hfreed.trans (level_turnLoops ..)

end Outsiders

section Others

variable {own : String → Prop} {k : Nat} {w v : World C T} (h : w.Portion own k v)

include h

theorem Portion.isQuiet (hq : w.isQuiet) : v.isQuiet := by
  rw [World.isQuiet, List.all_eq_true] at hq ⊢
  intro d hd
  have hbare : d.bare ∈ (w.calls.filter fun c => c.activator = k).map Call.bare :=
    h.calls ▸ List.mem_map_of_mem hd
  obtain ⟨c, hc, hcd⟩ := List.mem_map.1 hbare
  rw [← d.isOver_bare, ← hcd, c.isOver_bare]
  exact hq c (List.mem_filter.1 hc).1

/-- Of a round the portion has the calls on the activator. -/
theorem Portion.submit (hline : w.InLine)
    (hknown : ∀ e ∈ w.trace, ∀ x, e.scope = some x → w.isOn x.activator x.call)
    (rs : List (Request C T)) : (w.submit (rs.map Request.call)).Portion own k
      (v.submit ((rs.filter fun q => q.activator = k).map Request.call)) := by
  have hsame : ∀ i, w.isOn k i → (w.submit (rs.map Request.call)).rank k i = w.rank k i :=
    fun i hi => rank_submit hi _
  refine ⟨⟨h.now, h.registry⟩, ?_, ?_, ?_, ?_, fun _ _ => rfl⟩
  · intro d hd
    rcases List.mem_append.1 hd with hd | hd
    · exact h.alone d hd
    · obtain ⟨q, hq, rfl⟩ := List.mem_map.1 hd
      exact of_decide_eq_true (List.mem_filter.1 hq).2
  · simp only [World.submit, List.map_append, List.filter_append, h.calls, List.filter_map]
    rfl
  · show v.activators[k]? = _
    rw [h.activator]
    cases ha : w.activators[k]? with
    | none => simp [World.submit, ha]
    | some a =>
        simp only [World.submit, ha, Option.map_some, Option.some.injEq, Activator.mk.injEq,
          true_and]
        exact List.map_congr_left fun i hi => (hsame i (hline.inLine k a ha i hi).1).symm
  · refine (show Trace.ofActivator v.trace k = _ from h.trace).trans
      (List.map_congr_left fun e he => ?_)
    obtain ⟨he, hk⟩ := List.mem_filter.1 he
    obtain ⟨x, hx, hxk⟩ := (Option.any_eq_true ..).1 hk
    have hon := hknown e (List.mem_reverse.1 he) x hx
    rw [of_decide_eq_true hxk] at hon
    simp only [Entry.renumber, hx, Option.map_some, hsame x.call hon]

variable [Targeted T] {env : Collaborators C T}

/-- The loops and the clock are the same to the portion. -/
theorem Portion.loops {m : Move C T} (hm : m.isBackground) (hs : ∀ s, m ≠ .turnShutdown s) :
    (w.move env m).Portion own k (v.move env m) := by
  refine h.background (move_background hm) (move_background hm) ?_
  have hturned : ∀ {w' v' : World C T}, w'.Level own v' → w'.turnLoops.Level own v'.turnLoops :=
    fun hl => ((level_turnLoops own _).symm.trans hl).trans (level_turnLoops own _)
  cases m with
  | turnLoops => exact hturned h.toLevel
  | advance time => exact ⟨congrArg (max · time) h.now, h.registry⟩
  | beginShutdown => exact ⟨h.now, rfl, h.registry.names⟩
  | spawn name body =>
      by_cases hn : own name
      · simp only [move, World.spawn]
        rcases h.registry.spawn hn body with ⟨f, hw, hv⟩ | ⟨g, g', hw, hv, hg⟩
        · rw [hw, hv]
          exact h.toLevel
        · rw [hw, hv]
          exact hturned ⟨h.now, hg⟩
      · exact ((level_spawn hn w body).symm.trans h.toLevel).trans (level_spawn hn v body)
  | abort name =>
      by_cases hn : own name
      · simp only [move, World.abort]
        rcases h.registry.abort hn with ⟨hw, hv⟩ | ⟨g, g', hw, hv, hg⟩
        · rw [hw, hv]
          exact h.toLevel
        · rw [hw, hv]
          exact hturned ⟨h.now, hg⟩
      · exact ((level_abort hn w).symm.trans h.toLevel).trans (level_abort hn v)
  | turnShutdown s => exact absurd rfl (hs s)
  | _ => cases hm

/-- Others look at their attempts, which keep to other names. -/
theorem Portion.look_other {l j : Nat} (hl : w.isOn k l = false)
    (hlook : ∀ c a as t, w.find? l = some (c, a) → c.stage = .working as → as[j]? = some t →
      ∃ others, (∀ n, others n → ¬ own n) ∧
        Attempt.Spared others l (w.site a) (t.look env (context a l c) (w.site a)).2) :
    (w.look env l j).Portion own k v := by
  rcases look_cases env w l j with hw | ⟨c, a, as, t, hf, hs, ht, hw⟩
  · rw [hw]
    exact h
  · obtain ⟨others, hothers, hspared⟩ := hlook c a as t hf hs ht
    have hk := activator_ne hl (find?_eq_some.1 hf).1
    rw [hw]
    refine (h.site_other hk (Attempt.Steps.noted (Attempt.look_steps ..)) (fun i hi => ?_)
      (hspared.registry own hothers)).setStage_other hl _
    refine hspared.fired i ?_
    rintro rfl
    rw [hl] at hi
    cases hi

/-- Others make any other move. -/
theorem Portion.move_other {m : Move C T} {l : Nat} (hm : m.call? = some l)
    (hl : w.isOn k l = false) (hlook : ∀ j, m ≠ .look l j) : (w.move env m).Portion own k v := by
  have hcases := move_cases env w (m := m) (by
    rintro i j rfl
    cases hm
    exact hlook j rfl)
  rcases hcases with hw | hw
  · rw [hw]
    exact h
  generalize w.move env m = w' at hw
  cases hw with
  | join hf =>
      cases hm
      exact (h.setQueue_other (activator_ne hl (find?_eq_some.1 hf).1) _).setStage_other hl _
  | @begin _ _ c a hf =>
      cases hm
      have hk := activator_ne hl (find?_eq_some.1 hf).1
      refine (h.site_other hk (beginWork_noted ..) ?_ ?_).setStage_other hl _
      · rw [beginWork_eq]
        exact fun _ _ => rfl
      · rw [beginWork_eq]
        exact .refl _
  | @look _ _ j =>
      cases hm
      exact absurd rfl (hlook j)
  | @close _ _ c a as hf =>
      cases hm
      have hk := activator_ne hl (find?_eq_some.1 hf).1
      unfold closed
      dsimp only
      split
      · exact (h.setStage_other hl _).setQueue_other hk _
      · exact ((h.note_other hk _).setStage_other hl _).setQueue_other hk _
  | cancel =>
      cases hm
      exact h.modify_other hl fun _ => rfl
  | drop hc =>
      cases hm
      exact (h.setStage_other hl _).setQueue_other (activator_ne hl hc) _
  | _ => cases hm

end Others

end World

end Lifecycle
