import Lifecycle.Proofs.Turns

/-!
# No flapping during a call

A call changes the store of its activator while others look at it. `steady_during_call`
says what they can see at any instant at which the call is at work: only references that
it lists are active, and those of them that were active when its turn came have never
been anything else. A look is cut into its steps here, since what is seen in the midst
of one is seen as well.

The stale controllers are switched off in the step with which the call begins, so no
later step makes a reference inactive. The other half is which steps make one active:
`Attempt.Step.rises` finds two of them among the steps of an attempt, an update of what
the store has and the installation of what it does not have, and `Attempt.Keeps` tells
these apart from the references that were active all the time.
-/

namespace Lifecycle

variable {C T : Type}

/-- The active references are those that are found active. -/
theorem Store.Simple.mem_activeReferences {s : Store} (hs : s.Simple) {r : ResourceReference} :
    r ∈ s.activeReferences ↔ (s.get? r).any (·.active) := by
  rw [Store.mem_activeReferences, Option.any_eq_true]
  constructor
  · rintro ⟨h, hm, ha, hr⟩
    exact ⟨h, (Store.get?_eq_some_iff hs).2 ⟨hm, hr⟩, ha⟩
  · rintro ⟨h, hg, ha⟩
    obtain ⟨hm, hr⟩ := (Store.get?_eq_some_iff hs).1 hg
    exact ⟨h, hm, ha, hr⟩

/-! ## Switching off -/

def Happening.isDeactivation : Happening C T → Bool
  | .deactivated .. => true
  | _ => false

/-- Nothing that is noted for a call comes before what switches a controller off for it. -/
def Trace.DeactivatesFirst (t : Trace C T) (i : Nat) : Prop :=
  (t.ofCall i).Pairwise fun e e' => e'.what.isDeactivation → e.what.isDeactivation

/-- What is added later for the call may be anything else. -/
theorem Trace.DeactivatesFirst.append {t new : Trace C T} {i : Nat} (h : t.DeactivatesFirst i)
    (hnew : ∀ e ∈ new, e.scope.any (·.call = i) → e.what.isDeactivation = false) :
    Trace.DeactivatesFirst (new ++ t) i := by
  have hlate : ∀ e ∈ Trace.ofCall new i, e.what.isDeactivation = false := by
    intro e he
    obtain ⟨hmem, hscope⟩ := List.mem_filter.1 he
    exact hnew e (List.mem_reverse.1 hmem) hscope
  have hlater : ∀ (e e' : Entry C T), e' ∈ Trace.ofCall new i →
      e'.what.isDeactivation → e.what.isDeactivation := by
    intro e e' he' h'
    rw [hlate e' he'] at h'
    cases h'
  rw [DeactivatesFirst, ofCall_append, List.pairwise_append]
  exact ⟨h, List.pairwise_of_forall_mem_list fun e _ => hlater e, fun e _ => hlater e⟩

section Steps

variable [Targeted T] {env : Collaborators C T}

/-- No attempt switches a controller off. -/
theorem Attempt.Step.deactivations_eq {x : Context C} {p q : Attempt T × Site C T}
    (h : Attempt.Step env x p q) :
    Trace.only Happening.isDeactivation q.2.trace =
      Trace.only Happening.isDeactivation p.2.trace := by
  cases h with
  | create _ _ _ _ _ _ hs =>
      subst hs
      rfl
  | register _ hs => cases hs <;> rfl
  | refuse => exact Trace.only_release (fun _ _ => rfl) (fun _ _ => rfl) ..
  | revoke => exact Trace.only_release (fun _ _ => rfl) (fun _ _ => rfl) ..
  | _ => rfl

/-- Only a call that begins switches controllers off. -/
theorem World.Step.deactivations_eq {m : Move C T} {w w' : World C T} (h : World.Step env m w w')
    (hm : ∀ i, m ≠ .begin i) : Trace.only Happening.isDeactivation w'.trace =
      Trace.only Happening.isDeactivation w.trace := by
  by_cases hl : ∃ i j, m = .look i j
  · obtain ⟨i, j, rfl⟩ := hl
    cases h with
    | look _ _ _ hp => exact hp.deactivations_eq
  · exact h.only_eq (fun _ => rfl) (fun _ => rfl) hm fun i j hij => hl ⟨i, j, hij⟩

end Steps

/-! ## Becoming active -/

/-- How a reference becomes active for a call: its stored controller is updated, or the
registration of its first one has ended well and the call was not cancelled by then. -/
inductive Scope.Rises (x : Scope C) (r : ResourceReference) (found : Option Holding)
    (cancelled : Bool) (time : Nat) (t : Trace C T) : Trace C T → Prop where
  | updated {h} (hf : found = some h) (ha : h.active = false) :
      x.Rises r found cancelled time t (⟨time, some x, .updated r h.controller x.config⟩ :: t)
  | installed {n} (hf : found = none) (hc : cancelled = false) :
      x.Rises r found cancelled time t
        (⟨time, some x, .installed r n⟩ :: ⟨time, some x, .returned n r none false⟩ :: t)

variable [Targeted T] {env : Collaborators C T}

/-- A step of an attempt leaves the holding of its reference alone, or makes it active. -/
theorem Attempt.Step.rises {x : Context C} {p q : Attempt T × Site C T} {before : Option Holding}
    (h : Attempt.Step env x p q) (hp : p.1.Keeps before (p.2.store.get? p.1.reference)) :
    q.2.store.get? p.1.reference = p.2.store.get? p.1.reference ∨
      ((p.2.store.get? p.1.reference).any (·.active) = false →
        x.scope.Rises p.1.reference (p.2.store.get? p.1.reference) (p.2.cancelled x) p.2.now
          p.2.trace q.2.trace) := by
  cases h with
  | update hf hg =>
      refine .inr fun hinactive => ?_
      rw [hg] at hinactive
      exact .updated hg hinactive
  | register _ hs => cases hs <;> exact .inl rfl
  | create _ _ _ _ _ _ hs =>
      subst hs
      exact .inl rfl
  | install hr _ hc =>
      simp only [Attempt.Keeps, hr] at hp
      exact .inr fun _ => .installed hp.2 hc
  | refuse => exact .inl (congrArg (Store.get? · _) (Attempt.release_store ..))
  | revoke => exact .inl (congrArg (Store.get? · _) (Attempt.release_store ..))
  | _ => exact .inl rfl

omit [Targeted T] in
/-- What is active when a call begins, and is wanted, is never touched again. -/
theorem Attempt.Keeps.of_active {a : Attempt T} {before now : Option Holding}
    (h : a.Keeps before now) (hb : before.any (·.active))
    (hr : ∀ x ∈ before, ∀ y ∈ now, y.reference = x.reference) : now = before := by
  obtain ⟨x, rfl, hx⟩ := (Option.any_eq_true ..).1 hb
  unfold Attempt.Keeps at h
  split at h
  · exact h
  · cases h.1
  · cases h.1
  · cases h.1
  · obtain ⟨y, rfl, hy, hc⟩ := h
    have hreference := hr x rfl y rfl
    have hcontroller := hc x rfl
    cases x
    cases y
    simp_all

namespace World

/-- Any number of steps. Unlike a run of moves they may come to a halt in the midst of a
look, and steps of other activators may come in between. -/
def Reaches (env : Collaborators C T) : World C T → World C T → Prop :=
  Relation.ReflTransGen fun w w' => ∃ m, Step env m w w'

theorem reaches_play (env : Collaborators C T) (w : World C T) (ms : List (Move C T)) :
    Reaches env w (w.play env ms) := by
  refine invariant_of_play (P := Reaches env w) (A := fun _ => True) (fun _ h hw => ?_)
    (fun _ _ => trivial) .refl
  exact hw.tail ⟨_, h⟩

/-- What every step keeps holds wherever steps lead. -/
theorem Reaches.invariant {P : World C T → Prop} {w w' : World C T}
    (hstep : ∀ {m v v'}, Step env m v v' → P v → P v') (h : Reaches env w w') (hw : P w) :
    P w' := by
  induction h with
  | refl => exact hw
  | tail _ h ih =>
      obtain ⟨m, h⟩ := h
      exact hstep h ih

/-- Whether the controller of a reference is active. -/
def isActive (w : World C T) (k : Nat) (r : ResourceReference) : Bool :=
  (w.holding? k r).any (·.active)

/-- What can be seen of an activator while a call is at work on it, next to what was
there when its turn came. -/
structure Steady (env : Collaborators C T) (k i : Nat) (targets : List T) (before now : World C T) :
    Prop where
  /-- The list of the active references and the state of each of them agree. -/
  observed : ∀ a, now.activators[k]? = some a →
    ∀ r, r ∈ a.store.activeReferences ↔ now.isActive k r
  listed : ∀ r, now.isActive k r → r ∈ targets.map reference
  kept : ∀ r ∈ targets.map reference, before.isActive k r →
    now.isActive k r ∧ now.holding? k r = before.holding? k r
  ordered : now.trace.DeactivatesFirst i
  rises : ∀ m next, Step env m now next → ∀ r, ¬ now.isActive k r → next.isActive k r →
    r ∈ targets.map reference ∧ ∃ x : Scope C, x.call = i ∧ x.activator = k ∧
      x.Rises r (now.holding? k r) (now.isCancelled i) now.now now.trace next.trace

/-- A call that begins notes first which controllers it switches off. -/
theorem deactivatesFirst_begun {w : World C T} {i : Nat} {c : Call C T} {a : Activator}
    (hi : Trace.ofCall w.trace i = []) : (w.begun i c a).trace.DeactivatesFirst i := by
  rw [begun, beginWork_eq]
  dsimp only [setStage, withSite]
  rw [← List.append_assoc, Trace.DeactivatesFirst, Trace.ofCall_append]
  change (Trace.ofCall w.trace i ++ _).Pairwise _
  rw [hi, List.nil_append, Trace.ofCall_of_scope (x := some (context a i c).scope)]
  · rw [if_pos (by simp [context]), List.reverse_append, List.reverse_reverse, List.reverse_reverse,
      List.pairwise_append]
    refine ⟨?_, ?_, ?_⟩
    · exact List.pairwise_map.2 (List.pairwise_of_forall fun _ _ _ => rfl)
    · exact List.pairwise_map.2 (List.pairwise_of_forall fun _ _ h => by cases h)
    · simp [Happening.isDeactivation]
  · intro e he
    rcases List.mem_append.1 he with he | he <;>
    · obtain ⟨_, -, rfl⟩ := List.mem_map.1 (List.mem_reverse.1 he)
      rfl

theorem deactivatesFirst_step {m : Move C T} {w w' : World C T} (h : Step env m w w') {i : Nat}
    (hi : w.hasBegun i) (hw : w.trace.DeactivatesFirst i) : w'.trace.DeactivatesFirst i := by
  by_cases hm : ∃ j, m = .begin j
  · obtain ⟨j, rfl⟩ := hm
    obtain ⟨-, hj, -⟩ := h.hasBegun_begin
    have hji : j ≠ i := fun heq => by simp [heq, hi] at hj
    cases h with
    | @begin _ _ c a =>
        obtain ⟨new, ht, hscope, -⟩ := beginWork_noted (context a j c) c.targets (w.site a)
        rw [show (w.begun j c a).trace = new ++ w.trace from ht]
        refine hw.append fun e he hcall => ?_
        rw [hscope e he] at hcall
        exact absurd (of_decide_eq_true hcall) hji
  · have hsame := h.deactivations_eq fun j hj => hm ⟨j, hj⟩
    obtain ⟨new, ht⟩ := h.trace_suffix
    rw [← ht, Trace.only, List.filter_append, Trace.only, List.append_left_eq_self,
      List.filter_eq_nil_iff] at hsame
    rw [← ht]
    exact hw.append fun e he _ => Bool.of_not_eq_true (hsame e he)

section Steady

variable {v w : World C T} {k i : Nat} {targets : List T}

omit [Targeted T] in
theorem reference_of_holding? {r : ResourceReference} {h : Holding}
    (hh : w.holding? k r = some h) : h.reference = r := by
  obtain ⟨a, -, hg⟩ := Option.bind_eq_some_iff.1 hh
  exact Store.reference_of_get? hg

theorem Serving.steady (hv : v.Serving (w.holding? k) i k targets)
    (hi : ∃ us, v.atWork k = some (i, us)) (hfirst : v.trace.DeactivatesFirst i) :
    Steady env k i targets w v := by
  obtain ⟨us, hwork⟩ := hi
  have hcall : ∀ r, (v.standing k r).call = some i := fun r => congrArg (Option.map _) hwork
  refine ⟨fun a ha r => ?_, fun r hr => ?_, fun r hr hactive => ?_, hfirst,
    fun m v' h r hn hr => ?_⟩
  · rw [isActive, holding?_eq ha]
    exact (hv.orderly.simple a (List.mem_of_getElem? ha)).mem_activeReferences
  · have hkeeps := hv.keeps r (hcall r)
    unfold Standing.Keeps at hkeeps
    split at hkeeps
    · have hnow : v.holding? k r = _ := hkeeps.2
      rw [isActive, hnow] at hr
      cases hb : w.holding? k r <;> simp [hb] at hr
    · exact hkeeps.1
  · have hkeeps := hv.keeps r (hcall r)
    unfold Standing.Keeps at hkeeps
    split at hkeeps
    · exact absurd hr hkeeps.1
    · have hsame : v.holding? k r = w.holding? k r :=
        hkeeps.2.of_active hactive fun x hx y hy =>
          (reference_of_holding? hy).trans (reference_of_holding? hx).symm
      rw [isActive, hsame]
      exact ⟨hactive, rfl⟩
  · have hkept : v'.holding? k r = v.holding? k r → False := fun heq => by
      rw [isActive, heq] at hr
      exact hn hr
    cases h.effect hv.orderly k r with
    | same heq => exact (hkept (congrArg Standing.holding heq)).elim
    | begin _ _ _ hnone => simp [hwork] at hnone
    | close _ _ heq | drop _ _ _ heq => exact (hkept (congrArg Standing.holding heq)).elim
    | @look _ _ c a _ _ _ hf _ hk _ href hp hput heq heq' =>
        have hkeeps := hv.keeps r (hcall r)
        have hcall := hcall r
        have hholding : v.holding? k r = _ := congrArg Standing.holding heq
        have hholding' : v'.holding? k r = _ := congrArg Standing.holding heq'
        rw [heq] at hcall hkeeps
        cases hcall
        subst href
        obtain ⟨hwanted, hkeeps⟩ := hkeeps
        refine ⟨hwanted, (context a i c).scope, rfl, hk, ?_⟩
        rcases hp.rises hkeeps with hsame | hrises
        · exact (hkept (hholding'.trans (hsame.trans hholding.symm))).elim
        · rw [hholding, isCancelled_eq hf, hput]
          refine hrises ?_
          rw [isActive, hholding] at hn
          exact Bool.of_not_eq_true hn

end Steady

/-- During a call, from its turn on and until it is over, only its targets are active, a
target that was active stays so, whatever is switched off comes before all its other
work, and a reference comes to be active only by an update of its stored controller or by
a first registration that has ended well and uncancelled. -/
theorem steady_during_call {policies : List (String × Policy)} {w v : World C T} {i : Nat}
    {c d : Call C T} {b : Activator} {us : List (Attempt T)} :
    Reaches env (ofActivators policies) w → w.hasTurn i → w.calls[i]? = some c →
      Reaches env (w.begin i) v → v.find? i = some (d, b) → d.stage = .working us →
      Steady env c.activator i c.targets w v := by
  intro hw hturn hc hv hfd hs
  obtain ⟨c', a, hf, hq, hh⟩ := hasTurn_iff.1 hturn
  obtain ⟨hc', ha⟩ := find?_eq_some.1 hf
  obtain rfl : c' = c := Option.some.inj (hc'.symm.trans hc)
  obtain ⟨horderly, order, htaken⟩ :=
    hw.invariant (P := fun w => w.Orderly ∧ ∃ order, Taken c'.activator order w)
      (fun h ⟨ho, _, ht⟩ => ⟨orderly_step h ho, _, taken_step h ho ht⟩)
      ⟨orderly_ofActivators policies, [], taken_ofActivators policies _⟩
  have hfresh : Trace.ofCall w.trace i = [] :=
    htaken.ofCall_eq_nil (by simp [World.hasBegun, hc, Call.hasBegun, hq])
  have hserving : (w.begin i).Serving (w.holding? c'.activator) i c'.activator c'.targets := by
    rw [funext (holding?_eq ha)]
    exact serving_begin env horderly hf hq hh
  have hfirst : (w.begin i).trace.DeactivatesFirst i := by
    rw [begin_eq_begun hf hq hh]
    exact deactivatesFirst_begun hfresh
  have hstep : ∀ {m : Move C T} {v v' : World C T}, Step env m v v' →
      v.Serving (w.holding? c'.activator) i c'.activator c'.targets ∧ v.trace.DeactivatesFirst i →
      v'.Serving (w.holding? c'.activator) i c'.activator c'.targets ∧
        v'.trace.DeactivatesFirst i := by
    rintro m v v' h ⟨hv, hd⟩
    obtain ⟨e, he, -, -, hb⟩ := hv.call
    exact ⟨serving_step h hv,
      deactivatesFirst_step h (by rw [World.hasBegun, he, Option.any_some, hb]) hd⟩
  obtain ⟨hserving, hfirst⟩ := hv.invariant hstep ⟨hserving, hfirst⟩
  obtain ⟨d', hd', hk, -⟩ := hserving.call
  obtain rfl : d' = d := Option.some.inj (hd'.symm.trans (find?_eq_some.1 hfd).1)
  exact hserving.steady ⟨us, (atWork_eq_some_iff hserving.orderly).2 ⟨d', b, hfd, hk, hs⟩⟩ hfirst

/-- The second of two calls gives up the target "a", keeps "b" and brings "c" and "d", of
which the first is active and the second has not been looked at. -/
theorem steady_during_call_halfway :
    let policies := [("widgets", Policy.default)]
    let w : World String ResourceReference := (ofActivators policies).play .prompt
      [.submit [.plain 0 "v1" ["a", "b"]], .join 0, .begin 0, .look 0 0, .look 0 1, .close 0,
        .submit [.plain 0 "v2" ["b", "c", "d"]], .join 1]
    let v := (w.begin 1).play .prompt [.look 1 1]
    ∃ c d b us, Reaches .prompt (ofActivators policies) w ∧ w.hasTurn 1 ∧
      w.calls[1]? = some c ∧ Reaches .prompt (w.begin 1) v ∧ v.find? 1 = some (d, b) ∧
      d.stage = .working us ∧
      ["a", "b", "c", "d"].map (v.isActive 0 <| .plain ·) = [false, true, true, false] ∧
      Steady .prompt c.activator 1 c.targets w v := by
  intro policies w v
  have hw : Reaches .prompt (ofActivators policies) w := reaches_play ..
  have hv : Reaches .prompt (w.begin 1) v := reaches_play ..
  have hturn : w.hasTurn 1 := by decide +kernel
  have hworking : (v.find? 1).any fun p => p.1.hasBegun && !p.1.isOver := by decide +kernel
  obtain ⟨c, a, hf, -⟩ := hasTurn_iff.1 hturn
  obtain ⟨⟨d, b⟩, hfd, hd⟩ := (Option.any_eq_true ..).1 hworking
  obtain ⟨us, hs⟩ : ∃ us, d.stage = .working us := by
    cases hs : d.stage <;> simp_all [Call.isOver, Call.hasBegun]
  refine ⟨c, d, b, us, hw, hturn, (find?_eq_some.1 hf).1, hv, hfd, hs, by decide +kernel, ?_⟩
  exact steady_during_call hw hturn (find?_eq_some.1 hf).1 hv hfd hs

end World

end Lifecycle
