import Lifecycle.Proofs.Course
import Lifecycle.Proofs.Favoured

/-!
# Failed attempts leave nothing behind

A call that lists a reference obtains a controller for it, if nothing goes wrong
with this call; whether and how earlier attempts on the reference have failed does
not matter (`failed_attempts_leave_nothing`). What the call does about the
reference until then is one word, which tells nothing of the past either.

That a favoured attempt gets through to its end is the matter of `Favoured`. What is
left for the past is to leave the two things free that an attempt needs. The store
has nothing for a reference unless an attempt on it has succeeded, since no end of an
attempt but success enters anything; and the name of its controller is free, since
only what is in use is held (`InUse`), and a failed attempt uses no name any more.
-/

namespace Lifecycle

variable {C T : Type} [Targeted T]

/-- Nothing but the success of an attempt enters a controller. -/
theorem Attempt.Step.exists_of_isSome {env : Collaborators C T} {x : Context C}
    {a b : Attempt T} {s s' : Site C T} (h : Attempt.Step env x (a, s) (b, s'))
    (hg : (s'.store.get? a.reference).isSome) :
    (s.store.get? a.reference).isSome ∨ (b.isDone ∧ b.cause? = none) := by
  cases h with
  | update _ hfound => exact .inl (by rw [hfound]; rfl)
  | install => exact .inr ⟨rfl, rfl⟩
  | create _ _ _ _ _ _ hs =>
      subst hs
      exact .inl hg
  | register _ hs => exact .inl (by cases hs <;> exact hg)
  | refuse | revoke =>
      dsimp only [Site.note] at hg
      rw [release_store] at hg
      exact .inl hg
  | _ => exact .inl hg

namespace World

/-- An attempt of an activator on a reference has ended without a cause. -/
def Succeeded (w : World C T) (k : Nat) (r : ResourceReference) : Prop :=
  ∃ i j c a, w.calls[i]? = some c ∧ c.activator = k ∧ w.attempt? i j = some a ∧
    a.reference = r ∧ a.isDone ∧ a.cause? = none

/-- Whatever attempts of an activator on a reference there were have failed. -/
def AllFailed (w : World C T) (k : Nat) (r : ResourceReference) : Prop :=
  ∀ i j c a, w.calls[i]? = some c → c.activator = k → w.attempt? i j = some a →
    a.reference = r → a.cause?.isSome

/-- Whether they have can be found out call by call. -/
theorem allFailed_of_attempts {w : World C T}
    (h : ∀ i < w.calls.length, (w.attempts i).all fun a => a.cause?.isSome) (k : Nat)
    (r : ResourceReference) : w.AllFailed k r := by
  intro i j c a hc _ ha _
  have hlt := (List.getElem?_eq_some_iff.1 hc).1
  exact List.all_eq_true.1 (h i hlt) a (List.mem_of_getElem? ha)

section Succeeded

variable {env : Collaborators C T} {m : Move C T} {w w' : World C T} {k : Nat}
  {r : ResourceReference}

theorem Succeeded.step (hw : w.Succeeded k r) (h : Step env m w w') (hm : ∀ i, m ≠ .drop i) :
    w'.Succeeded k r := by
  obtain ⟨i, j, c, a, hc, hk, ha, hr, hd, hcause⟩ := hw
  obtain ⟨c', hc', hl⟩ := h.later hc
  obtain ⟨a', ha', ht, hst⟩ := h.attempt?_of_isDone hm ha hd
  refine ⟨i, j, c', a', hc', hl.activator.trans hk, ha', ?_, ?_, ?_⟩
  · rw [Attempt.reference, ht]
    exact hr
  · rwa [Attempt.isDone, hst]
  · rwa [Attempt.cause?, hst]

/-- Where there is a controller an attempt has succeeded. -/
theorem succeeded_step (h : Step env m w w') (hm : ∀ i, m ≠ .drop i) (hw : w.Orderly)
    (hs : (w.holding? k r).isSome → w.Succeeded k r) (hh : (w'.holding? k r).isSome) :
    w'.Succeeded k r := by
  cases h.effect hw k r with
  | same heq =>
      have hholding : w'.holding? k r = w.holding? k r := congrArg Standing.holding heq
      rw [hholding] at hh
      exact (hs hh).step h hm
  | begin _ _ _ _ heq =>
      have hholding : w'.holding? k r = ((w.standing k r).begun _ _ r).holding :=
        congrArg Standing.holding heq
      rw [hholding, Standing.begun, Option.isSome_map] at hh
      exact (hs hh).step h hm
  | @look i j c b as u p hfind hstage hk hu hr hp hput hbefore hafter =>
      have hholding : w.holding? k r = b.store.get? r := congrArg Standing.holding hbefore
      have hholding' : w'.holding? k r = p.2.store.get? r := congrArg Standing.holding hafter
      subst hr
      rw [hholding'] at hh
      rcases hp.exists_of_isSome hh with hg | ⟨hd, hcause⟩
      · exact (hs (by rw [hholding]; exact hg)).step h hm
      · have hc : w'.calls[i]? = some { c with stage := .working (as.set j p.1) } := by
          rw [hput]
          simp [put, setStage, withSite, (find?_eq_some.1 hfind).1]
        have hlt := (List.getElem?_eq_some_iff.1 hu).1
        refine ⟨i, j, _, p.1, hc, hk, ?_, congrArg Targeted.reference hp.target_eq, hd, hcause⟩
        rw [attempt?_eq, hc]
        exact List.getElem?_set_self hlt
  | close _ _ heq =>
      have hholding : w'.holding? k r = w.holding? k r := congrArg Standing.holding heq
      rw [hholding] at hh
      exact (hs hh).step h hm
  | drop => exact absurd rfl (hm _)

/-- If all attempts have failed there is no controller. -/
theorem AllFailed.holding?_eq_none (h : w.AllFailed k r)
    (hs : (w.holding? k r).isSome → w.Succeeded k r) : w.holding? k r = none := by
  rw [← Option.not_isSome_iff_eq_none]
  intro hh
  obtain ⟨i, j, c, a, hc, hk, ha, hr, -, hcause⟩ := hs hh
  have hsome := h i j c a hc hk ha hr
  rw [hcause] at hsome
  cases hsome

end Succeeded

/-- What a call is about to do about one of its targets. -/
def errand (w : World C T) (i j : Nat) (c : Call C T) (a : Activator) (t : T) : Errand C T :=
  ⟨i, j, c.activator, a.capability, a.policy, c.config, t, w.now, w.trace⟩

/-! ## Worlds in which nothing is in the way -/

/-- What is held is in use, and loops can be started. -/
structure Tidy (w : World C T) : Prop where
  orderly : w.Orderly
  inUse : Trace.Apart w.trace → w.InUse
  isOpen : w.registry.closed = false

theorem tidy_ofActivators (as : List (String × Policy)) :
    (ofActivators as : World C T).Tidy :=
  ⟨orderly_ofActivators as, fun _ => inUse_ofActivators as, rfl⟩

section Tidy

variable {env : Collaborators C T} {m : Move C T} {w w' : World C T} (hd : env.KeepsNames)

include hd

theorem Tidy.step (h : Step env m w w') (hm : m.isOrdinary) (hw : w.Tidy) : w'.Tidy :=
  ⟨orderly_step h hw.orderly,
    fun hapart => inUse_step hd h (Move.isPeaceful_of_isOrdinary hm) hw.orderly hapart
      (hw.inUse (hapart.of_suffix h.trace_suffix)),
    (h.closed_eq hm).trans hw.isOpen⟩

variable (hw : w.Tidy) {i j : Nat} {c : Call C T} {a : Activator} {t : T}
  (hfind : w.find? i = some (c, a)) (hq : c.stage = .queued) (hh : a.queue.head? = some i)
  (hplace : (distinctTargets c.targets)[j]? = some t)

include hw hfind hq hh hplace

/-- The turn of a call finds such a world as its errand needs it. -/
theorem Tidy.ground_begin : (w.begin i).Ground (w.errand i j c a t) := by
  obtain ⟨hc, ha⟩ := find?_eq_some.1 hfind
  have hstep : Step env (.begin i) w (w.begin i) := by
    rw [begin_eq_begun hfind hq hh]
    exact .begin hfind hq hh
  obtain ⟨c', hc', hl⟩ := hstep.later hc
  obtain ⟨a', ha', hcapability, hpolicy⟩ := hstep.activator ha
  obtain ⟨horderly, huse, hopen⟩ := hw.step hd hstep rfl
  exact ⟨horderly, huse, hopen, hstep.trace_suffix, hstep.hasBegun_begin.2.2,
    ⟨c', hc', hl.activator, hl.config, by rw [hl.targets]; exact hplace⟩,
    ⟨a', ha', hcapability, hpolicy⟩⟩

/-- Where there is no controller, an attempt starts out with nothing against it. -/
theorem Tidy.fares_begin (hnone : w.holding? c.activator (Targeted.reference t) = none)
    (misses : Nat) : (w.begin i).Fares env (w.errand i j c a t) misses := by
  intro _ _ u hu
  have hground := hw.ground_begin hd hfind hq hh hplace
  have hstanding := standing_begun hw.orderly
    (begin_eq_begun hfind hq hh ▸ hground.orderly) hfind hq hh (Targeted.reference t)
  rw [← begin_eq_begun hfind hq hh] at hstanding
  obtain ⟨-, hattempt⟩ := hground.has_iff.1 hu
  have hfresh : u.stage = .fresh := by
    have hbegun := (congrArg Standing.attempt hstanding).symm.trans hattempt
    exact Standing.stage_begun hbegun
  have hholding : (w.begin i).holding? c.activator (Targeted.reference t) = none := by
    refine (congrArg Standing.holding hstanding).trans ?_
    simp [Standing.begun, hnone, standing]
  have hacts : Trace.acts (w.begin i).trace c.activator (Targeted.reference t) =
      Trace.acts w.trace c.activator (Targeted.reference t) := by
    refine (congrArg Standing.acts hstanding).trans ?_
    simp [Standing.begun, hnone, standing]
  simp only [Attempt.Fares, hfresh]
  refine ⟨hholding, ?_, ?_⟩
  · rw [Errand.acts, List.map_nil, List.append_nil]
    exact hacts
  · rw [begin_eq_begun hfind hq hh, begun, beginWork_eq]
    rfl

end Tidy

section Past

variable {env : Collaborators C T} {policies : List (String × Policy)} {past : List (Move C T)}
  (hpast : ∀ m ∈ past, m.isOrdinary)

include hpast

theorem succeeded_play {k : Nat} {r : ResourceReference} :
    (((ofActivators policies).play env past).holding? k r).isSome →
      ((ofActivators policies).play env past).Succeeded k r := by
  refine invariant_of_orderly (P := fun w => (w.holding? k r).isSome → w.Succeeded k r)
    (A := fun m => m.isOrdinary) (fun hm h hw hs hh => ?_) hpast (orderly_ofActivators policies) ?_
  · exact succeeded_step h (ne_drop_of_isOrdinary hm) hw hs hh
  · intro hh
    have hholding : (ofActivators policies : World C T).holding? k r = none :=
      congrArg Standing.holding (standing_ofActivators policies k r)
    rw [hholding] at hh
    cases hh

theorem tidy_play (hd : env.KeepsNames) :
    ((ofActivators policies : World C T).play env past).Tidy :=
  invariant_of_play (A := fun m => m.isOrdinary) (fun hm h hw => hw.step hd h hm) hpast
    (tidy_ofActivators policies)

variable {w : World C T} (hw : w = (ofActivators policies).play env past) {i j : Nat}
  {c : Call C T} {a : Activator} {t : T} (hfind : w.find? i = some (c, a))
  (hq : c.stage = .queued) (hh : a.queue.head? = some i)
  (hplace : (distinctTargets c.targets)[j]? = some t) (hd : env.KeepsNames)

include hw hfind hq hh hplace hd

theorem ground_begin : (w.begin i).Ground (w.errand i j c a t) := by
  subst hw
  exact (tidy_play hpast hd).ground_begin hd hfind hq hh hplace

/-- After nothing but failures, an attempt starts out with nothing against it. -/
theorem fares_begin (hfailed : w.AllFailed c.activator (Targeted.reference t)) (misses : Nat) :
    (w.begin i).Fares env (w.errand i j c a t) misses := by
  subst hw
  exact (tidy_play hpast hd).fares_begin hd hfind hq hh hplace
    (hfailed.holding?_eq_none (succeeded_play hpast)) misses

end Past

/-! ## A run that favours an attempt -/

omit [Targeted T] in
theorem exists_has_of_isSettled {w : World C T} {i j : Nat} (h : w.isSettled i)
    (hj : (w.attempt? i j).isSome) : ∃ a, w.Has i j a ∧ a.isDone := by
  obtain ⟨c, b, as, hf, hs, hall⟩ := isSettled_iff.1 h
  rw [attempt?_of_working hf hs, Option.isSome_iff_exists] at hj
  obtain ⟨a, ha⟩ := hj
  exact ⟨a, ⟨c, b, as, hf, hs, ha⟩, List.all_eq_true.1 hall a (List.mem_of_getElem? ha)⟩

/-- A look at an attempt that is done changes nothing. -/
theorem Has.look_of_isDone {env : Collaborators C T} {w : World C T} {i j : Nat} {a : Attempt T}
    (ha : w.Has i j a) (hd : a.isDone) : w.look env i j = w := by
  obtain ⟨c, b, as, hf, hs, hj⟩ := ha
  rw [look_eq_put hf hs hj, Attempt.look_of_calm env (Attempt.calm_of_isDone hd ..)]
  exact put_self hf hs hj

/-- Every other move looks at an attempt, and the clock goes on in between. -/
def ticking (i j n : Nat) : Move C T := if n % 2 = 0 then .look i j else .advance n

omit [Targeted T] in
theorem isOrdinary_ticking (i j n : Nat) : (ticking i j n : Move C T).isOrdinary := by
  unfold ticking
  split <;> rfl

/-- If the first look ends the attempt, only the clock moves afterwards. -/
theorem along_ticking {env : Collaborators C T} {w : World C T} {i j : Nat} {a : Attempt T}
    (ha : (w.look env i j).Has i j a) (hd : a.isDone) (n : Nat) :
    ∃ t, n ≤ t + (n + 1) % 2 ∧
      w.along env (ticking i j) (n + 1) = (w.look env i j).advance t := by
  induction n with
  | zero =>
      refine ⟨0, by omega, ?_⟩
      rw [advance, Nat.max_zero]
      rfl
  | succ n ih =>
      obtain ⟨t, ht, heq⟩ := ih
      rw [along_succ, heq, ticking]
      split
      · have hat : ((w.look env i j).advance t).Has i j a := ha
        exact ⟨t, by omega, hat.look_of_isDone hd⟩
      · refine ⟨max t (n + 1), by omega, ?_⟩
        simp [move, advance, Nat.max_assoc]

theorem favours_ticking {env : Collaborators C T} {w : World C T} {i j : Nat} {a : Attempt T}
    (ha : (w.look env i j).Has i j a) (hd : a.isDone) (hapart : Trace.Apart (w.look env i j).trace)
    (hw : w.isCancelled i = false) (hc : (w.look env i j).isCancelled i = false) :
    w.Favours env i j (ticking i j) := by
  have hafter := along_ticking ha hd
  refine ⟨⟨fun n => ⟨2 * n, by omega, by simp [ticking]⟩, fun n t => ?_, fun n => ?_⟩,
    fun n time hm u hu s _ _ => ?_, isOrdinary_ticking i j, fun n => ?_, fun n c _ _ => ?_⟩
  · obtain ⟨t', ht', heq⟩ := hafter (max n (t + 1))
    refine ⟨max n (t + 1) + 1, by omega, ?_⟩
    rw [heq]
    have hle : t ≤ t' := by omega
    exact Nat.le_trans hle (Nat.le_max_right ..)
  · exact ne_drop_of_isOrdinary (isOrdinary_ticking i j n) i
  · cases n with
    | zero => cases hm
    | succ n =>
        obtain ⟨t, -, heq⟩ := hafter n
        rw [heq] at hu
        have hua : u = a := by
          obtain ⟨c, b, as, hf, hs, hj⟩ := hu
          obtain ⟨c', b', as', hf', hs', hj'⟩ := ha
          have hsame : ((w.look env i j).advance t).find? i = (w.look env i j).find? i := rfl
          rw [hsame, hf'] at hf
          cases hf
          rw [hs'] at hs
          cases hs
          rw [hj'] at hj
          exact (Option.some.inj hj).symm
        obtain ⟨cause, time, hst⟩ := Attempt.isDone_iff.1 hd
        rw [hua, Attempt.dueTicket?, hst]
  · cases n with
    | zero => exact hapart.of_suffix (trace_suffix_move env w (.look i j))
    | succ n =>
        obtain ⟨t, -, heq⟩ := hafter n
        rw [heq]
        exact hapart
  · cases n with
    | zero => exact hw
    | succ n =>
        obtain ⟨t, -, heq⟩ := hafter n
        rw [heq]
        exact hc

/-! ## All histories -/

/-- After any past in which the attempts of an activator on a reference have all failed,
a call that lists the reference obtains a controller for it, if the collaborators welcome
the errand and the run favours it. The attempt ends without a cause; from its end on, and
when its call ends, the controller is active and its name registered. What the call has
done about the reference by then does not depend on the past. -/
theorem failed_attempts_leave_nothing {env : Collaborators C T}
    {policies : List (String × Policy)} {past : List (Move C T)} (hd : env.KeepsNames)
    (hpast : ∀ m ∈ past, m.isOrdinary) {w : World C T}
    (hw : w = (ofActivators policies).play env past) {i j misses : Nat} {c : Call C T}
    {a : Activator} {t : T} (hturn : w.hasTurn i) (hfind : w.find? i = some (c, a))
    (hplace : (distinctTargets c.targets)[j]? = some t)
    (hfailed : w.AllFailed c.activator (Targeted.reference t))
    (henv : env.Welcomes (w.errand i j c a t) misses) {ms : Nat → Move C T}
    (hms : (w.begin i).Favours env i j ms) :
    let e := w.errand i j c a t
    let v := (w.begin i).along env ms
    (∃ n, ∀ m, n ≤ m → (v m).EndsWell e) ∧
      (∀ n u, (v n).Has i j u → u.isDone → ∃ name, (v n).Obtained e misses name) ∧
      ∀ n, (v n).isSettled i → ∃ name, ((v n).close i).Obtained e misses name := by
  intro e v
  obtain ⟨c', a', hfind', hq, hh⟩ := hasTurn_iff.1 hturn
  rw [hfind] at hfind'
  cases hfind'
  have hground : (w.begin i).Ground e := ground_begin hpast hw hfind hq hh hplace hd
  have hfares : (w.begin i).Fares env e misses :=
    fares_begin hpast hw hfind hq hh hplace hd hfailed misses
  obtain ⟨u, hu⟩ : ∃ u, (w.begin i).Has i j u := by
    have hbegun := find?_begun w i c a i
    rw [← begin_eq_begun hfind hq hh, hfind, Option.map_some] at hbegun
    exact hground.exists_has hbegun (by rw [if_pos rfl])
  refine ⟨hms.stays henv hd hground hfares hu, fun n u hu hdone => ?_, fun n hsettled => ?_⟩
  · exact hms.obtained henv hd hground hfares hu hdone
  · exact hms.obtained_close henv hd hground hfares hsettled

/-- A second call for a target whose first registration has failed when it had started
the loop. -/
theorem failed_attempts_leave_nothing_second :
    let env : Collaborators String ResourceReference :=
      { Collaborators.prompt with
        create := fun _ _ _ r config => ⟨r.name, .spawn r.name .forever (.finish
          (if config = "v1" then some (.registration r.name "v1") else none))⟩ }
    let policies := [("widgets", Policy.default)]
    let past : List (Move String ResourceReference) :=
      [.submit [.plain 0 "v1" ["a"]], .join 0, .begin 0, .look 0 0, .close 0,
        .submit [.plain 0 "v2" ["a"]], .join 1]
    let w := (ofActivators policies).play env past
    let c : Call String ResourceReference := ⟨0, "v2", [.plain "a"], false, .queued⟩
    let a : Activator := ⟨"widgets", Policy.default, [], [1]⟩
    let e := w.errand 1 0 c a (.plain "a")
    let v := (w.begin 1).along env (ticking 1 0)
    (∀ m ∈ past, m.isOrdinary) ∧ w.hasTurn 1 ∧ w.find? 1 = some (c, a) ∧
      ((w.attempt? 0 0).any fun u => u.cause?.isSome) ∧
      (∃ n, ∀ m, n ≤ m → (v m).EndsWell e) ∧
      (∀ n u, (v n).Has 1 0 u → u.isDone → ∃ name, (v n).Obtained e 0 name) ∧
      ∀ n, (v n).isSettled 1 → ∃ name, ((v n).close 1).Obtained e 0 name := by
  intro env policies past w c a e v
  have hd : env.KeepsNames := by
    intro t now capability r config
    simp [env, Registration.spawnsOnly]
  have hpast : ∀ m ∈ past, m.isOrdinary := by decide +kernel
  have hturn : w.hasTurn 1 := by decide +kernel
  have hfind : w.find? 1 = some (c, a) := by decide +kernel
  have hplace : (distinctTargets c.targets)[0]? = some (.plain "a") := by decide +kernel
  have hfailed : w.AllFailed c.activator (Targeted.reference (ResourceReference.plain "a")) :=
    allFailed_of_attempts (by decide +kernel) _ _
  have henv : env.Welcomes e 0 :=
    ⟨rfl, .ready (fun _ _ => rfl) (by decide +kernel), fun _ _ _ => rfl⟩
  obtain ⟨u, hu, hdone⟩ : ∃ u, ((w.begin 1).look env 1 0).Has 1 0 u ∧ u.isDone :=
    exists_has_of_isSettled (by decide +kernel) (by decide +kernel)
  have hapart : Trace.Apart ((w.begin 1).look env 1 0).trace :=
    ⟨by decide +kernel, by decide +kernel⟩
  have hms : (w.begin 1).Favours env 1 0 (ticking 1 0) :=
    favours_ticking hu hdone hapart (by decide +kernel) (by decide +kernel)
  have hfailure : (w.attempt? 0 0).any fun u => u.cause?.isSome := by decide +kernel
  exact ⟨hpast, hturn, hfind, hfailure,
    failed_attempts_leave_nothing hd hpast rfl hturn hfind hplace hfailed henv hms⟩

end World

end Lifecycle
