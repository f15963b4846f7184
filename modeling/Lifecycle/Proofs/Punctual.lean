import Lifecycle.Proofs.Course
import Lifecycle.Proofs.Story

/-!
# A call takes as long as its slowest attempt

All attempts of a call begin at the instant at which its turn comes, and none of them
waits for another. So the time that a call takes does not depend on how many targets it
has: `targets_in_parallel` says when each of its attempts ends, counted from the turn,
and that the call ends with the last of them.

Nothing of that holds if the clock is allowed to run ahead of the engine. A run is
punctual for a call if the clock waits for it: whatever the call can do at an instant is
done before time goes on. That is all that is asked; in which order things are done at
an instant, and what all the others do, is left open. A clock that waits could wait for
ever, and then everything would be true of the time after the deadline. `keeps_up` says
that it need not: the call has only so much to do at each instant, so every punctual
run can be brought to any time.

`Attempt.OnTime` is the invariant of one attempt. A sleep of a registration is the
delicate part of it, since a registration is bounded as a whole and is run piece by
piece: what is left of it must fit in what is left of its time.
-/

namespace Lifecycle

variable {C T : Type}

/-- Whether a registration takes no more than some milliseconds, however it goes. -/
def Registration.EndsWithin : Registration → Nat → Prop
  | finish _, _ => True
  | spawn _ _ next, time | cancel _ next, time | synced next, time => next.EndsWithin time
  | spawnOr _ _ next refused, time => next.EndsWithin time ∧ refused.EndsWithin time
  | sleep (some d) _ next, time => d ≤ time ∧ next.EndsWithin (time - d)
  | sleep none .., _ => False

/-- Whether a registration that came to a sleep at an instant is still at it, and one that
did not has been there since just now. -/
def Registration.IsCurrent (since now : Nat) : Registration → Prop
  | sleep (some d) .. => now ≤ since + d
  | sleep none .. => True
  | _ => since = now

namespace Registration

variable {x : Context C} {c : String} {r : ResourceReference} {rest rest' : Registration}
  {since left : Nat} {s s' : Site C T}

theorem isCurrent_self (rest : Registration) (now : Nat) : rest.IsCurrent now now := by
  unfold IsCurrent
  split
  · omega
  · trivial
  · rfl

/-- What is left of a registration fits in what is left of its time. -/
theorem Step.endsWithin (h : Step x c r rest since s rest' s') (hc : rest.IsCurrent since s.now)
    (hl : rest.EndsWithin left) : s'.now = s.now ∧
      ∃ left', rest'.EndsWithin left' ∧ s.now + left' = since + left := by
  cases h with
  | spawn | cancel | synced =>
      obtain rfl : since = s.now := hc
      exact ⟨rfl, left, hl, rfl⟩
  | spawnOr =>
      obtain rfl : since = s.now := hc
      exact ⟨rfl, left, hl.1, rfl⟩
  | refused =>
      obtain rfl : since = s.now := hc
      exact ⟨rfl, left, hl.2, rfl⟩
  | @wake d _ _ _ _ hd =>
      obtain ⟨hle, hl⟩ := hl
      have hc : s.now ≤ since + d := hc
      exact ⟨rfl, left - d, hl, by omega⟩

/-- As long as it goes on, a registration has not used up its time. -/
theorem IsCurrent.le {now : Nat} (hc : rest.IsCurrent since now) (hl : rest.EndsWithin left) :
    now ≤ since + left := by
  unfold IsCurrent at hc
  split at hc
  · have hd := hl.1
    omega
  · exact hl.elim
  · omega

end Registration

variable [Targeted T]

/-! ## Attempts -/

/-- Whether all registrations of the controllers of a target take no more than some
milliseconds. -/
def Collaborators.RegistersWithin (env : Collaborators C T) (x : Scope C) (t : T) (time : Nat) :
    Prop :=
  ∀ tr now, (env.create tr now x.capability t x.config).registration.EndsWithin time

/-- How an attempt ends: that for a known target as it begins, any other by the deadline
or with the registration of its controller, which is made by the deadline. -/
inductive EndsAt (env : Collaborators C T) (x : Scope C) (begun deadline : Nat) (t : T)
    (found : Option Holding) (tr : Trace C T) : Option Cause → Nat → Prop where
  | known {h} (hf : found = some h) : EndsAt env x begun deadline t found tr none begun
  | unready {cause time} (hf : found = none) (hb : begun ≤ time) (hd : time ≤ deadline)
      (hc : ∀ gvk timeout, cause = .readinessTimeout gvk timeout → time = deadline) :
      EndsAt env x begun deadline t found tr (some cause) time
  | registered {made time c fault cancelled cause} (hf : found = none) (hb : begun ≤ made)
      (hd : made ≤ deadline) (ht : made ≤ time)
      (hm : ⟨made, some x, .registering c (reference t)⟩ ∈ tr)
      (hr : ⟨time, some x, .returned c (reference t) fault cancelled⟩ ∈ tr)
      (hw : ∀ d, env.RegistersWithin x t d → time ≤ made + d)
      (hc : ∀ gvk timeout, cause ≠ some (.readinessTimeout gvk timeout)) :
      EndsAt env x begun deadline t found tr cause time

theorem EndsAt.mono {env : Collaborators C T} {x : Scope C} {begun deadline : Nat} {t : T}
    {found : Option Holding} {tr tr' : Trace C T}
    {cause : Option Cause} {time : Nat} (h : EndsAt env x begun deadline t found tr cause time)
    (ht : tr <:+ tr') : EndsAt env x begun deadline t found tr' cause time := by
  cases h with
  | known hf => exact .known hf
  | unready hf hb hd hc => exact .unready hf hb hd hc
  | registered hf hb hd hle hm hr hw hc =>
      exact .registered hf hb hd hle (ht.subset hm) (ht.subset hr) hw hc

/-- An attempt that is on time at an instant. -/
def Attempt.OnTime (env : Collaborators C T) (x : Scope C) (p : Policy) (begun now : Nat)
    (found : Option Holding) (tr : Trace C T) (a : Attempt T) : Prop :=
  let deadline := begun + p.readinessTimeout.ceilMillis
  match a.stage with
  | .fresh => now = begun
  | .waiting w => found = none ∧ w.interval = p.pollInterval.ceilMillis ∧
      w.deadline = deadline ∧ begun ≤ now ∧ now ≤ deadline ∧
      ∀ wake, w.phase = .resting wake → wake ≤ deadline
  | .registering c _ rest since => found = none ∧ rest.IsCurrent since now ∧
      ∃ made, begun ≤ made ∧ made ≤ deadline ∧ made ≤ since ∧ since ≤ now ∧
        ⟨made, some x, .registering c a.reference⟩ ∈ tr ∧
        ∀ d, env.RegistersWithin x a.target d →
          ∃ left, rest.EndsWithin left ∧ since + left ≤ made + d
  | .done cause time => time ≤ now ∧ EndsAt env x begun deadline a.target found tr cause time

namespace Attempt

variable {env : Collaborators C T} {p : Policy} {begun now : Nat} {found : Option Holding}

theorem OnTime.mono {x : Scope C} {tr tr' : Trace C T} {a : Attempt T}
    (h : a.OnTime env x p begun now found tr) (ht : tr <:+ tr') :
    a.OnTime env x p begun now found tr' := by
  unfold OnTime at h ⊢
  split at h
  · exact h
  · exact h
  · obtain ⟨hf, hc, made, hb, hd, hle, hs, hm, hl⟩ := h
    exact ⟨hf, hc, made, hb, hd, hle, hs, ht.subset hm, hl⟩
  · exact ⟨h.1, h.2.mono ht⟩

/-- Time may pass until an attempt has something to do. -/
theorem OnTime.advance {x : Scope C} {tr : Trace C T} {a : Attempt T} {time : Nat}
    (h : a.OnTime env x p begun now found tr) (hs : a.stage.Sleeps) (hle : now ≤ time)
    (hdue : ∀ s, now ≤ s → s < time → a.dueTicket? s = none) :
    a.OnTime env x p begun time found tr := by
  unfold OnTime at h ⊢
  unfold dueTicket? at hdue
  cases hst : a.stage with
  | fresh =>
      rw [hst] at h hdue
      have hnow : ¬ now < time := fun hlt => by simpa using hdue now (Nat.le_refl _) hlt
      show time = begun
      omega
  | waiting w =>
      rw [hst] at h hdue
      obtain ⟨hf, hi, hd, hb, hn, hw⟩ := h
      refine ⟨hf, hi, hd, by omega, ?_, hw⟩
      by_contra hlt
      dsimp only at hdue
      -- At the deadline there is something to do, if there is not before.
      have hat := hdue (begun + p.readinessTimeout.ceilMillis) hn (by omega)
      cases hp : w.phase with
      | due | asked => simp [hp] at hat
      | inFlight check since => simp [hp, hd] at hat
      | resting wake => simp [hp, hw wake hp] at hat
  | registering c free rest since =>
      rw [hst] at h hdue
      obtain ⟨hf, hc, made, hb, hd, hms, hsn, hm, hl⟩ := h
      refine ⟨hf, ?_, made, hb, hd, hms, by omega, hm, hl⟩
      rw [hst] at hs
      obtain ⟨millis, interrupted, next, rfl⟩ := hs
      cases millis with
      | none => trivial
      | some d =>
          have hc : now ≤ since + d := hc
          show time ≤ since + d
          by_contra hlt
          simpa using hdue (since + d) hc (by omega)
  | done cause t =>
      rw [hst] at h
      exact ⟨by omega, h.2⟩

section Steps

variable {x : Scope C} {tr tr' : Trace C T} {a : Attempt T} {w : Wait Fault} {c : String}
  {free : Bool} {rest rest' : Registration} {since : Nat}
  (h : a.OnTime env x p begun now found tr)

include h

/-- A wait goes on in another phase, if it does not rest beyond its deadline. -/
theorem OnTime.goesOn (hw : a.stage = .waiting w) {phase : Phase Fault}
    (hphase : ∀ wake, phase = .resting wake → wake ≤ w.deadline) :
    (a.toStage (.waiting { w with phase })).OnTime env x p begun now found tr' := by
  unfold OnTime at h
  rw [hw] at h
  obtain ⟨hf, hi, hd, hb, hn, -⟩ := h
  exact ⟨hf, hi, hd, hb, hn, fun wake hp => hd ▸ hphase wake hp⟩

/-- What comes of a wait that is over without a controller. -/
theorem OnTime.unready (hw : a.stage = .waiting w) {cause : Cause}
    (hc : ∀ gvk timeout, cause = .readinessTimeout gvk timeout → w.deadline ≤ now) :
    (a.finish (some cause) now).OnTime env x p begun now found tr' := by
  unfold OnTime at h
  rw [hw] at h
  obtain ⟨hf, -, hd, hb, hn, -⟩ := h
  refine ⟨Nat.le_refl _, .unready hf hb hn fun gvk timeout heq => ?_⟩
  have hle := hc gvk timeout heq
  omega

/-- A registration begins, with all the time that it may take. -/
theorem OnTime.create (hw : a.stage = .waiting w)
    (hm : ⟨now, some x, .registering c a.reference⟩ ∈ tr')
    (hrest : ∀ d, env.RegistersWithin x a.target d → rest.EndsWithin d) :
    (a.toStage (.registering c free rest now)).OnTime env x p begun now found tr' := by
  unfold OnTime at h
  rw [hw] at h
  obtain ⟨hf, -, -, hb, hn, -⟩ := h
  exact ⟨hf, Registration.isCurrent_self .., now, hb, hn, Nat.le_refl _, Nat.le_refl _, hm,
    fun d hd => ⟨d, hrest d hd, Nat.le_refl _⟩⟩

/-- A registration goes on in the time that is left. -/
theorem OnTime.register (hr : a.stage = .registering c free rest since) (htr : tr <:+ tr')
    (hrest : ∀ left, rest.IsCurrent since now → rest.EndsWithin left →
      ∃ left', rest'.EndsWithin left' ∧ now + left' = since + left) :
    (a.toStage (.registering c free rest' now)).OnTime env x p begun now found tr' := by
  unfold OnTime at h
  rw [hr] at h
  obtain ⟨hf, hcurrent, made, hb, hd, hms, hsn, hm, hl⟩ := h
  refine ⟨hf, Registration.isCurrent_self .., made, hb, hd, by omega, Nat.le_refl _,
    htr.subset hm, fun d hd => ?_⟩
  obtain ⟨left, hleft, hle⟩ := hl d hd
  obtain ⟨left', hleft', heq⟩ := hrest left hcurrent hleft
  exact ⟨left', hleft', by omega⟩

/-- What comes of a registration that has returned. -/
theorem OnTime.returned (hr : a.stage = .registering c free rest since) (htr : tr <:+ tr')
    {fault : Option Fault} {cancelled : Bool} {cause : Option Cause}
    (hmem : ⟨now, some x, .returned c a.reference fault cancelled⟩ ∈ tr')
    (hc : ∀ gvk timeout, cause ≠ some (.readinessTimeout gvk timeout)) :
    (a.finish cause now).OnTime env x p begun now found tr' := by
  unfold OnTime at h
  rw [hr] at h
  obtain ⟨hf, hcurrent, made, hb, hd, hms, hsn, hm, hl⟩ := h
  refine ⟨Nat.le_refl _, .registered hf hb hd (by omega) (htr.subset hm) hmem (fun d hd => ?_) hc⟩
  obtain ⟨left, hleft, hle⟩ := hl d hd
  have := hcurrent.le hleft
  omega

end Steps

theorem Step.onTime {x : Context C} {a b : Attempt T} {s s' : Site C T}
    (h : Step env x (a, s) (b, s'))
    (hfound : a.stage = .fresh → s.store.get? a.reference = found)
    (ha : a.OnTime env x.scope x.policy begun s.now found s.trace) :
    b.OnTime env x.scope x.policy begun s'.now found s'.trace := by
  have htrace := h.trace_suffix
  have hnow : s'.now = s.now := h.now_eq
  rw [hnow]
  -- An attempt that has not been looked at yet begins now.
  have hbegun : a.stage = .fresh → s.now = begun := by
    intro hf
    unfold OnTime at ha
    rwa [hf] at ha
  cases h with
  | draw => exact ha
  | update hf hg =>
      obtain rfl := hbegun hf
      exact ⟨Nat.le_refl _, .known ((hfound hf).symm.trans hg)⟩
  | wait hf hg =>
      obtain rfl := hbegun hf
      refine ⟨(hfound hf).symm.trans hg, rfl, rfl, Nat.le_refl _, Nat.le_add_right .., ?_⟩
      intro wake hp
      cases hp
  | ask hw | probe hw =>
      refine ha.goesOn hw ?_
      intro wake hp
      cases hp
  | miss hw =>
      refine ha.goesOn hw ?_
      intro wake hp
      cases hp
      omega
  | unaskable hw | giveUp hw | fail hw =>
      refine ha.unready hw ?_
      intro _ _ heq
      cases heq
  | expire hw _ hd => exact ha.unready hw fun _ _ _ => hd
  | create hw _ _ _ _ _ hs hk =>
      subst hs
      refine ha.create hw (List.mem_cons_self ..) fun d hd => ?_
      rw [hk]
      exact hd _ _
  | register hr hs =>
      rw [hnow]
      exact ha.register hr htrace fun left hc hl => (hs.endsWithin hc hl).2
  | install hr =>
      refine ha.returned hr htrace (List.mem_cons_of_mem _ (List.mem_cons_self ..)) ?_
      intro _ _ heq
      cases heq
  | refuse hr =>
      refine ha.returned hr htrace
        (List.mem_cons_of_mem _ ((suffix_release ..).subset (List.mem_cons_self ..))) ?_
      intro _ _ heq
      cases heq
  | revoke hr =>
      refine ha.returned hr htrace ((suffix_release ..).subset (List.mem_cons_self ..)) ?_
      intro _ _ heq
      cases heq

end Attempt

/-- A step that ends an attempt ends it now. -/
theorem Attempt.Step.done_now {env : Collaborators C T} {x : Context C} {p q : Attempt T × Site C T}
    (h : Attempt.Step env x p q) (hp : p.1.isDone = false) {cause : Option Cause} {time : Nat}
    (hq : q.1.stage = .done cause time) : time = p.2.now := by
  cases h with
  | @draw a =>
      have hq : a.stage = .done cause time := hq
      simp [Attempt.isDone, hq] at hp
  | wait | ask | probe | miss | create | register => cases hq
  | _ =>
      cases hq
      rfl

/-- A registration is left at a sleep, whatever comes of a look. -/
theorem Attempt.look_sleeps (env : Collaborators C T) (x : Context C) (a : Attempt T)
    (s : Site C T) : (look env x a s).1.stage.Sleeps := by
  have hturn : ∀ {s : Site C T} {turn : Wait.Turn Fault}, a.stage.Sleeps →
      (afterTurn env x a s turn).1.stage.Sleeps := by
    intro s turn ha
    cases turn with
    | stay w => trivial
    | ask => exact ha
    | _ => exact (afterWait_calm ..).sleeps
  have hwait : ∀ {w : Wait Fault}, a.stage.Sleeps → (awaitSchema env x a w s).1.stage.Sleeps := by
    intro w ha
    unfold awaitSchema
    split
    · unfold makeCheck
      dsimp only
      split
      · exact (afterWait_calm ..).sleeps
      · split
        · trivial
        · exact hturn ha
    · exact hturn ha
  rw [look_stage, poll]
  cases hst : a.stage with
  | done => simp [hst, Stage.Sleeps]
  | registering => exact (register_calm ..).sleeps
  | waiting w => exact hwait (by simp [hst, Stage.Sleeps])
  | fresh =>
      dsimp only
      split
      · trivial
      · exact hwait (by simp [hst, Stage.Sleeps])

omit [Targeted T] in
/-- What has nothing to do has no turn. -/
theorem Attempt.dueTicket?_of_calm {a : Attempt T} {c : Bool} {now : Nat}
    (h : a.stage.Calm c now) : a.dueTicket? now = none := by
  cases hst : a.stage with
  | fresh => simp [Stage.Calm, hst] at h
  | done => simp [dueTicket?, hst]
  | waiting w =>
      rw [hst] at h
      obtain ⟨-, h⟩ := h
      cases hp : w.phase with
      | due | asked => simp [hp] at h
      | inFlight check since =>
          rw [hp] at h
          simp [dueTicket?, hst, hp, Nat.not_le.2 h.1, h.2]
      | resting wake =>
          rw [hp] at h
          simp [dueTicket?, hst, hp, Nat.not_le.2 h]
  | registering c free rest since =>
      rw [hst] at h
      obtain ⟨millis, interrupted, next, rfl, -, hd⟩ := h
      cases millis with
      | none => simp [dueTicket?, hst]
      | some d => simp [dueTicket?, hst, Nat.not_le.2 (hd d rfl)]

namespace World

/-! ## Runs that keep up with the clock -/

/-- Whether a move leaves nothing undone for a call: it does not drop the call, and the
clock passes by no instant at which the call or one of its attempts can go on. -/
def Heeds (w : World C T) (i : Nat) (m : Move C T) : Prop :=
  m ≠ .drop i ∧ (∀ j, w.Awaits i j m) ∧
    ∀ time, m = .advance time → w.now < time → w.isSettled i = false

/-- A run in which whatever a call can do at an instant is done before time goes on. -/
def Punctual (env : Collaborators C T) (i : Nat) : World C T → List (Move C T) → Prop :=
  Along env fun w m => w.Heeds i m

/-- The last of some attempts ended at an instant, or there are none and they began at it. -/
def LastEnd (begun : Nat) (us : List (Attempt T)) (time : Nat) : Prop :=
  (∀ u ∈ us, ∃ cause t, u.stage = .done cause t ∧ t ≤ time) ∧
    (us = [] ∧ time = begun ∨ ∃ u ∈ us, ∃ cause, u.stage = .done cause time)

/-- Where a call stands whose turn came at an instant: its attempts are on time, and it
ends with the last of them. -/
structure OnSchedule (env : Collaborators C T) (i : Nat) (c₀ : Call C T) (a₀ : Activator)
    (begun : Nat) (w : World C T) : Prop where
  serving : w.Serving a₀.store.get? i c₀.activator c₀.targets
  call : ∃ c a, w.find? i = some (c, a) ∧ (context a i c).scope = (context a₀ i c₀).scope ∧
    a.policy = a₀.policy
  since : begun ≤ w.now
  attempts : ∀ j u, w.attempt? i j = some u → u.OnTime env (context a₀ i c₀).scope a₀.policy
    begun w.now (a₀.store.get? u.reference) w.trace
  ends : ∀ c, w.calls[i]? = some c →
    (∃ us, c.stage = .working us ∧ (us.all Attempt.isDone → LastEnd begun us w.now)) ∨
      ∃ us time, c.stage = .ended us time ∧ time ≤ w.now ∧ LastEnd begun us time

section OnSchedule

variable {env : Collaborators C T} {m : Move C T} {w w' : World C T} {i : Nat} {c₀ : Call C T}
  {a₀ : Activator} {begun : Nat}

/-- One look at one of the attempts: if all are done afterwards, one of them is done now. -/
theorem LastEnd.set {us : List (Attempt T)} {j : Nat} {u : Attempt T} {x : Context C}
    {s : Site C T} {p : Attempt T × Site C T}
    (hlast : us.all Attempt.isDone → LastEnd begun us s.now) (hu : us[j]? = some u)
    (hp : Attempt.Step env x (u, s) p) (hd : (us.set j p.1).all Attempt.isDone)
    (htimes : ∀ t ∈ us.set j p.1, ∀ cause time, t.stage = .done cause time → time ≤ s.now) :
    LastEnd begun (us.set j p.1) s.now := by
  have hj : j < us.length := (List.getElem?_eq_some_iff.1 hu).1
  refine ⟨fun t ht => ?_, .inr ?_⟩
  · obtain ⟨cause, time, hst⟩ := Attempt.isDone_iff.1 (List.all_eq_true.1 hd t ht)
    exact ⟨cause, time, hst, htimes t ht cause time hst⟩
  · cases hdone : u.isDone with
    | false =>
        have hmem : p.1 ∈ us.set j p.1 := List.mem_set hj p.1
        obtain ⟨cause, time, hst⟩ := Attempt.isDone_iff.1 (List.all_eq_true.1 hd _ hmem)
        obtain rfl := hp.done_now hdone hst
        exact ⟨p.1, hmem, cause, hst⟩
    | true =>
        obtain ⟨hst, -⟩ := hp.of_isDone hdone
        have hall : us.all Attempt.isDone := by
          refine List.all_eq_true.2 fun t ht => ?_
          obtain ⟨l, ht⟩ := List.getElem?_of_mem ht
          by_cases hl : j = l
          · subst hl
            rw [hu] at ht
            cases ht
            exact hdone
          · refine List.all_eq_true.1 hd t (List.mem_of_getElem? (i := l) ?_)
            rw [List.getElem?_set_ne hl, ht]
        obtain ⟨-, ⟨rfl, -⟩ | ⟨t, ht, cause, hlast⟩⟩ := hlast hall
        · cases hu
        · obtain ⟨l, ht⟩ := List.getElem?_of_mem ht
          by_cases hl : j = l
          · subst hl
            rw [hu] at ht
            cases ht
            exact ⟨p.1, List.mem_set hj p.1, cause, hst.trans hlast⟩
          · refine ⟨t, List.mem_of_getElem? (i := l) ?_, cause, hlast⟩
            rw [List.getElem?_set_ne hl, ht]

theorem OnSchedule.hasBegun (hw : w.OnSchedule env i c₀ a₀ begun) : w.hasBegun i := by
  obtain ⟨c, hc, -, -, hb⟩ := hw.serving.call
  rw [World.hasBegun, hc]
  exact hb

/-- Whatever is done at an instant, the attempts of a call stay on time. -/
theorem OnSchedule.attempts_step (hw : w.OnSchedule env i c₀ a₀ begun) (h : Step env m w w')
    (hm : ∀ time, m ≠ .advance time) {j : Nat} {u : Attempt T} (hu : w'.attempt? i j = some u) :
    u.OnTime env (context a₀ i c₀).scope a₀.policy begun w'.now (a₀.store.get? u.reference)
      w'.trace := by
  have hnow := h.now_eq hm
  cases h.fate hw.serving.orderly hu with
  | kept hu =>
      rw [hnow]
      exact (hw.attempts j u hu).mono h.trace_suffix
  | begun hc hb =>
      have hbegun := hw.hasBegun
      rw [World.hasBegun, hc, Option.any_some, hb] at hbegun
      cases hbegun
  | @looked c a us t s' hf hst hget hp hput =>
      subst hput
      obtain ⟨_, _, hf', hscope, hpolicy⟩ := hw.call
      rw [hf] at hf'
      cases hf'
      have hon := hw.attempts j t ((attempt?_of_working hf hst j).trans hget)
      have href : u.reference = t.reference := congrArg reference hp.target_eq
      have hsite : s'.now = w.now := hp.now_eq
      rw [← hscope, ← hpolicy] at hon ⊢
      rw [href, hnow, ← hsite]
      refine hp.onTime (fun hfresh => ?_) hon
      have hkeeps := hw.serving.attempt_keeps hf hst (List.mem_of_getElem? hget)
      rw [Attempt.Keeps, hfresh] at hkeeps
      exact hkeeps

theorem OnSchedule.step (hw : w.OnSchedule env i c₀ a₀ begun) (h : Step env m w w')
    (hm : ∀ time, m ≠ .advance time) (hdrop : m ≠ .drop i) : w'.OnSchedule env i c₀ a₀ begun := by
  have hnow := h.now_eq hm
  have hserving := serving_step h hw.serving
  have hattempts := fun j u => hw.attempts_step h hm (j := j) (u := u)
  refine ⟨hserving, ?_, hnow ▸ hw.since, hattempts, fun c' hc' => ?_⟩
  · obtain ⟨c, a, hf, hscope, hpolicy⟩ := hw.call
    obtain ⟨c', a', hf', hscope', hpolicy'⟩ := h.find?_kept hf
    exact ⟨c', a', hf', hscope'.trans hscope, hpolicy'.trans hpolicy⟩
  · obtain ⟨c, hc, -, -, hb⟩ := hw.serving.call
    rw [hnow]
    rcases h.stage_cases hc hb hc' with hst | hd | ⟨a, us, j, u, p, hf, hs, hu, hp, hst⟩ |
      ⟨us, hs, hall, hst⟩
    · rw [hst]
      exact hw.ends c hc
    · exact absurd hd hdrop
    · refine .inl ⟨us.set j p.1, hst, fun hd => ?_⟩
      have hlast : us.all Attempt.isDone → LastEnd begun us w.now := by
        rcases hw.ends c hc with ⟨us', hs', hlast⟩ | ⟨us', time, hs', -⟩
        · rw [hs] at hs'
          cases hs'
          exact hlast
        · rw [hs] at hs'
          cases hs'
      refine LastEnd.set (s := w.site a) hlast hu hp hd fun t ht cause time hdone => ?_
      obtain ⟨l, ht⟩ := List.getElem?_of_mem ht
      have hon := hattempts l t (by rw [attempt?_eq, hc', Option.bind_some, Call.attempts, hst, ht])
      rw [Attempt.OnTime, hdone, hnow] at hon
      exact hon.1
    · refine .inr ⟨us, w.now, hst, Nat.le_refl _, ?_⟩
      rcases hw.ends c hc with ⟨us', hs', hlast⟩ | ⟨us', time, hs', -⟩
      · rw [hs] at hs'
        cases hs'
        exact hlast hall
      · rw [hs] at hs'
        cases hs'

/-- A clock that waits for a call passes by no instant at which one of its attempts can go on. -/
theorem OnSchedule.dueTicket?_eq_none (hw : w.OnSchedule env i c₀ a₀ begun) {time : Nat}
    (hheeds : w.Heeds i (.advance time)) {j : Nat} {u : Attempt T} (hu : w.attempt? i j = some u) :
    ∀ s, w.now ≤ s → s < (w.advance time).now → u.dueTicket? s = none := by
  intro s hs hlt
  have hlt : s < max w.now time := hlt
  obtain ⟨c, a, hf, -⟩ := hw.call
  obtain ⟨hc, -⟩ := find?_eq_some.1 hf
  rw [attempt?_eq, hc, Option.bind_some, Call.attempts] at hu
  rcases hw.ends c hc with ⟨us, hst, -⟩ | ⟨us, e, hst, -, hlast⟩
  · rw [hst] at hu
    exact hheeds.2.1 j time rfl u ⟨c, a, us, hf, hst, hu⟩ s hs (by omega)
  · rw [hst] at hu
    obtain ⟨cause, t, hdone, -⟩ := hlast.1 u (List.mem_of_getElem? hu)
    simp [Attempt.dueTicket?, hdone]

/-- A clock that waits for a call keeps its attempts on time. -/
theorem OnSchedule.advance (hw : w.OnSchedule env i c₀ a₀ begun)
    (hsleeps : ∀ j u, w.attempt? i j = some u → u.stage.Sleeps) {time : Nat}
    (hheeds : w.Heeds i (.advance time)) : (w.advance time).OnSchedule env i c₀ a₀ begun := by
  have hsettled := hheeds.2.2
  have hle : w.now ≤ max w.now time := Nat.le_max_left ..
  have hstep : Step env (.advance time) w (w.advance time) := .advance
  refine ⟨serving_step hstep hw.serving, hw.call, Nat.le_trans hw.since hle,
    fun j u hu => ?_, fun c hc => ?_⟩
  · exact (hw.attempts j u hu).advance (hsleeps j u hu) hle (hw.dueTicket?_eq_none hheeds hu)
  · rcases hw.ends c hc with ⟨us, hst, hlast⟩ | ⟨us, e, hst, hle', hlast⟩
    · refine .inl ⟨us, hst, fun hd => ?_⟩
      have hnow : ¬ w.now < time := by
        intro hlt
        obtain ⟨c', a, hf, -⟩ := hw.call
        obtain rfl : c' = c := Option.some.inj ((find?_eq_some.1 hf).1.symm.trans hc)
        have hs := hsettled time rfl hlt
        rw [Bool.eq_false_iff] at hs
        exact hs (isSettled_iff.2 ⟨c', a, us, hf, hst, hd⟩)
      have heq : (w.advance time).now = w.now := Nat.max_eq_left (Nat.le_of_not_lt hnow)
      rw [heq]
      exact hlast hd
    · exact .inr ⟨us, e, hst, Nat.le_trans hle' hle, hlast⟩

/-- Only a look at its place makes anything of an attempt. -/
theorem attempt?_of_move (env : Collaborators C T) (hb : w.hasBegun i) {j : Nat} {u : Attempt T}
    (hm : m ≠ .look i j) (hu : (w.move env m).attempt? i j = some u) : w.attempt? i j = some u := by
  by_cases hlook : ∃ l, m = .look i l
  · obtain ⟨l, rfl⟩ := hlook
    rcases look_cases env w i l with h | ⟨c, a, as, t, hf, hs, ht, h⟩
    · rwa [move, h] at hu
    · have hlj : l ≠ j := fun h => hm (by rw [h])
      rwa [move, h, attempt?_of_working (find?_put hf) rfl, List.getElem?_set_ne hlj,
        ← attempt?_of_working hf hs] at hu
  · have h : (w.move env m).hasBegun i ∧
        ((w.move env m).attempt? i j = some u → w.attempt? i j = some u) :=
      invariant_of_move (P := fun v => v.hasBegun i ∧
        (v.attempt? i j = some u → w.attempt? i j = some u)) (fun hs hv =>
          ⟨hs.hasBegun hv.1, fun hu => hv.2 (hs.attempt? hv.1 (fun l hl => hlook ⟨l, hl⟩) hu)⟩)
        ⟨hb, id⟩
    exact h.2 hu

/-- What a move leaves of a registration that is not over has come to a sleep. -/
theorem sleeps_move (env : Collaborators C T) (m : Move C T) (hb : w.hasBegun i)
    (hw : ∀ j u, w.attempt? i j = some u → u.stage.Sleeps) :
    ∀ j u, (w.move env m).attempt? i j = some u → u.stage.Sleeps := by
  intro j u hu
  by_cases hlook : m = .look i j
  · subst hlook
    rcases look_cases env w i j with h | ⟨c, a, as, t, hf, hs, ht, h⟩
    · rw [move, h] at hu
      exact hw j u hu
    · rw [move, h, attempt?_of_working (find?_put hf) rfl,
        List.getElem?_set_self (List.getElem?_eq_some_iff.1 ht).1] at hu
      cases hu
      exact Attempt.look_sleeps ..
  · exact hw j u (attempt?_of_move env hb hlook hu)

theorem OnSchedule.move (hw : w.OnSchedule env i c₀ a₀ begun)
    (hsleeps : ∀ j u, w.attempt? i j = some u → u.stage.Sleeps) (hm : w.Heeds i m) :
    (w.move env m).OnSchedule env i c₀ a₀ begun ∧
      ∀ j u, (w.move env m).attempt? i j = some u → u.stage.Sleeps := by
  refine ⟨?_, sleeps_move env m hw.hasBegun hsleeps⟩
  by_cases htime : ∃ time, m = .advance time
  · obtain ⟨time, rfl⟩ := htime
    exact hw.advance hsleeps hm
  · exact invariant_of_move (P := fun v => v.OnSchedule env i c₀ a₀ begun)
      (fun h hv => hv.step h (fun time ht => htime ⟨time, ht⟩) hm.1) hw

theorem OnSchedule.play {ms : List (Move C T)} (hw : w.OnSchedule env i c₀ a₀ begun)
    (hsleeps : ∀ j u, w.attempt? i j = some u → u.stage.Sleeps) (hms : w.Punctual env i ms) :
    (w.play env ms).OnSchedule env i c₀ a₀ begun ∧
      ∀ j u, (w.play env ms).attempt? i j = some u → u.stage.Sleeps :=
  Along.invariant (P := fun v => v.OnSchedule env i c₀ a₀ begun ∧
    ∀ j u, v.attempt? i j = some u → u.stage.Sleeps) hms (fun hm hv => hv.1.move hv.2 hm)
    ⟨hw, hsleeps⟩

/-! ### The clock need not stand still -/

/-- Nothing keeps a call from being carried on. -/
theorem punctual_of_still {ms : List (Move C T)}
    (hms : ∀ m ∈ ms, m ≠ .drop i ∧ ∀ time, m ≠ .advance time) : w.Punctual env i ms :=
  along_of_forall fun m hm _ => ⟨(hms m hm).1, fun _ time h => absurd h ((hms m hm).2 time),
    fun time h => absurd h ((hms m hm).2 time)⟩

theorem now_play_of_still {ms : List (Move C T)} (hms : ∀ m ∈ ms, ∀ time, m ≠ .advance time) :
    (w.play env ms).now = w.now :=
  invariant_of_play (P := fun v => v.now = w.now) (A := fun m => ∀ time, m ≠ .advance time)
    (fun hm h hv => (h.now_eq hm).trans hv) hms rfl

omit [Targeted T] in
/-- Attempts that have nothing to do hold up no clock, if one of them is not done. -/
theorem heeds_advance {now : Nat} (hcalm : ∀ c a us, w.find? i = some (c, a) →
      c.stage = .working us → us.all Attempt.isDone = false ∧
        ∀ u ∈ us, u.stage.Calm false w.now) (hnow : now ≤ w.now + 1) :
    w.Heeds i (.advance now) := by
  refine ⟨nofun, fun j time ht u hu s hs hlt => ?_, fun time ht hlt => ?_⟩
  · cases ht
    obtain rfl : s = w.now := by omega
    obtain ⟨c, a, us, hf, hst, hu⟩ := hu
    exact Attempt.dueTicket?_of_calm ((hcalm c a us hf hst).2 u (List.mem_of_getElem? hu))
  · refine Bool.eq_false_iff.2 fun hsettled => ?_
    obtain ⟨c, a, us, hf, hst, hd⟩ := isSettled_iff.1 hsettled
    rw [(hcalm c a us hf hst).1] at hd
    cases hd

/-- What looks can make of an attempt in any place they can make of all attempts of a call. -/
theorem exists_looks {Q : World C T → Prop} {P : Attempt T → Prop}
    (hplace : ∀ {w : World C T} {c : Call C T} {a : Activator} {us : List (Attempt T)} {j : Nat}
      {t : Attempt T}, Q w → w.find? i = some (c, a) → c.stage = .working us → us[j]? = some t →
      ∃ ms, (∀ m ∈ ms, m = .look i j) ∧ Q (w.play env ms) ∧ ∃ c' a' u,
        (w.play env ms).find? i = some (c', a') ∧ c'.stage = .working (us.set j u) ∧ P u)
    (hw : Q w) {c : Call C T} {a : Activator} {us : List (Attempt T)}
    (hf : w.find? i = some (c, a)) (hs : c.stage = .working us) :
    ∃ ms, (∀ m ∈ ms, ∃ j, m = .look i j) ∧ Q (w.play env ms) ∧ ∃ c' a' us',
      (w.play env ms).find? i = some (c', a') ∧ c'.stage = .working us' ∧
      us'.length = us.length ∧ ∀ u ∈ us', P u := by
  -- The first so many places are brought to it one after another.
  suffices h : ∀ n ≤ us.length, ∃ ms, (∀ m ∈ ms, ∃ j, m = .look i j) ∧ Q (w.play env ms) ∧
      ∃ c' a' us', (w.play env ms).find? i = some (c', a') ∧ c'.stage = .working us' ∧
        us'.length = us.length ∧ ∀ j < n, ∀ u, us'[j]? = some u → P u by
    obtain ⟨ms, hms, hQ, c', a', us', hf', hs', hlen, hP⟩ := h us.length (Nat.le_refl _)
    refine ⟨ms, hms, hQ, c', a', us', hf', hs', hlen, fun u hu => ?_⟩
    obtain ⟨j, hj⟩ := List.getElem?_of_mem hu
    exact hP j (hlen ▸ (List.getElem?_eq_some_iff.1 hj).1) u hj
  intro n
  induction n with
  | zero => exact fun _ => ⟨[], nofun, hw, c, a, us, hf, hs, rfl, nofun⟩
  | succ n ih =>
      intro hn
      obtain ⟨ms, hms, hQ, c', a', us', hf', hs', hlen, hP⟩ := ih (by omega)
      have hlt : n < us'.length := by omega
      obtain ⟨ms', hms', hQ', c₂, a₂, u, hf₂, hs₂, hu⟩ :=
        hplace hQ hf' hs' (List.getElem?_eq_getElem hlt)
      rw [← play_append] at hf₂ hQ'
      refine ⟨ms ++ ms', fun m hm => ?_, hQ', c₂, a₂, _, hf₂, hs₂, by simpa using hlen, ?_⟩
      · rcases List.mem_append.1 hm with hm | hm
        · exact hms m hm
        · exact ⟨n, hms' m hm⟩
      · intro j hj t ht
        by_cases hjn : n = j
        · subst hjn
          rw [List.getElem?_set_self hlt] at ht
          cases ht
          exact hu
        · rw [List.getElem?_set_ne hjn] at ht
          exact hP j (by omega) t ht

section Calming

variable (hw : w.OnSchedule env i c₀ a₀ begun) (hsleeps : ∀ j u, w.attempt? i j = some u →
  u.stage.Sleeps) (hpolicy : 0 < a₀.policy.pollInterval.ceilMillis)

include hw hsleeps hpolicy

omit hsleeps in
/-- A look at an attempt leaves it without anything to do, unless it has just asked for
a check. -/
theorem OnSchedule.look_place {c : Call C T} {a : Activator} {us : List (Attempt T)} {j : Nat}
    {t : Attempt T} (hf : w.find? i = some (c, a)) (hs : c.stage = .working us)
    (ht : us[j]? = some t) : ∃ c' a' u, (w.look env i j).find? i = some (c', a') ∧
      c'.stage = .working (us.set j u) ∧
      (u.stage.Calm false w.now ∨ u.hasAsked ∧ t.hasAsked = false) := by
  obtain ⟨c', a', hf', -, hpol⟩ := hw.call
  rw [hf] at hf'
  cases hf'
  have hon := hw.attempts j t ((attempt?_of_working hf hs j).trans ht)
  have hrests : t.Rests (context a i c) ((w.site a).cancelled (context a i c))
      (t.look env (context a i c) (w.site a)) := by
    rw [← hpol] at hpolicy hon
    refine Attempt.look_rests hpolicy fun wait hwait => ?_
    rw [Attempt.OnTime, hwait] at hon
    rw [hon.2.1]
    exact hpolicy
  rw [look_eq_put hf hs ht]
  refine ⟨_, _, _, find?_put hf, rfl, hrests.imp (fun h => ?_) id⟩
  have hnow : (t.look env (context a i c) (w.site a)).2.now = w.now :=
    Attempt.Steps.now_eq (Attempt.look_steps ..)
  rw [hnow] at h
  exact h.mono nofun

/-- Two looks are enough. -/
theorem OnSchedule.calm_place {c : Call C T} {a : Activator} {us : List (Attempt T)} {j : Nat}
    {t : Attempt T} (hf : w.find? i = some (c, a)) (hs : c.stage = .working us)
    (ht : us[j]? = some t) : ∃ ms, (∀ m ∈ ms, m = .look i j) ∧ ∃ c' a' u,
      (w.play env ms).find? i = some (c', a') ∧ c'.stage = .working (us.set j u) ∧
      u.stage.Calm false w.now := by
  obtain ⟨c', a', u, hf', hs', hcalm | ⟨hasked, -⟩⟩ := hw.look_place hpolicy hf hs ht
  · exact ⟨[.look i j], by simp, c', a', u, hf', hs', hcalm⟩
  · have hms : w.Punctual env i [.look i j] := punctual_of_still (by simp)
    have hnow : (w.play env [.look i j]).now = w.now := now_play_of_still (by simp)
    obtain ⟨hw', -⟩ := hw.play hsleeps hms
    have hj := (List.getElem?_eq_some_iff.1 ht).1
    obtain ⟨d, b, u', hf₂, hs₂, hcalm | ⟨-, hn⟩⟩ := OnSchedule.look_place hw' hpolicy hf' hs'
      (List.getElem?_set_self hj)
    · rw [List.set_set] at hs₂
      have hcalm : u'.stage.Calm false (w.play env [.look i j]).now := hcalm
      rw [hnow] at hcalm
      exact ⟨[.look i j, .look i j], by simp, d, b, u', hf₂, hs₂, hcalm⟩
    · rw [hasked] at hn
      cases hn

/-- All attempts of a call can be looked at until none has anything to do. -/
theorem OnSchedule.calm_places {c : Call C T} {a : Activator} {us : List (Attempt T)}
    (hf : w.find? i = some (c, a)) (hs : c.stage = .working us) :
    ∃ ms, (∀ m ∈ ms, ∃ j, m = .look i j) ∧ ∃ c' a' us',
      (w.play env ms).find? i = some (c', a') ∧ c'.stage = .working us' ∧
      us'.length = us.length ∧ ∀ u ∈ us', u.stage.Calm false w.now := by
  refine (exists_looks (Q := fun v => v.OnSchedule env i c₀ a₀ begun ∧
    (∀ j u, v.attempt? i j = some u → u.stage.Sleeps) ∧ v.now = w.now) (fun hv hf hs ht => ?_)
    ⟨hw, hsleeps, rfl⟩ hf hs).imp fun ms => And.imp_right And.right
  obtain ⟨hv, hvsleeps, hnow⟩ := hv
  obtain ⟨ms, hms, c', a', u, hf', hs', hu⟩ := hv.calm_place hvsleeps hpolicy hf hs ht
  have hstill : ∀ m ∈ ms, m ≠ .drop i ∧ ∀ time, m ≠ .advance time := by
    intro m hm
    rw [hms m hm]
    exact ⟨nofun, nofun⟩
  obtain ⟨hv', hvsleeps'⟩ := hv.play hvsleeps (punctual_of_still hstill)
  have hnow' : (World.play env _ ms).now = w.now :=
    (now_play_of_still fun m hm => (hstill m hm).2).trans hnow
  exact ⟨ms, hms, ⟨hv', hvsleeps', hnow'⟩, c', a', u, hf', hs', hnow ▸ hu⟩

/-- A call can be carried on until there is nothing left to do at an instant. -/
theorem OnSchedule.rest : ∃ ms, w.Punctual env i ms ∧ (w.play env ms).now = w.now ∧
    (w.play env ms).Heeds i (.advance (w.now + 1)) := by
  obtain ⟨c, a, hf, -⟩ := hw.call
  rcases hw.ends c (find?_eq_some.1 hf).1 with ⟨us, hs, -⟩ | ⟨us, time, hs, -⟩
  · obtain ⟨ms, hms, c', a', us', hf', hs', -, hcalm⟩ := hw.calm_places hsleeps hpolicy hf hs
    have hstill : ∀ m ∈ ms ++ [.close i], m ≠ .drop i ∧ ∀ time, m ≠ .advance time := by
      intro m hm
      rcases List.mem_append.1 hm with hm | hm
      · obtain ⟨j, rfl⟩ := hms m hm
        exact ⟨nofun, nofun⟩
      · rw [List.mem_singleton.1 hm]
        exact ⟨nofun, nofun⟩
    have hnow : (w.play env (ms ++ [.close i])).now = w.now :=
      now_play_of_still fun m hm => (hstill m hm).2
    refine ⟨ms ++ [.close i], punctual_of_still hstill, hnow, heeds_advance ?_ (by omega)⟩
    rw [hnow, play_concat]
    intro c₂ a₂ us₂ hf₂ hs₂
    cases hd : us'.all Attempt.isDone with
    | true =>
        rw [World.move, close_eq_closed hf' hs' hd, find?_closed, hf'] at hf₂
        cases hf₂
        simp at hs₂
    | false =>
        have hsame : (w.play env ms).close i = w.play env ms := by
          rw [close, hf']
          simp only [hs', hd, Bool.false_eq_true, if_false]
        rw [World.move, hsame, hf'] at hf₂
        cases hf₂
        rw [hs'] at hs₂
        cases hs₂
        exact ⟨hd, hcalm⟩
  · refine ⟨[], trivial, rfl, heeds_advance ?_ (Nat.le_refl _)⟩
    intro c' a' us' hf' hs'
    obtain ⟨rfl, rfl⟩ := Prod.mk.inj (Option.some.inj (hf.symm.trans hf'))
    rw [hs] at hs'
    cases hs'

/-- Every punctual run can be brought to any time. -/
theorem OnSchedule.keeps_up (n : Nat) :
    ∃ ms, w.Punctual env i ms ∧ w.now + n ≤ (w.play env ms).now := by
  induction n generalizing w with
  | zero => exact ⟨[], trivial, Nat.le_refl _⟩
  | succ n ih =>
      obtain ⟨ms, hms, hnow, hheeds⟩ := hw.rest hsleeps hpolicy
      have hone : w.Punctual env i (ms ++ [.advance (w.now + 1)]) :=
        (along_append ..).2 ⟨hms, hheeds, trivial⟩
      obtain ⟨hw', hsleeps'⟩ := hw.play hsleeps hone
      obtain ⟨ms', hms', hle⟩ := ih hw' hsleeps'
      refine ⟨_, (along_append ..).2 ⟨hone, hms'⟩, ?_⟩
      have htime : (w.play env (ms ++ [.advance (w.now + 1)])).now = w.now + 1 := by
        rw [play_concat]
        show max (w.play env ms).now (w.now + 1) = w.now + 1
        omega
      rw [play_append]
      omega

end Calming

/-- The attempts of a call whose turn has come have not been looked at. -/
theorem fresh_of_begin {c : Call C T} {a : Activator} (hf : w.find? i = some (c, a))
    (hq : c.stage = .queued) (hh : a.queue.head? = some i) {j : Nat} {u : Attempt T}
    (hu : (w.begin i).attempt? i j = some u) : u.stage = .fresh := by
  have hf' := find?_begun w i c a i
  rw [hf] at hf'
  simp only [Option.map_some, if_true] at hf'
  rw [begin_eq_begun hf hq hh, attempt?_of_working hf' rfl, List.getElem?_map] at hu
  obtain ⟨t, -, rfl⟩ := Option.map_eq_some_iff.1 hu
  rfl

/-- As the turn of a call comes, its attempts are on time. -/
theorem onSchedule_begin (env : Collaborators C T) (hw : w.Orderly) {c : Call C T} {a : Activator}
    (hf : w.find? i = some (c, a)) (hq : c.stage = .queued) (hh : a.queue.head? = some i) :
    (w.begin i).OnSchedule env i c a w.now ∧
      ∀ j u, (w.begin i).attempt? i j = some u → u.stage.Sleeps := by
  have hserving := serving_begin env hw hf hq hh
  have hfresh : ∀ j u, (w.begin i).attempt? i j = some u → u.stage = .fresh :=
    fun j u => fresh_of_begin hf hq hh
  rw [begin_eq_begun hf hq hh] at hserving hfresh ⊢
  have hf' := find?_begun w i c a i
  rw [hf] at hf'
  simp only [Option.map_some, if_true] at hf'
  refine ⟨⟨hserving, ⟨_, _, hf', rfl, rfl⟩, Nat.le_refl _, fun j u hu => ?_, fun d hd => .inl ?_⟩,
    fun j u hu => ?_⟩
  · rw [Attempt.OnTime, hfresh j u hu]
    rfl
  · obtain rfl : _ = d := Option.some.inj ((find?_eq_some.1 hf').1.symm.trans hd)
    refine ⟨_, rfl, fun hall => ⟨fun u hu => ?_, .inl ⟨?_, rfl⟩⟩⟩
    · have hdone := List.all_eq_true.1 hall u hu
      obtain ⟨t, -, rfl⟩ := List.mem_map.1 hu
      cases hdone
    · cases hts : (distinctTargets c.targets).map Attempt.begin with
      | nil => rfl
      | cons u us =>
          rw [hts] at hall
          have hmem : u ∈ (distinctTargets c.targets).map Attempt.begin := hts ▸ .head us
          obtain ⟨t, -, rfl⟩ := List.mem_map.1 hmem
          cases List.all_eq_true.1 hall _ (.head us)
  · rw [hfresh j u hu]
    trivial

/-- When the deadline has passed, an attempt is over or registers a controller. -/
theorem OnSchedule.made_of_deadline (hw : w.OnSchedule env i c₀ a₀ begun) {j : Nat}
    {u : Attempt T} (hu : w.attempt? i j = some u)
    (hnow : begun + a₀.policy.readinessTimeout.ceilMillis < w.now) :
    u.isDone ∨ ∃ made c, made ≤ begun + a₀.policy.readinessTimeout.ceilMillis ∧
      ⟨made, some (context a₀ i c₀).scope, .registering c u.reference⟩ ∈ w.trace := by
  have hon := hw.attempts j u hu
  unfold Attempt.OnTime at hon
  cases hst : u.stage with
  | done => exact .inl (by simp [Attempt.isDone, hst])
  | fresh =>
      rw [hst] at hon
      have hon : w.now = begun := hon
      omega
  | waiting wait =>
      rw [hst] at hon
      have hle : w.now ≤ _ := hon.2.2.2.2.1
      omega
  | registering c free rest since =>
      rw [hst] at hon
      obtain ⟨-, -, made, -, hd, -, -, hm, -⟩ := hon
      exact .inr ⟨made, c, hd, hm⟩

/-- The attempt for a known target ends as it begins. -/
theorem OnSchedule.known_done (hw : w.OnSchedule env i c₀ a₀ begun) {j : Nat} {u : Attempt T}
    (hu : w.attempt? i j = some u) {h : Holding} (hknown : a₀.store.get? u.reference = some h)
    (hnow : begun < w.now ∨ u.isDone) : u.stage = .done none begun := by
  have hon := hw.attempts j u hu
  unfold Attempt.OnTime at hon
  cases hst : u.stage with
  | fresh =>
      rw [hst] at hon
      have hon : w.now = begun := hon
      simp [Attempt.isDone, hst] at hnow
      omega
  | waiting | registering =>
      rw [hst, hknown] at hon
      cases hon.1
  | done cause time =>
      rw [hst] at hon
      cases hon.2 with
      | known => rfl
      | unready hf | registered hf =>
          rw [hknown] at hf
          cases hf

/-- No attempt takes longer than the wait and its registration. -/
theorem OnSchedule.le_bound (hw : w.OnSchedule env i c₀ a₀ begun) {j : Nat} {u : Attempt T}
    (hu : w.attempt? i j = some u) {patience : Nat}
    (hpatience : env.RegistersWithin (context a₀ i c₀).scope u.target patience) :
    (∀ cause time, u.stage = .done cause time →
        time ≤ begun + a₀.policy.readinessTimeout.ceilMillis + patience) ∧
      (u.isDone = false → w.now ≤ begun + a₀.policy.readinessTimeout.ceilMillis + patience) := by
  have hon := hw.attempts j u hu
  unfold Attempt.OnTime at hon
  cases hst : u.stage with
  | fresh =>
      rw [hst] at hon
      have hon : w.now = begun := hon
      exact ⟨nofun, fun _ => by omega⟩
  | waiting wait =>
      rw [hst] at hon
      have hle : w.now ≤ _ := hon.2.2.2.2.1
      exact ⟨nofun, fun _ => by omega⟩
  | registering c free rest since =>
      rw [hst] at hon
      obtain ⟨-, hcurrent, made, -, hd, -, -, -, hleft⟩ := hon
      obtain ⟨left, hrest, hle⟩ := hleft patience hpatience
      have := hcurrent.le hrest
      exact ⟨nofun, fun _ => by omega⟩
  | done cause time =>
      rw [hst] at hon
      refine ⟨fun cause' time' h => ?_, fun h => by simp [Attempt.isDone, hst] at h⟩
      cases h
      cases hon.2 with
      | known => omega
      | unready => omega
      | registered _ _ hd _ _ _ hw =>
          have := hw patience hpatience
          omega

/-- When the time for all of its attempts is up, a call has ended. -/
theorem OnSchedule.ended_of_bound (hw : w.OnSchedule env i c₀ a₀ begun) {patience : Nat}
    (hpatience : ∀ t ∈ distinctTargets c₀.targets,
      env.RegistersWithin (context a₀ i c₀).scope t patience) :
    let bound := begun + a₀.policy.readinessTimeout.ceilMillis + patience
    (∀ d us time, w.calls[i]? = some d → d.stage = .ended us time → time ≤ bound) ∧
      (bound < w.now → ∃ d us time, w.calls[i]? = some d ∧ d.stage = .ended us time) := by
  intro bound
  obtain ⟨c, hc, -, htargets, -⟩ := hw.serving.call
  have hcovers := hw.serving.orderly.covers c (List.mem_of_getElem? hc)
  -- All attempts are for targets of the call.
  have hbound : ∀ us, (c.stage = .working us ∨ ∃ time, c.stage = .ended us time) → ∀ u ∈ us,
      (∀ cause time, u.stage = .done cause time → time ≤ bound) ∧
        (u.isDone = false → w.now ≤ bound) := by
    intro us hst u hu
    obtain ⟨j, hj⟩ := List.getElem?_of_mem hu
    have hu' : w.attempt? i j = some u := by
      rw [attempt?_eq, hc, Option.bind_some, Call.attempts]
      rcases hst with hst | ⟨time, hst⟩ <;> rw [hst] <;> exact hj
    refine hw.le_bound hu' (hpatience _ ?_)
    rw [← htargets, ← hcovers us hst]
    exact List.mem_map.2 ⟨u, hu, rfl⟩
  have hlast : ∀ us time, (c.stage = .working us ∨ ∃ time, c.stage = .ended us time) →
      LastEnd begun us time → time ≤ bound := by
    intro us time hst h
    rcases h.2 with ⟨-, rfl⟩ | ⟨u, hu, cause, hdone⟩
    · omega
    · exact (hbound us hst u hu).1 cause time hdone
  refine ⟨fun d us time hd hst => ?_, fun hnow => ?_⟩
  · obtain rfl : c = d := Option.some.inj (hc.symm.trans hd)
    rcases hw.ends c hc with ⟨us', hst', -⟩ | ⟨us', time', hst', -, h⟩
    · rw [hst] at hst'
      cases hst'
    · rw [hst] at hst'
      cases hst'
      exact hlast us time (.inr ⟨time, hst⟩) h
  · rcases hw.ends c hc with ⟨us, hst, h⟩ | ⟨us, time, hst, -⟩
    · cases hall : us.all Attempt.isDone with
      | true =>
          have := hlast us w.now (.inl hst) (h hall)
          omega
      | false =>
          obtain ⟨u, hu, hdone⟩ := List.all_eq_false.1 hall
          have := (hbound us (.inl hst) u hu).2 (Bool.eq_false_iff.2 hdone)
          omega
    · exact ⟨c, us, time, hc, hst⟩

end OnSchedule

/-- A call whose turn has come handles its targets side by side, in every run that keeps up
with the clock, whatever the collaborators and all others do. The attempt for a known target
ends at once; for any other the wait is over by the deadline, with a controller or without
one. The call ends with the last of its attempts, neither earlier nor later, hence by the
deadline and the time that the slowest registration takes. Such runs reach any time. -/
theorem targets_in_parallel {env : Collaborators C T} {policies : List (String × Policy)}
    {w : World C T} (hw : Reachable env policies w) {i : Nat} {c : Call C T} {a : Activator}
    (hf : w.find? i = some (c, a)) (hturn : w.hasTurn i) (hpolicy : a.policy.Admitted)
    {ms : List (Move C T)} (hms : (w.begin i).Punctual env i ms) :
    let v := (w.begin i).play env ms
    let x := (context a i c).scope
    let deadline := w.now + a.policy.readinessTimeout.ceilMillis
    (∀ (j : Nat) t, (distinctTargets c.targets)[j]? = some t → ∃ u, v.attempt? i j = some u ∧
      u.target = t ∧
      (∀ cause time, u.stage = .done cause time →
        EndsAt env x w.now deadline t (a.store.get? (reference t)) v.trace cause time) ∧
      (∀ h, a.store.get? (reference t) = some h → w.now < v.now ∨ u.isDone →
        u.stage = .done none w.now) ∧
      (deadline < v.now → u.isDone ∨ ∃ made name, made ≤ deadline ∧
        ⟨made, some x, .registering name (reference t)⟩ ∈ v.trace)) ∧
    (∀ d, v.calls[i]? = some d →
      (∃ us, d.stage = .working us ∧ (us.all Attempt.isDone → LastEnd w.now us v.now)) ∨
        ∃ us time, d.stage = .ended us time ∧ time ≤ v.now ∧ LastEnd w.now us time) ∧
    (∀ patience, (∀ t ∈ distinctTargets c.targets, env.RegistersWithin x t patience) →
      (∀ d us time, v.calls[i]? = some d → d.stage = .ended us time →
        time ≤ deadline + patience) ∧
      (deadline + patience < v.now →
        ∃ d us time, v.calls[i]? = some d ∧ d.stage = .ended us time)) ∧
    ∀ time, ∃ ms', v.Punctual env i ms' ∧ time ≤ (v.play env ms').now := by
  intro v x deadline
  obtain ⟨c', a', hf', hq, hh⟩ := hasTurn_iff.1 hturn
  rw [hf] at hf'
  cases hf'
  obtain ⟨hbegin, hsleeps⟩ := onSchedule_begin env hw.orderly hf hq hh
  obtain ⟨hv, hsleeps⟩ := hbegin.play hsleeps hms
  refine ⟨fun j t ht => ?_, hv.ends, fun patience => hv.ended_of_bound, fun time => ?_⟩
  · obtain ⟨d, hd, -, htargets, -⟩ := hv.serving.call
    have hcovers := hv.serving.orderly.covers d (List.mem_of_getElem? hd)
    obtain ⟨u, hu, rfl⟩ : ∃ u, v.attempt? i j = some u ∧ u.target = t := by
      have hmap : d.attempts.map Attempt.target = distinctTargets c.targets := by
        rw [← htargets, Call.attempts]
        rcases hv.ends d hd with ⟨us, hst, -⟩ | ⟨us, time, hst, -⟩ <;> rw [hst]
        · exact hcovers us (.inl hst)
        · exact hcovers us (.inr ⟨time, hst⟩)
      rw [← hmap, List.getElem?_map] at ht
      obtain ⟨u, hu, hut⟩ := Option.map_eq_some_iff.1 ht
      exact ⟨u, by rw [attempt?_eq, hd, Option.bind_some, hu], hut⟩
    refine ⟨u, hu, rfl, fun cause time hst => ?_, fun h hknown => hv.known_done hu hknown,
      hv.made_of_deadline hu⟩
    have hon := hv.attempts j u hu
    rw [Attempt.OnTime, hst] at hon
    exact hon.2
  · obtain ⟨ms', hms', hle⟩ := hv.keeps_up hsleeps (Duration.ceilMillis_pos hpolicy.1) time
    exact ⟨ms', hms', Nat.le_trans (Nat.le_add_left ..) hle⟩

/-- A known target, one whose check hangs and one whose registration is slow: the call ends
with the second of them, at the deadline and half a second at most. -/
theorem targets_in_parallel_hung :
    let target (version name : String) : ResourceReference :=
      ⟨"example.com", version, "Widget", name, some "default"⟩
    let env : Collaborators String ResourceReference :=
      { Collaborators.prompt with
        check := fun _ _ gv => ⟨false, if gv.version = "v2" then none else some 0, .ready⟩
        create := fun _ _ _ r _ => ⟨r.name, .sleep (some (if r.name = "c" then 500 else 0)) none
          (.spawn r.name .forever (.finish none))⟩ }
    let policies := [("widgets", Policy.default)]
    let w := (ofActivators policies).play env
      [.submit [.plain 0 "v1" ["a"]], .join 0, .begin 0, .look 0 0, .close 0, .advance 70,
        .submit [⟨0, "v2", [target "v1" "a", target "v2" "b", target "v1" "c"], false, none, none⟩],
        .join 1]
    ∃ c a, Reachable env policies w ∧ w.find? 1 = some (c, a) ∧ w.hasTurn 1 ∧ a.policy.Admitted ∧
      (distinctTargets c.targets).length = 3 ∧
      (∀ t ∈ distinctTargets c.targets, env.RegistersWithin (context a 1 c).scope t 500) ∧
      ∃ ms, (w.begin 1).Punctual env 1 ms ∧ ∃ d us time,
        ((w.begin 1).play env ms).calls[1]? = some d ∧ d.stage = .ended us time ∧
        LastEnd 70 us time ∧ time ≤ 70 + 10000 + 500 := by
  intro target env policies w
  have hreach : Reachable env policies w := ⟨_, rfl⟩
  have hturn : w.hasTurn 1 := by decide +kernel
  have hnow : w.now = 70 := by decide +kernel
  have hcall : (w.find? 1).any fun p => p.2.policy = Policy.default ∧
      (distinctTargets p.1.targets).length = 3 := by decide +kernel
  have htimeout : Policy.default.readinessTimeout.ceilMillis = 10000 := by decide +kernel
  clear_value w
  obtain ⟨⟨c, a⟩, hf, hkept⟩ := (Option.any_eq_true ..).1 hcall
  obtain ⟨hpolicy, hlength⟩ := of_decide_eq_true hkept
  have hadmitted : a.policy.Admitted := by
    rw [hpolicy]
    decide
  have hpatience : ∀ t ∈ distinctTargets c.targets,
      env.RegistersWithin (context a 1 c).scope t 500 := by
    intro t _ tr now
    simp only [env, Registration.EndsWithin, and_true]
    split <;> omega
  have hnil : (w.begin 1).Punctual env 1 [] := trivial
  obtain ⟨-, -, -, hreaches⟩ := targets_in_parallel hreach hf hturn hadmitted hnil
  obtain ⟨ms, hms, hlate⟩ := hreaches 10571
  obtain ⟨-, hends, hbound, -⟩ := targets_in_parallel hreach hf hturn hadmitted hms
  obtain ⟨hle, hended⟩ := hbound 500 hpatience
  rw [hpolicy, htimeout, hnow] at hle hended
  obtain ⟨d, us, time, hd, hst⟩ := hended hlate
  rcases hends d hd with ⟨us', hst', -⟩ | ⟨us', time', hst', -, hlast⟩
  · rw [hst] at hst'
    cases hst'
  · rw [hst] at hst'
    cases hst'
    rw [hnow] at hlast
    exact ⟨c, a, hreach, hf, hturn, hadmitted, hlength, hpatience, ms, hms, d, us, time, hd, hst,
      hlast, hle d us time hd hst⟩

end World

end Lifecycle
