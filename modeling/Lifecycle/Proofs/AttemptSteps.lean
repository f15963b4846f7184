import Mathlib.Logic.Relation
import Lifecycle.Attempt

/-!
# A look at an attempt is a chain of small steps

`Attempt.look` carries an attempt as far as it can go at an instant, so one
look can start a check, take its answer, make the controller, run the
registration through any number of loops and install what came of it. A proof
that followed the code through all of that would be the same proof for every
fact about attempts. `Attempt.Step` says instead what the engine does at a
time, one constructor for each thing it can do, with the guards under which it
does it; `look_steps` says that a look does nothing else.

The one step that is not a line of the code is the first of a registration:
`register` starts it without a sleep that began, while a stage always has an
instant. A registration that sleeps at once began its sleep now, so the
instant of the step is as good as none.
-/

namespace Lifecycle

variable {C T : Type}

namespace Registration

/-- One step of a registration that goes on; what it left behind is the rest,
with a site. -/
inductive Step (x : Context C) (controller : String) (r : ResourceReference) :
    Registration → Nat → Site C T → Registration → Site C T → Prop where
  | spawn {name body next since registry} {s : Site C T}
      (h : s.registry.spawn name body = .ok registry) :
      Step x controller r (.spawn name body next) since s next
        ({ s with registry }.note x (.loop (.registered name) (some r)))
  | spawnOr {name body next refused since registry} {s : Site C T}
      (h : s.registry.spawn name body = .ok registry) :
      Step x controller r (.spawnOr name body next refused) since s next
        ({ s with registry }.note x (.loop (.registered name) (some r)))
  | refused {name body next refused since fault} {s : Site C T}
      (h : s.registry.spawn name body = .error fault) :
      Step x controller r (.spawnOr name body next refused) since s refused s
  | cancel {whole next since} {s : Site C T} :
      Step x controller r (.cancel whole next) since s next
        { s with fired := s.fired.fire whole x.scope.call }
  | synced {next since} {s : Site C T} :
      Step x controller r (.synced next) since s next (s.note x (.synced controller r))
  | wake {d interrupted next since} {s : Site C T} (h : since + d ≤ s.now)
      (hc : ¬ (s.cancelled x ∧ interrupted.isSome)) :
      Step x controller r (.sleep (some d) interrupted next) since s next s

/-- How a registration ends, when its next step is to end. -/
inductive Returns (x : Context C) : Registration → Site C T → Option Fault → Prop where
  | finish {fault} {s : Site C T} : Returns x (.finish fault) s fault
  | refused {name body next fault} {s : Site C T}
      (h : s.registry.spawn name body = .error fault) :
      Returns x (.spawn name body next) s (some fault)
  | interrupted {millis fault next} {s : Site C T} (h : s.cancelled x = true) :
      Returns x (.sleep millis (some fault) next) s fault

theorem Step.store_eq {x : Context C} {c : String} {r : ResourceReference}
    {rest rest' : Registration} {since : Nat} {s s' : Site C T}
    (h : Step x c r rest since s rest' s') : s'.store = s.store := by
  cases h <;> rfl

end Registration

namespace Attempt

/-- An attempt moved on to a stage. -/
def toStage (a : Attempt T) (stage : Stage) : Attempt T := { a with stage }

@[simp] theorem toStage_stage (a : Attempt T) (st : Stage) : (a.toStage st).stage = st := rfl

theorem toStage_eq_self {a : Attempt T} {st : Stage} (h : a.stage = st) : a.toStage st = a := by
  subst h
  rfl

/-- A release frees the name, which is noted, or does nothing. -/
theorem release_cases (x : Context C) (r : ResourceReference) (c : String) (free : Bool)
    (s : Site C T) : release x r c free s = s ∨ ∃ g, s.registry.abort? c = some g ∧
      release x r c free s =
        ({ s with registry := g }.note x (.loop (.aborted c) (some r))).note x (.released r c) := by
  unfold release
  split
  · split
    · next g hg => exact .inr ⟨g, hg, rfl⟩
    · exact .inl rfl
  · exact .inl rfl

@[simp] theorem release_now (x : Context C) (r : ResourceReference) (c : String) (free : Bool)
    (s : Site C T) : (release x r c free s).now = s.now := by
  rcases release_cases x r c free s with h | ⟨g, -, h⟩ <;> rw [h]
  rfl

theorem suffix_release (x : Context C) (r : ResourceReference) (c : String) (free : Bool)
    (s : Site C T) : s.trace <:+ (release x r c free s).trace := by
  rcases release_cases x r c free s with h | ⟨g, -, h⟩
  · simp only [h, List.suffix_rfl]
  · rw [h]
    exact ⟨[_, _], rfl⟩

@[simp] theorem release_fired (x : Context C) (r : ResourceReference) (c : String) (free : Bool)
    (s : Site C T) : (release x r c free s).fired = s.fired := by
  rcases release_cases x r c free s with h | ⟨g, -, h⟩ <;> rw [h]
  rfl

@[simp] theorem release_store (x : Context C) (r : ResourceReference) (c : String) (free : Bool)
    (s : Site C T) : (release x r c free s).store = s.store := by
  rcases release_cases x r c free s with h | ⟨g, -, h⟩ <;> rw [h]
  rfl

@[simp] theorem noteFinding_now (x : Context C) (r : ResourceReference) (s : Site C T)
    (f : Option (Finding Fault)) : (noteFinding x r s f).now = s.now := by
  cases f <;> rfl

@[simp] theorem noteFinding_cancelled (x : Context C) (r : ResourceReference) (s : Site C T)
    (f : Option (Finding Fault)) : (noteFinding x r s f).cancelled x = s.cancelled x := by
  cases f <;> rfl

variable [Targeted T]

/-- One thing that the engine does about an attempt. -/
inductive Step (env : Collaborators C T) (x : Context C) :
    Attempt T × Site C T → Attempt T × Site C T → Prop where
  | draw {a s} (ticket checkTicket tickets : Nat) :
      Step env x (a, s) ({ a with ticket, checkTicket }, { s with tickets })
  | update {a s h} (hf : a.stage = .fresh) (hg : s.store.get? a.reference = some h) :
      Step env x (a, s) (a.finish none s.now,
        { s with store := s.store.activate a.reference }.note x
          (.updated a.reference h.controller x.scope.config))
  | wait {a s} (hf : a.stage = .fresh) (hg : s.store.get? a.reference = none) :
      Step env x (a, s) (a.toStage
        (.waiting (.begin x.policy.pollInterval x.policy.readinessTimeout s.now)), s)
  | ask {a s w} (hw : a.stage = .waiting w) (ht : w.turn (s.cancelled x) s.now = .ask) :
      Step env x (a, s) (a.toStage (.waiting { w with phase := .asked }), s)
  | unaskable {a s w f} (hw : a.stage = .waiting w)
      (ht : w.turn (s.cancelled x) s.now = .ask)
      (hr : env.refusal? a.reference.groupVersion = some f) :
      Step env x (a, s) (a.finish (some (.probe a.reference.gvk f)) s.now,
        s.note x (.probeFailed a.reference f))
  | probe {a s w} (hw : a.stage = .waiting w) (ht : w.turn (s.cancelled x) s.now = .ask) :
      Step env x (a, s)
        (a.toStage (.waiting { w with
            phase := .inFlight (startCheck env x a.reference s).1 s.now }),
          (startCheck env x a.reference s).2)
  | giveUp {a s w} (hw : a.stage = .waiting w) (hc : s.cancelled x = true) :
      Step env x (a, s) (a.finish (some (.cancelled a.reference.gvk)) s.now, s)
  | expire {a s w} (hw : a.stage = .waiting w) (hc : s.cancelled x = false)
      (hd : w.deadline ≤ s.now) :
      Step env x (a, s)
        (a.finish (some (.readinessTimeout a.reference.gvk x.policy.readinessTimeout)) s.now,
          s.note x (.timedOut a.reference x.policy.readinessTimeout))
  /-- A check that is answered in the turn in which it was started is not
  preceded by a look at the cancellation. -/
  | miss {a s w check since} (hw : a.stage = .waiting w)
      (hp : w.phase = .inFlight check since) (he : check.endsBy since s.now)
      (hf : check.finding = .notYet) (hd : s.now < w.deadline)
      (hc : s.cancelled x = true → since = s.now) :
      Step env x (a, s)
        (a.toStage (.waiting { w with
            phase := .resting (min (s.now + w.interval) w.deadline) }),
          s.note x (.answered a.reference.groupVersion (some a.reference) .notYet))
  | fail {a s w check since f} (hw : a.stage = .waiting w)
      (hp : w.phase = .inFlight check since) (he : check.endsBy since s.now)
      (hf : check.finding = .failed f) (hd : s.now < w.deadline)
      (hc : s.cancelled x = true → since = s.now) :
      Step env x (a, s) (a.finish (some (.probe a.reference.gvk f)) s.now,
        (s.note x (.answered a.reference.groupVersion (some a.reference) (.failed f))).note x
          (.probeFailed a.reference f))
  | create {a s w check since s' c} (hw : a.stage = .waiting w)
      (hp : w.phase = .inFlight check since) (he : check.endsBy since s.now)
      (hf : check.finding = .ready) (hd : s.now < w.deadline)
      (hc : s.cancelled x = true → since = s.now)
      (hs : s' = s.note x (.answered a.reference.groupVersion (some a.reference) .ready))
      (hk : c = env.create s'.trace s.now x.scope.capability a.target x.scope.config) :
      Step env x (a, s)
        (a.toStage
            (.registering c.name (!s.registry.isRegistered c.name) c.registration s.now),
          (s'.note x (.created c.name a.target x.scope.config)).note x
            (.registering c.name a.reference))
  | register {a s c free rest since rest' s'}
      (hr : a.stage = .registering c free rest since)
      (hs : Registration.Step x c a.reference rest since s rest' s') :
      Step env x (a, s) (a.toStage (.registering c free rest' s'.now), s')
  | install {a s c free rest since} (hr : a.stage = .registering c free rest since)
      (he : rest.Returns x s none) (hc : s.cancelled x = false) :
      Step env x (a, s) (a.finish none s.now,
        { s.note x (.returned c a.reference none false) with
          store := s.store.install a.reference c }.note x (.installed a.reference c))
  | refuse {a s c free rest since f} (hr : a.stage = .registering c free rest since)
      (he : rest.Returns x s (some f)) (hc : s.cancelled x = false) :
      Step env x (a, s) (a.finish (some (.setup c f)) s.now,
        (release x a.reference c free
          (s.note x (.returned c a.reference (some f) false))).note x
            (.setupFailed a.reference c f))
  | revoke {a s c free rest since fault} (hr : a.stage = .registering c free rest since)
      (he : rest.Returns x s fault) (hc : s.cancelled x = true) :
      Step env x (a, s) (a.finish (some (.cancelled a.reference.gvk)) s.now,
        release x a.reference c free (s.note x (.returned c a.reference fault true)))

/-- Any number of steps. -/
abbrev Steps (env : Collaborators C T) (x : Context C) :=
  Relation.ReflTransGen (Step env x)

/-- What follows the end of a registration is one step. -/
theorem settle_step {env : Collaborators C T} {x : Context C} {a : Attempt T} {c : String}
    {free : Bool} {rest : Registration} {since : Nat} {fault : Option Fault} {s : Site C T}
    (hr : a.stage = .registering c free rest since) (he : rest.Returns x s fault) :
    Step env x (a, s) (settle x a c free fault s) := by
  have hnote : ∀ b, (s.note x (.returned c a.reference fault b)).now = s.now := fun _ => rfl
  cases hc : s.cancelled x with
  | true =>
      simp only [settle, hc, or_true, if_true, release_now, hnote]
      exact .revoke hr he hc
  | false =>
      cases fault with
      | none =>
          simp only [settle, hc, Option.isSome_none, Bool.false_eq_true, or_self, if_false]
          exact .install hr he hc
      | some f =>
          simp only [settle, hc, Option.isSome_some, true_or, if_true, release_now, hnote,
            Bool.false_eq_true, if_false]
          exact .refuse hr he hc

theorem register_toStage (x : Context C) (a : Attempt T) (st : Stage) (c : String) (free : Bool)
    (rest : Registration) (since : Option Nat) (s : Site C T) :
    register x (a.toStage st) c free rest since s = register x a c free rest since s := by
  have hr : (a.toStage st).reference = a.reference := rfl
  rw [register, register, hr]
  split <;> rfl

theorem register_steps {env : Collaborators C T} {x : Context C} {c : String} {free : Bool}
    (rest : Registration) : ∀ {a : Attempt T} {since : Option Nat} {s : Site C T},
      a.stage = .registering c free rest (since.getD s.now) →
      Steps env x (a, s) (register x a c free rest since s) := by
  -- A registration that goes on is one that starts without a sleep, one step later.
  have go : ∀ {next : Registration} {a : Attempt T} {since : Option Nat} {s s' : Site C T}
      {rest : Registration},
      a.stage = .registering c free rest (since.getD s.now) →
      Registration.Step x c a.reference rest (since.getD s.now) s next s' →
      (∀ {b : Attempt T} {t : Option Nat}, b.stage = .registering c free next (t.getD s'.now) →
        Steps env x (b, s') (register x b c free next t s')) →
      Steps env x (a, s) (register x a c free next none s') := by
    intro next a since s s' rest hr hs ih
    have h := ih (b := a.toStage (.registering c free next s'.now)) (t := none) rfl
    rw [register_toStage] at h
    exact .head (.register hr hs) h
  induction rest with
  | finish fault => exact fun hr => .single (settle_step hr .finish)
  | spawn name body next ih =>
      intro a since s hr
      cases h : s.registry.spawn name body with
      | error f =>
          rw [register, Registration.run, h]
          exact .single (settle_step hr (.refused h))
      | ok registry =>
          rw [register, Registration.run, h]
          exact go hr (.spawn h) ih
  | spawnOr name body next refused ih ihr =>
      intro a since s hr
      cases h : s.registry.spawn name body with
      | error f =>
          rw [register, Registration.run, h]
          exact go hr (.refused h) ihr
      | ok registry =>
          rw [register, Registration.run, h]
          exact go hr (.spawnOr h) ih
  | cancel whole next ih => exact fun hr => go hr .cancel ih
  | synced next ih => exact fun hr => go hr .synced ih
  | sleep millis interrupted next ih =>
      intro a since s hr
      have hstay : Steps env x (a, s)
          (a.toStage (.registering c free (.sleep millis interrupted next)
              (since.getD s.now)), s) := by
        rw [toStage_eq_self hr]
      rw [register, Registration.run.eq_def]
      dsimp only
      by_cases hc : s.cancelled x ∧ interrupted.isSome
      · rw [if_pos hc]
        obtain ⟨hc, hi⟩ := hc
        obtain ⟨fault, rfl⟩ := Option.isSome_iff_exists.1 hi
        exact .single (settle_step hr (.interrupted hc))
      · rw [if_neg hc]
        cases millis with
        | none => exact hstay
        | some d =>
            by_cases hd : since.getD s.now + d ≤ s.now
            · simp only [if_pos hd]
              exact go hr (.wake hd hc) ih
            · simp only [if_neg hd]
              exact hstay

/-! ## From a wait

The code hands a wait on without putting it into the attempt first, so these
lemmas start at the attempt that holds it. -/

theorem create_steps {env : Collaborators C T} {x : Context C} {a : Attempt T} {s : Site C T}
    {w : Wait Fault} {check : Check Fault} {since : Nat}
    (hp : w.phase = .inFlight check since) (he : check.endsBy since s.now)
    (hf : check.finding = .ready) (hd : s.now < w.deadline)
    (hc : s.cancelled x = true → since = s.now) :
    Steps env x (a.toStage (.waiting w), s) (create env x a
      (s.note x (.answered a.reference.groupVersion (some a.reference) .ready))) := by
  refine .head (.create rfl hp he hf hd hc rfl rfl) ?_
  rw [create, ← register_toStage]
  exact register_steps _ rfl

theorem answer_steps {env : Collaborators C T} {x : Context C} {a : Attempt T} {s : Site C T}
    {w : Wait Fault} {check : Check Fault} {since : Nat}
    (hp : w.phase = .inFlight check since) (hd : s.now < w.deadline)
    (hc : s.cancelled x = true → since = s.now) :
    Steps env x (a.toStage (.waiting w), s)
      (afterTurn env x a
        (noteFinding x a.reference s
          (if check.endsBy since s.now then some check.finding else none))
        (w.answer check since (s.cancelled x) s.now)) := by
  rw [Wait.answer]
  by_cases he : check.endsBy since s.now
  · rw [if_pos he, if_pos he]
    cases hf : check.finding with
    | ready => exact create_steps hp he hf hd hc
    | failed f => exact .single (.fail rfl hp he hf hd hc)
    | notYet =>
        have hmiss : Step env x (a.toStage (.waiting w), s) _ := .miss rfl hp he hf hd hc
        simp only [Wait.rest, if_neg (Nat.not_le.2 hd)]
        split
        · next hcancel => exact .head hmiss (.single (.giveUp rfl hcancel))
        · exact .single hmiss
  · rw [if_neg he, if_neg he, ← hp]
    exact .refl

theorem makeCheck_steps {env : Collaborators C T} {x : Context C} {a : Attempt T} {s : Site C T}
    {w : Wait Fault} (ht : w.turn (s.cancelled x) s.now = .ask) :
    Steps env x (a.toStage (.waiting w), s) (makeCheck env x a w s) := by
  rw [makeCheck]
  dsimp only
  split
  · next f hr => exact .single (.unaskable rfl ht hr)
  · split
    · exact .single (.ask rfl ht)
    · have hd := (Wait.lt_deadline_of_turn_eq_ask ht).2
      simp only [noteFinding_now, noteFinding_cancelled]
      exact .head (.probe rfl ht) (answer_steps (a := a) (s := (startCheck env x a.reference s).2)
        (w := { w with phase := .inFlight (startCheck env x a.reference s).1 s.now })
        rfl hd fun _ => rfl)

/-- A wait without a running check rests on, runs out of time or wants a check. -/
theorem turn_cases {w : Wait Fault} {now : Nat}
    (hp : ∀ check since, w.phase ≠ .inFlight check since) :
    w.turn false now = .stay w ∨ (w.turn false now = .over .timedOut ∧ w.deadline ≤ now) ∨
      w.turn false now = .ask := by
  cases h : w.phase with
  | inFlight check since => exact absurd h (hp check since)
  | resting wake =>
      simp only [Wait.turn, h, Bool.false_eq_true, if_false]
      split
      · exact .inl rfl
      · split
        · next hd => exact .inr (.inl ⟨rfl, hd⟩)
        · exact .inr (.inr rfl)
  | due | asked =>
      simp only [Wait.turn, h, Bool.false_eq_true, if_false]
      split
      · next hd => exact .inr (.inl ⟨rfl, hd⟩)
      · exact .inr (.inr rfl)

theorem answer_ne_ask {w : Wait Fault} {check : Check Fault} {since now : Nat} {c : Bool} :
    w.answer check since c now ≠ .ask := by
  unfold Wait.answer Wait.rest
  repeat' split
  all_goals simp

/-- A wait that wants a check has none running. -/
theorem phase_of_turn_eq_ask {w : Wait Fault} {c : Bool} {now : Nat} (h : w.turn c now = .ask)
    (check : Check Fault) (since : Nat) : w.phase ≠ .inFlight check since := by
  intro hp
  simp only [Wait.turn, hp] at h
  split at h
  · cases h
  · split at h
    · cases h
    · exact answer_ne_ask h

theorem awaitSchema_steps {env : Collaborators C T} {x : Context C} {a : Attempt T}
    {s : Site C T} {w : Wait Fault} :
    Steps env x (a.toStage (.waiting w), s) (awaitSchema env x a w s) := by
  rw [awaitSchema]
  cases hc : s.cancelled x with
  | true =>
      have hnone : w.findingAt? true s.now = none := by
        unfold Wait.findingAt?
        split <;> simp
      rw [Wait.turn_of_cancelled, hnone]
      exact .single (.giveUp rfl hc)
  | false =>
      by_cases hp : ∃ check since, w.phase = .inFlight check since
      · obtain ⟨check, since, hp⟩ := hp
        by_cases hd : w.deadline ≤ s.now
        · simp only [Wait.turn, Wait.findingAt?, hp, Bool.false_eq_true, if_false, if_pos hd,
            Nat.not_lt.2 hd, false_and, and_false]
          exact .single (.expire rfl hc hd)
        · have hlt := Nat.lt_of_not_le hd
          have h : Steps env x (a.toStage (.waiting w), s) _ := answer_steps (a := a) hp hlt
            (by rw [hc]; exact fun h => absurd h Bool.false_ne_true)
          have hturn : w.turn false s.now = w.answer check since false s.now := by
            simp only [Wait.turn, hp, Bool.false_eq_true, if_false, if_neg hd]
          have hfound : w.findingAt? false s.now =
              if check.endsBy since s.now then some check.finding else none := by
            simp [Wait.findingAt?, hp, hlt]
          rw [hc] at h
          rw [hturn, hfound]
          cases ho : w.answer check since false s.now with
          | ask => exact absurd ho answer_ne_ask
          | _ => rwa [ho] at h
      · have hp : ∀ check since, w.phase ≠ .inFlight check since :=
          fun check since h => hp ⟨check, since, h⟩
        have hnone : w.findingAt? false s.now = none := by
          unfold Wait.findingAt?
          split
          · next check since h => exact absurd h (hp check since)
          · rfl
        rcases turn_cases hp with h | ⟨h, hd⟩ | h
        · rw [h, hnone]
          exact .refl
        · rw [h, hnone]
          exact .single (.expire rfl hc hd)
        · rw [h]
          exact makeCheck_steps (by rw [hc, h])

theorem poll_steps (env : Collaborators C T) (x : Context C) (a : Attempt T) (s : Site C T) :
    Steps env x (a, s) (poll env x a s) := by
  rw [poll]
  cases hs : a.stage with
  | done cause time => exact .refl
  | registering c free rest since => exact register_steps rest hs
  | waiting w =>
      have h : Steps env x (a.toStage (.waiting w), s) _ := awaitSchema_steps (a := a)
      rwa [toStage_eq_self hs] at h
  | fresh =>
      dsimp only
      split
      · next h hg => exact .single (.update hs hg)
      · next hg => exact .head (.wait hs hg) awaitSchema_steps

/-- A look does what the steps do, and nothing else. -/
theorem look_steps (env : Collaborators C T) (x : Context C) (a : Attempt T) (s : Site C T) :
    Steps env x (a, s) (look env x a s) := by
  rw [look]
  dsimp only
  split
  · exact poll_steps env x a s
  · exact (poll_steps env x a s).tail (.draw _ _ _)

/-! ## What no step changes, and what few steps change -/

theorem Step.target_eq {env : Collaborators C T} {x : Context C} {p q : Attempt T × Site C T}
    (h : Step env x p q) : q.1.target = p.1.target := by
  cases h <;> rfl

theorem Steps.target_eq {env : Collaborators C T} {x : Context C}
    {p q : Attempt T × Site C T} (h : Steps env x p q) : q.1.target = p.1.target := by
  induction h with
  | refl => rfl
  | tail _ hs ih => rw [hs.target_eq, ih]

theorem Step.now_eq {env : Collaborators C T} {x : Context C} {p q : Attempt T × Site C T}
    (h : Step env x p q) : q.2.now = p.2.now := by
  cases h with
  | register _ hs => cases hs <;> rfl
  | create _ _ _ _ _ _ hs => rw [hs]; rfl
  | refuse => exact release_now ..
  | revoke => exact release_now ..
  | _ => rfl

/-- The store changes by an update and at the end of a registration that
succeeds, under the attempt's own reference. -/
theorem Step.store_cases {env : Collaborators C T} {x : Context C} {p q : Attempt T × Site C T}
    (h : Step env x p q) :
    q.2.store = p.2.store ∨ q.2.store = p.2.store.activate p.1.reference ∨
      ∃ c, q.2.store = p.2.store.install p.1.reference c := by
  cases h with
  | update => exact .inr (.inl rfl)
  | register _ hs => exact .inl hs.store_eq
  | create _ _ _ _ _ _ hs =>
      subst hs
      exact .inl rfl
  | install => exact .inr (.inr ⟨_, rfl⟩)
  | refuse => exact .inl (release_store ..)
  | revoke => exact .inl (release_store ..)
  | _ => exact .inl rfl

/-- The trace only grows. -/
theorem Step.trace_suffix {env : Collaborators C T} {x : Context C}
    {p q : Attempt T × Site C T} (h : Step env x p q) : p.2.trace <:+ q.2.trace := by
  have hnote : ∀ (s : Site C T) (h : Happening C T), s.trace <:+ (s.note x h).trace :=
    fun _ _ => List.suffix_cons ..
  cases h with
  | draw | wait | ask | giveUp => exact List.suffix_rfl
  | update | unaskable | probe | expire | miss => exact ⟨[_], rfl⟩
  | fail => exact ⟨[_, _], rfl⟩
  | create _ _ _ _ _ _ hs =>
      subst hs
      exact ⟨[_, _, _], rfl⟩
  | register _ hs =>
      cases hs with
      | refused | cancel | wake => exact List.suffix_rfl
      | spawn | spawnOr | synced => exact ⟨[_], rfl⟩
  | install => exact ⟨[_, _], rfl⟩
  | refuse => exact ((hnote ..).trans (suffix_release ..)).trans (hnote ..)
  | revoke => exact (hnote ..).trans (suffix_release ..)

theorem Steps.now_eq {env : Collaborators C T} {x : Context C} {p q : Attempt T × Site C T}
    (h : Steps env x p q) : q.2.now = p.2.now := by
  induction h with
  | refl => rfl
  | tail _ hs ih => rw [hs.now_eq, ih]

end Attempt

end Lifecycle
