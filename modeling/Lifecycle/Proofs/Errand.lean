import Lifecycle.Proofs.InUse
import Lifecycle.Proofs.Protocol

/-!
# An attempt with which nothing goes wrong

An `Errand` says which attempt it is and when it starts, and `Collaborators.Welcomes`
what the collaborators do for it: its schema is served in time, and its registration
goes well of itself. `Attempt.Fares` has one line for each stage of the attempt, and
every step keeps it (`Attempt.Step.fares`), if the call is not cancelled and the name of
the controller is free when the controller is made. The last line says that the attempt
has ended without a cause, with a controller that is active and has its loop.

While the attempt waits, the checks still to come lead to the answer in time
(`Wait.Timely`). That is not kept by the clock, which may pass by an instant at which a
check is due; it is kept as long as the clock stops there (`Attempt.Fares.advance`).
While the attempt registers, what is left of its registration succeeds from where the
registry stands.
-/

namespace Lifecycle

variable {C T : Type}

/-! ## What is expected of the collaborators -/

/-- Whether a registration ends well of itself and has started the loop of its name by
then, if nobody else takes the name; it may be held already. -/
def Registration.succeeds : Registration → Bool → Bool
  | finish fault, held => fault.isNone && held
  | spawn _ _ next, held => !held && next.succeeds true
  | spawnOr _ _ next refused, held => if held then refused.succeeds true else next.succeeds true
  | cancel .., _ => false
  | sleep millis _ next, held => millis.isSome && next.succeeds held
  | synced next, held => next.succeeds held

section Registration

variable {x : Context C} {c : String} {r : ResourceReference} {rest rest' : Registration}
  {since : Nat} {s s' : Site C T}

theorem Registry.exists_of_spawn {g : Registry} {name : String} {body : LoopBody} {f : Fault}
    (h : g.spawn name body = .error f) : g.closed ∨ g.isRegistered name := by
  by_contra hn
  rw [not_or] at hn
  have hok : ∃ g', g.spawn name body = .ok g' := spawn_isOk_iff.2 hn
  obtain ⟨g', hg⟩ := hok
  rw [h] at hg
  cases hg

theorem Registration.Step.succeeds (h : Step x c r rest since s rest' s')
    (ho : rest.spawnsOnly c) (hs : rest.succeeds (s.registry.isRegistered c))
    (hopen : s.registry.closed = false) :
    rest'.spawnsOnly c ∧ rest'.succeeds (s'.registry.isRegistered c) := by
  have htaken : ∀ {g : Registry} {body}, s.registry.spawn c body = .ok g →
      s.registry.isRegistered c = false ∧ g.isRegistered c = true := by
    intro g body h
    exact ⟨(Registry.spawn_eq_ok h).1, (Registry.isRegistered_of_spawn h c).2 (.inl rfl)⟩
  cases h with
  | spawn h =>
      simp only [Registration.spawnsOnly, Bool.and_eq_true, decide_eq_true_eq] at ho
      obtain ⟨rfl, ho⟩ := ho
      obtain ⟨hfree, htaken⟩ := htaken h
      rw [hfree] at hs
      refine ⟨ho, ?_⟩
      dsimp only [Site.note]
      rw [htaken]
      exact hs
  | spawnOr h =>
      simp only [Registration.spawnsOnly, Bool.and_eq_true, decide_eq_true_eq] at ho
      obtain ⟨⟨rfl, ho⟩, -⟩ := ho
      obtain ⟨hfree, htaken⟩ := htaken h
      rw [hfree] at hs
      refine ⟨ho, ?_⟩
      dsimp only [Site.note]
      rw [htaken]
      exact hs
  | refused h =>
      simp only [Registration.spawnsOnly, Bool.and_eq_true, decide_eq_true_eq] at ho
      obtain ⟨⟨rfl, -⟩, ho⟩ := ho
      have hheld := (Registry.exists_of_spawn h).resolve_left (by simp [hopen])
      rw [hheld] at hs ⊢
      exact ⟨ho, hs⟩
  | cancel => cases hs
  | synced => exact ⟨ho, hs⟩
  | wake => exact ⟨ho, hs⟩

/-- If nobody interferes, such a registration does not end badly. -/
theorem Registration.Returns.succeeds {fault : Option Fault} (h : rest.Returns x s fault)
    (ho : rest.spawnsOnly c) (hs : rest.succeeds (s.registry.isRegistered c))
    (hopen : s.registry.closed = false) (hc : s.cancelled x = false) :
    fault = none ∧ s.registry.isRegistered c := by
  cases h with
  | finish =>
      rw [Registration.succeeds, Bool.and_eq_true] at hs
      exact ⟨Option.isNone_iff_eq_none.1 hs.1, hs.2⟩
  | refused h =>
      simp only [Registration.spawnsOnly, Bool.and_eq_true, decide_eq_true_eq] at ho
      obtain ⟨rfl, -⟩ := ho
      have hheld := (Registry.exists_of_spawn h).resolve_left (by simp [hopen])
      rw [Registration.succeeds, hheld] at hs
      cases hs
  | interrupted h =>
      rw [hc] at h
      cases h

end Registration

/-- Checks of a group and version, the first one started at an instant and each next one
an interval after the last has ended, lead to the answer that the schema is served before
a deadline, after so many that it is not yet. They are made after some history. -/
inductive Collaborators.ReadyInTime (env : Collaborators C T) (before : Trace C T)
    (gv : GroupVersion) (interval deadline : Nat) : Nat → Nat → Prop where
  | ready {now d} (hcheck : ∀ tr, before <:+ tr → env.check tr now gv = ⟨false, some d, .ready⟩)
      (hd : now + d < deadline) : ReadyInTime env before gv interval deadline 0 now
  | notYet {now d misses}
      (hcheck : ∀ tr, before <:+ tr → env.check tr now gv = ⟨false, some d, .notYet⟩)
      (h : ReadyInTime env before gv interval deadline misses (now + d + interval)) :
      ReadyInTime env before gv interval deadline (misses + 1) now

theorem Collaborators.ReadyInTime.lt_deadline {env : Collaborators C T} {before : Trace C T}
    {gv : GroupVersion} {interval deadline misses now : Nat}
    (h : env.ReadyInTime before gv interval deadline misses now) : now < deadline := by
  induction h with
  | ready _ hd => omega
  | notYet _ _ ih => omega

/-- What a check is that is started then. -/
theorem Collaborators.ReadyInTime.check {env : Collaborators C T} {before tr : Trace C T}
    {gv : GroupVersion} {interval deadline misses now : Nat}
    (h : env.ReadyInTime before gv interval deadline misses now) (htr : before <:+ tr) :
    ∃ d, (env.check tr now gv).duration = some d ∧ now + d < deadline ∧
      ((env.check tr now gv).finding = .ready ∧ misses = 0 ∨
        (env.check tr now gv).finding = .notYet ∧ ∃ rest, misses = rest + 1 ∧
          env.ReadyInTime before gv interval deadline rest (now + d + interval)) := by
  cases h with
  | @ready _ d hcheck hd =>
      rw [hcheck tr htr]
      exact ⟨d, rfl, hd, .inl ⟨rfl, rfl⟩⟩
  | @notYet _ d rest hcheck h =>
      have hlt := h.lt_deadline
      rw [hcheck tr htr]
      exact ⟨d, rfl, by omega, .inr ⟨rfl, rest, rfl, h⟩⟩

/-- An attempt that a call is about to begin. -/
structure Errand (C T : Type) where
  call : Nat
  place : Nat
  activator : Nat
  capability : String
  policy : Policy
  config : C
  target : T
  start : Nat
  /-- Everything that happened before. -/
  before : Trace C T

variable [Targeted T]

namespace Errand

def reference (e : Errand C T) : ResourceReference := Targeted.reference e.target

/-- The instant by which the schema has to be served. -/
def deadline (e : Errand C T) : Nat := e.start + e.policy.readinessTimeout.ceilMillis

/-- Whether a check that is started at an instant leads to the answer in time, after so
many that do not. -/
def Ready (env : Collaborators C T) (e : Errand C T) : Nat → Nat → Prop :=
  env.ReadyInTime e.before e.reference.groupVersion e.policy.pollInterval.ceilMillis e.deadline

/-- The acts about the reference when the call has added to them. -/
def acts (e : Errand C T) (word : List Act) : List (Nat × Act) :=
  Trace.acts e.before e.activator e.reference ++ word.map fun a => (e.call, a)

variable {env : Collaborators C T} {e : Errand C T} {misses now : Nat}

theorem Ready.lt_deadline (h : e.Ready env misses now) : now < e.deadline :=
  Collaborators.ReadyInTime.lt_deadline h

theorem Ready.check (h : e.Ready env misses now) {tr : Trace C T} (htr : e.before <:+ tr) :
    ∃ d, (env.check tr now e.reference.groupVersion).duration = some d ∧ now + d < e.deadline ∧
      ((env.check tr now e.reference.groupVersion).finding = .ready ∧ misses = 0 ∨
        (env.check tr now e.reference.groupVersion).finding = .notYet ∧ ∃ rest,
          misses = rest + 1 ∧ e.Ready env rest (now + d + e.policy.pollInterval.ceilMillis)) :=
  Collaborators.ReadyInTime.check h htr

theorem acts_snoc (e : Errand C T) (word : List Act) (a : Act) :
    e.acts (word ++ [a]) = e.acts word ++ [(e.call, a)] := by
  rw [acts, List.map_append, ← List.append_assoc, List.map_singleton, ← acts]

theorem mem_acts {word : List Act} {a : Act} (h : a ∈ word) : (e.call, a) ∈ e.acts word :=
  List.mem_append_right _ (List.mem_map_of_mem h)

end Errand

/-- The collaborators do what an attempt needs of them, after so many checks that are
answered with "not yet". -/
structure Collaborators.Welcomes (env : Collaborators C T) (e : Errand C T) (misses : Nat) :
    Prop where
  refusal : env.refusal? e.reference.groupVersion = none
  ready : e.Ready env misses e.start
  registers : ∀ tr now, e.before <:+ tr →
    (env.create tr now e.capability e.target e.config).registration.succeeds false

/-! ## One attempt -/

omit [Targeted T] in
/-- A wait does not miss the checks that lead to its end, so many of which are still to
be answered with "not yet". -/
def Wait.Timely (ready : Nat → Nat → Prop) (left now : Nat) (w : Wait Fault) : Prop :=
  match w.phase with
  | .due | .asked => ready left now
  | .inFlight check since => ∃ d, check.duration = some d ∧ now ≤ since + d ∧
      since + d < w.deadline ∧ (check.finding = .ready ∧ left = 0 ∨
        check.finding = .notYet ∧ ∃ rest, left = rest + 1 ∧ ready rest (since + d + w.interval))
  | .resting wake => now ≤ wake ∧ ready left wake

theorem Wait.Timely.lt_deadline {ready : Nat → Nat → Prop} {left now : Nat} {w : Wait Fault}
    (h : w.Timely ready left now) (hready : ∀ l n, ready l n → n < w.deadline) :
    now < w.deadline := by
  unfold Timely at h
  split at h
  · exact hready _ _ h
  · exact hready _ _ h
  · obtain ⟨d, -, hle, hlt, -⟩ := h
    omega
  · have := hready _ _ h.2
    omega

/-- A wait that wants a check wants it when the check leads to its end. -/
theorem Wait.Timely.of_ask {ready : Nat → Nat → Prop} {left now : Nat} {w : Wait Fault}
    {cancelled : Bool} (h : w.Timely ready left now) (ht : w.turn cancelled now = .ask) :
    ready left now := by
  unfold Timely at h
  split at h
  · exact h
  · exact h
  · next check since hp => exact absurd hp (Attempt.phase_of_turn_eq_ask ht check since)
  · next wake hp =>
      obtain ⟨hle, hwake⟩ := h
      have hnow : now = wake := by
        unfold turn at ht
        rw [hp] at ht
        dsimp only at ht
        split at ht
        · cases ht
        · split at ht
          · cases ht
          · omega
      rwa [hnow]

/-- After such an answer the wait rests until the next check. -/
theorem Wait.Timely.miss {ready : Nat → Nat → Prop} {left now since : Nat} {w : Wait Fault}
    {check : Check Fault} (h : w.Timely ready left now)
    (hready : ∀ l n, ready l n → n < w.deadline) (hp : w.phase = .inFlight check since)
    (he : check.endsBy since now) (hf : check.finding = .notYet) :
    ∃ rest, left = rest + 1 ∧
      ({ w with phase := .resting (min (now + w.interval) w.deadline) } : Wait Fault).Timely
        ready rest now := by
  simp only [Timely, hp, hf, reduceCtorEq, true_and, false_and, false_or] at h
  obtain ⟨d, hdur, hle, -, rest, rfl, hnext⟩ := h
  have hsince : now = since + d := by
    rw [Check.endsBy, hdur, Option.any_some, decide_eq_true_eq] at he
    omega
  have hwake := hready _ _ hnext
  rw [← hsince] at hwake hnext
  refine ⟨rest, rfl, ?_⟩
  unfold Timely
  dsimp only
  rw [Nat.min_eq_left (Nat.le_of_lt hwake)]
  exact ⟨Nat.le_add_right .., hnext⟩

/-- The acts of checks that are answered with "not yet". -/
def missed (gv : GroupVersion) (n : Nat) : List Act :=
  (List.replicate n [.probed gv, .answered gv .notYet]).flatten

theorem missed_succ (gv : GroupVersion) (n : Nat) :
    missed gv (n + 1) = missed gv n ++ [.probed gv] ++ [.answered gv .notYet] := by
  rw [missed, List.replicate_succ', List.flatten_append, ← missed, List.append_assoc]
  rfl

/-- The acts of an attempt that brings a controller into being. -/
def made (gv : GroupVersion) (misses : Nat) (c : String) : List Act :=
  missed gv misses ++ admitted gv c ++ [.returned c none false]

/-- The acts of a wait so far, with so many checks behind it. -/
def Wait.sofar (gv : GroupVersion) (past : Nat) (w : Wait Fault) : List Act :=
  match w.phase with
  | .inFlight .. => missed gv past ++ [.probed gv]
  | _ => missed gv past

theorem Wait.sofar_of_ask {gv : GroupVersion} {past now : Nat} {w : Wait Fault} {cancelled : Bool}
    (h : w.turn cancelled now = .ask) : w.sofar gv past = missed gv past := by
  unfold sofar
  split
  · next check since hp => exact absurd hp (Attempt.phase_of_turn_eq_ask h check since)
  · rfl

/-- How an attempt fares with which nothing goes wrong. -/
def Attempt.Fares (env : Collaborators C T) (e : Errand C T) (misses now : Nat) (g : Registry)
    (h? : Option Holding) (acts : List (Nat × Act)) (a : Attempt T) : Prop :=
  match a.stage with
  | .fresh => h? = none ∧ acts = e.acts [] ∧ now = e.start
  | .waiting w => h? = none ∧ w.interval = e.policy.pollInterval.ceilMillis ∧
      w.deadline = e.deadline ∧ ∃ past left, past + left = misses ∧
        acts = e.acts (w.sofar e.reference.groupVersion past) ∧ w.Timely (e.Ready env) left now
  | .registering c _ rest _ => h? = none ∧
      acts = e.acts (missed e.reference.groupVersion misses ++ admitted e.reference.groupVersion c) ∧
      rest.spawnsOnly c = true ∧ rest.succeeds (g.isRegistered c) = true
  | .done cause _ => cause = none ∧ ∃ c, h? = some ⟨e.reference, c, true⟩ ∧
      acts = e.acts (made e.reference.groupVersion misses c) ∧ g.isRegistered c = true

section Fares

variable {env : Collaborators C T} {e : Errand C T} {misses now : Nat} {g g' : Registry}
  {h? : Option Holding} {acts : List (Nat × Act)} {a : Attempt T}

/-- Other names do not matter. -/
theorem Attempt.Fares.of_names (h : a.Fares env e misses now g h? acts)
    (hg : ∀ n, (e.call, .created n) ∈ acts → (g'.isRegistered n ↔ g.isRegistered n)) :
    a.Fares env e misses now g' h? acts := by
  unfold Fares at h ⊢
  split
  · next hst =>
      rw [hst] at h
      exact h
  · next w hst =>
      rw [hst] at h
      exact h
  · next c free rest since hst =>
      rw [hst] at h
      obtain ⟨hn, hacts, ho, hs⟩ := h
      have hc : (e.call, .created c) ∈ acts := by
        rw [hacts]
        exact Errand.mem_acts (by simp [admitted])
      rw [← Bool.eq_iff_iff.2 (hg c hc)] at hs
      exact ⟨hn, hacts, ho, hs⟩
  · next cause time hst =>
      rw [hst] at h
      obtain ⟨hcause, c, hh, hacts, hreg⟩ := h
      have hc : (e.call, .created c) ∈ acts := by
        rw [hacts]
        exact Errand.mem_acts (by simp [made, admitted])
      exact ⟨hcause, c, hh, hacts, (hg c hc).2 hreg⟩

/-- Time may pass until the attempt can go on. -/
theorem Attempt.Fares.advance (h : a.Fares env e misses now g h? acts)
    {time : Nat} (hdue : ∀ s, now ≤ s → s < time → a.dueTicket? s = none) :
    a.Fares env e misses (max now time) g h? acts := by
  -- If it can go on at an instant, the time does not pass by it.
  have hle : ∀ s, now ≤ s → (a.dueTicket? s).isSome → max now time ≤ s := by
    intro s hs hd
    by_contra hlt
    rw [hdue s hs (by omega)] at hd
    cases hd
  have hsame : (a.dueTicket? now).isSome → max now time = now :=
    fun hd => Nat.le_antisymm (hle now (Nat.le_refl _) hd) (Nat.le_max_left ..)
  unfold Fares at h ⊢
  split
  · next hst =>
      rw [hst] at h
      rw [hsame (by simp [dueTicket?, hst])]
      exact h
  · next w hst =>
      rw [hst] at h
      obtain ⟨hn, hinterval, hdeadline, past, left, hsum, hacts, ht⟩ := h
      refine ⟨hn, hinterval, hdeadline, past, left, hsum, hacts, ?_⟩
      unfold Wait.Timely at ht ⊢
      cases hp : w.phase with
      | due | asked =>
          rw [hp] at ht
          rw [hsame (by simp [dueTicket?, hst, hp])]
          exact ht
      | inFlight check since =>
          rw [hp] at ht
          obtain ⟨d, hd, hnow, hrest⟩ := ht
          refine ⟨d, hd, hle _ hnow ?_, hrest⟩
          simp only [dueTicket?, hst, hp, Check.endsBy, hd]
          split
          · rfl
          · simp
      | resting wake =>
          rw [hp] at ht
          exact ⟨hle _ ht.1 (by simp [dueTicket?, hst, hp]), ht.2⟩
  · next hst =>
      rw [hst] at h
      exact h
  · next hst =>
      rw [hst] at h
      exact h

variable {x : Context C} {b : Attempt T} {s s' : Site C T}

/-- What holds of an attempt, its context and its site at every step of an errand. -/
structure Errand.Fits (e : Errand C T) (x : Context C) (a : Attempt T) (s : Site C T) :
    Prop where
  target : a.target = e.target
  activator : x.scope.activator = e.activator
  call : x.scope.call = e.call
  capability : x.scope.capability = e.capability
  config : x.scope.config = e.config
  policy : x.policy = e.policy
  before : e.before <:+ s.trace
  uncancelled : s.cancelled x = false
  isOpen : s.registry.closed = false

theorem Errand.Fits.reference (h : e.Fits x a s) : a.reference = e.reference :=
  congrArg Targeted.reference h.target

/-- What an act adds to the word. -/
theorem Errand.Fits.acts_note (h : e.Fits x a s) {s₁ : Site C T} {what : Happening C T}
    {u : List Act} {act : Act} (hact : what.act? = some (a.reference, act))
    (hu : Trace.acts s₁.trace e.activator e.reference = e.acts u) :
    Trace.acts (s₁.note x what).trace e.activator e.reference = e.acts (u ++ [act]) := by
  rw [acts_note_self h.activator (h.reference ▸ hact), hu, acts_snoc, h.call]

/-- The acts with which a registration begins. -/
theorem Errand.Fits.acts_admit (h : e.Fits x a s) {u : List Act}
    (hu : Trace.acts s.trace e.activator e.reference =
      e.acts (u ++ [.probed e.reference.groupVersion])) (c : String) :
    Trace.acts (((s.note x (.answered a.reference.groupVersion (some a.reference) .ready)).note x
      (.created c a.target x.scope.config)).note x (.registering c a.reference)).trace
        e.activator e.reference = e.acts (u ++ admitted e.reference.groupVersion c) := by
  refine (h.acts_note rfl (h.acts_note rfl (h.acts_note rfl hu))).trans ?_
  simp [admitted, h.reference]

/-- How an attempt fares at its site. -/
def Attempt.FaresAt (env : Collaborators C T) (e : Errand C T) (misses : Nat) (s : Site C T)
    (a : Attempt T) : Prop :=
  a.Fares env e misses s.now s.registry (s.store.get? e.reference)
    (Trace.acts s.trace e.activator e.reference)

namespace Attempt.FaresAt

variable {w : Wait Fault} {check : Check Fault} {c : String} {free : Bool} {rest : Registration}
  {since : Nat}

/-! ### Waiting -/

theorem wait (henv : env.Welcomes e misses) (he : e.Fits x a s) (ha : a.FaresAt env e misses s)
    (hst : a.stage = .fresh) :
    (a.toStage (.waiting (.begin x.policy.pollInterval x.policy.readinessTimeout s.now))).FaresAt
      env e misses s := by
  simp only [FaresAt, Attempt.Fares, hst] at ha
  obtain ⟨hn, hacts, hnow⟩ := ha
  refine ⟨hn, ?_, ?_, 0, misses, Nat.zero_add _, hacts, ?_⟩
  · show x.policy.pollInterval.ceilMillis = _
    rw [he.policy]
  · show s.now + x.policy.readinessTimeout.ceilMillis = _
    rw [he.policy, hnow]
    rfl
  · rw [hnow]
    exact henv.ready

theorem ask (ha : a.FaresAt env e misses s) (hw : a.stage = .waiting w)
    (ht : w.turn (s.cancelled x) s.now = .ask) :
    (a.toStage (.waiting { w with phase := .asked })).FaresAt env e misses s := by
  simp only [FaresAt, Attempt.Fares, hw, Wait.sofar_of_ask ht] at ha
  obtain ⟨hn, hinterval, hdeadline, past, left, hsum, hacts, htimely⟩ := ha
  exact ⟨hn, hinterval, hdeadline, past, left, hsum, hacts, htimely.of_ask ht⟩

theorem probe (he : e.Fits x a s) (ha : a.FaresAt env e misses s) (hw : a.stage = .waiting w)
    (ht : w.turn (s.cancelled x) s.now = .ask) :
    (a.toStage (.waiting { w with
      phase := .inFlight (startCheck env x a.reference s).1 s.now })).FaresAt env e misses
        (startCheck env x a.reference s).2 := by
  simp only [FaresAt, Attempt.Fares, hw, Wait.sofar_of_ask ht] at ha
  obtain ⟨hn, hinterval, hdeadline, past, left, hsum, hacts, htimely⟩ := ha
  obtain ⟨d, hdur, hcheck⟩ := (htimely.of_ask ht).check he.before
  rw [← hdeadline, ← hinterval] at hcheck
  refine ⟨hn, hinterval, hdeadline, past, left, hsum, ?_, ?_⟩
  · refine (he.acts_note rfl hacts).trans ?_
    rw [he.reference]
    rfl
  · unfold Wait.Timely
    dsimp only [startCheck]
    rw [he.reference]
    exact ⟨d, hdur, Nat.le_add_right .., hcheck⟩

theorem miss (he : e.Fits x a s) (ha : a.FaresAt env e misses s) (hw : a.stage = .waiting w)
    (hp : w.phase = .inFlight check since) (hend : check.endsBy since s.now)
    (hf : check.finding = .notYet) :
    (a.toStage (.waiting { w with
      phase := .resting (min (s.now + w.interval) w.deadline) })).FaresAt env e misses
        (s.note x (.answered a.reference.groupVersion (some a.reference) .notYet)) := by
  simp only [FaresAt, Attempt.Fares, hw, Wait.sofar, hp] at ha
  obtain ⟨hn, hinterval, hdeadline, past, _, hsum, hacts, htimely⟩ := ha
  obtain ⟨left, rfl, hnext⟩ := htimely.miss
    (fun l n hn => by rw [hdeadline]; exact hn.lt_deadline) hp hend hf
  refine ⟨hn, hinterval, hdeadline, past + 1, left, by omega, ?_, hnext⟩
  refine (he.acts_note rfl hacts).trans ?_
  dsimp only [Wait.sofar, toStage]
  rw [he.reference, missed_succ]

theorem lt_deadline (ha : a.FaresAt env e misses s) (hw : a.stage = .waiting w) :
    s.now < w.deadline := by
  simp only [FaresAt, Attempt.Fares, hw] at ha
  obtain ⟨-, -, hdeadline, _, _, -, -, htimely⟩ := ha
  exact htimely.lt_deadline fun l n hn => by rw [hdeadline]; exact hn.lt_deadline

theorem finding_ne_failed (ha : a.FaresAt env e misses s) (hw : a.stage = .waiting w)
    (hp : w.phase = .inFlight check since) (f : Fault) : check.finding ≠ .failed f := by
  intro hf
  simp only [FaresAt, Attempt.Fares, hw, Wait.Timely, hp, hf, reduceCtorEq, false_and, or_self,
    and_false, exists_false] at ha

/-! ### Registering -/

/-- The controller that is made when the last check was answered. -/
theorem create (henv : env.Welcomes e misses) (hd : env.KeepsNames) (he : e.Fits x a s)
    (ha : a.FaresAt env e misses s) (hw : a.stage = .waiting w)
    (hp : w.phase = .inFlight check since) (hf : check.finding = .ready)
    (hs : s' = s.note x (.answered a.reference.groupVersion (some a.reference) .ready))
    {made : Controller}
    (hc : made = env.create s'.trace s.now x.scope.capability a.target x.scope.config)
    (hfree : (e.call, .created made.name) ∈ Trace.acts
        ((s'.note x (.created made.name a.target x.scope.config)).note x
          (.registering made.name a.reference)).trace e.activator e.reference →
      s.store.get? e.reference = none → a.name? = none →
      s.registry.isRegistered made.name = false) :
    (a.toStage (.registering made.name free made.registration s.now)).FaresAt env e misses
      ((s'.note x (.created made.name a.target x.scope.config)).note x
        (.registering made.name a.reference)) := by
  subst hs
  simp only [FaresAt, Attempt.Fares, hw, Wait.Timely, Wait.sofar, hp, hf, reduceCtorEq, true_and,
    false_and, or_false] at ha
  obtain ⟨hn, -, -, past, _, rfl, hacts, d, -, -, -, rfl⟩ := ha
  have hword := he.acts_admit hacts made.name
  have hnew := hfree (by rw [hword]; exact Errand.mem_acts (by simp [admitted])) hn
    (by simp [Attempt.name?, hw])
  refine ⟨hn, hword, ?_, ?_⟩
  · rw [hc]
    exact hd ..
  · show made.registration.succeeds (s.registry.isRegistered made.name) = true
    rw [hnew, hc, he.capability, he.config, he.target]
    exact henv.registers _ _ (he.before.trans (List.suffix_cons ..))

theorem register {rest' : Registration} (he : e.Fits x a s) (ha : a.FaresAt env e misses s)
    (hr : a.stage = .registering c free rest since)
    (hs : Registration.Step x c a.reference rest since s rest' s') :
    (a.toStage (.registering c free rest' s'.now)).FaresAt env e misses s' := by
  simp only [FaresAt, Attempt.Fares, hr] at ha
  obtain ⟨hn, hacts, ho, hsucceeds⟩ := ha
  rw [FaresAt, hs.store_eq, hs.acts_eq]
  exact ⟨hn, hacts, hs.succeeds ho hsucceeds he.isOpen⟩

/-- A registration that ends has ended well. -/
theorem of_returns {fault : Option Fault} (he : e.Fits x a s) (ha : a.FaresAt env e misses s)
    (hr : a.stage = .registering c free rest since) (hend : rest.Returns x s fault) :
    fault = none ∧ s.registry.isRegistered c := by
  simp only [FaresAt, Attempt.Fares, hr] at ha
  obtain ⟨-, -, ho, hsucceeds⟩ := ha
  exact hend.succeeds ho hsucceeds he.isOpen he.uncancelled

theorem install (he : e.Fits x a s) (ha : a.FaresAt env e misses s)
    (hr : a.stage = .registering c free rest since) (hend : rest.Returns x s none) :
    (a.finish none s.now).FaresAt env e misses
      ({ s.note x (.returned c a.reference none false) with
        store := s.store.install a.reference c }.note x (.installed a.reference c)) := by
  have hreg := (ha.of_returns he hr hend).2
  simp only [FaresAt, Attempt.Fares, hr] at ha
  refine ⟨rfl, c, ?_, ?_, hreg⟩
  · show (s.store.install a.reference c).get? _ = _
    rw [Store.get?_install, he.reference, if_pos rfl]
  · rw [made]
    exact (acts_note_quiet rfl).trans (he.acts_note rfl ha.2.1)

end Attempt.FaresAt

theorem Attempt.Step.fares (henv : env.Welcomes e misses) (hd : env.KeepsNames)
    (h : Attempt.Step env x (a, s) (b, s')) (he : e.Fits x a s)
    (hfree : ∀ n, (e.call, .created n) ∈ Trace.acts s'.trace e.activator e.reference →
      s.store.get? e.reference = none → a.name? = none → s.registry.isRegistered n = false)
    (ha : a.FaresAt env e misses s) : b.FaresAt env e misses s' := by
  cases h with
  | draw => exact ha
  | update hf hg =>
      simp only [FaresAt, Attempt.Fares, hf] at ha
      rw [he.reference, ha.1] at hg
      cases hg
  | wait hf => exact ha.wait henv he hf
  | ask hw ht => exact ha.ask hw ht
  | unaskable _ _ hf =>
      rw [he.reference, henv.refusal] at hf
      cases hf
  | probe hw ht => exact ha.probe he hw ht
  | giveUp _ hc | revoke _ _ hc =>
      rw [he.uncancelled] at hc
      cases hc
  | expire hw _ hle => exact absurd (ha.lt_deadline hw) (Nat.not_lt.2 hle)
  | miss hw hp hend hf => exact ha.miss he hw hp hend hf
  | fail hw hp _ hf => exact absurd hf (ha.finding_ne_failed hw hp _)
  | create hw hp _ hf _ _ hs hc => exact ha.create henv hd he hw hp hf hs hc (hfree _)
  | register hr hs => exact ha.register he hr hs
  | install hr hend => exact ha.install he hr hend
  | refuse hr hend => cases (ha.of_returns he hr hend).1

end Fares

end Lifecycle
