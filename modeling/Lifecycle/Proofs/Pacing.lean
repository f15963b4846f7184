import Mathlib.Algebra.Order.Floor.Div
import Lifecycle.Orchestrator
import Lifecycle.Proofs.Causes
import Lifecycle.Proofs.Punctual

/-!
# Policies are kept

A policy says how often a schema is asked for and for how long at most. It does not reach
the engine as a counter of checks: a wait knows the interval and the instant of its
deadline, and sleeps in between. `policies_kept` says what comes of that for whoever waits.

The checks of a target are read off the trace, and how many they may be is a matter of
their distances. Each starts an interval after the one before, none at the deadline or
later, so the number of intervals in the timeout bounds them. All of that holds in any run,
even in one whose clock runs ahead of the engine; `Attempt.InPace` is the invariant.

That the wait is over by its deadline is true only of runs in which the clock waits for
the engine. In those the first check is started as the wait begins, and `Attempt.Opens` has
the only ways in which there may be none. They have to be told apart from a cancellation
that came before the first look, and that needs the run: `exists_first_look` finds the look.
-/

namespace Lifecycle

variable {C T : Type}

/-! ## Policies that are in use -/

/-- The activators that there can be: one with the default policy or with a policy of its own,
and those of an orchestrator that is given a policy, or two texts for it. -/
inductive Activator.Made : Activator → Prop where
  | default (capability : String) : Made (.new capability .default)
  | alone {C T : Type} {capability p a} {w : World C T}
      (h : Activator.alone capability p = .ok w) (ha : a ∈ w.activators) : Made a
  | orchestrated {p w a} (h : Orchestrator.new p = .ok w) (ha : a ∈ w.activators) : Made a
  | ofSettings {interval timeout w a} (h : Orchestrator.ofSettings interval timeout = .ok w)
      (ha : a ∈ w.activators) : Made a

/-- What is made of a policy that was looked at is made of an admitted one. -/
theorem Policy.admitted_of_validate {α : Type} {p : Policy} {make : Policy → α} {x : α}
    (h : (do return make (← p.validate)) = Except.ok x) : p.Admitted ∧ x = make p := by
  cases hp : p.validate with
  | error f =>
      rw [hp] at h
      cases h
  | ok q =>
      rw [hp] at h
      cases h
      obtain ⟨hadmitted, rfl⟩ := Policy.validate_eq_ok_iff.1 hp
      exact ⟨hadmitted, rfl⟩

theorem Activator.admitted_of_alone {capability : String} {p : Policy} {w : World C T}
    (h : Activator.alone capability p = .ok w) : ∀ a ∈ w.activators, a.policy.Admitted := by
  obtain ⟨hadmitted, rfl⟩ := Policy.admitted_of_validate h
  intro a ha
  rw [List.mem_singleton.1 ha]
  exact hadmitted

theorem Orchestrator.admitted_of_new {p : Policy}
    {w : World CapabilityConfig CapabilityTarget} (h : Orchestrator.new p = .ok w) :
    ∀ a ∈ w.activators, a.policy.Admitted := by
  obtain ⟨hadmitted, rfl⟩ := Policy.admitted_of_validate h
  intro a ha
  rcases List.mem_cons.1 ha with rfl | ha
  · exact hadmitted
  · rw [List.mem_singleton.1 ha]
    exact hadmitted

/-- Nobody makes an activator with a policy that is not admitted. -/
theorem Activator.Made.admitted {a : Activator} (h : a.Made) : a.policy.Admitted := by
  cases h with
  | default =>
      show Policy.default.Admitted
      decide
  | alone h ha => exact Activator.admitted_of_alone h a ha
  | orchestrated h ha => exact Orchestrator.admitted_of_new h a ha
  | @ofSettings interval timeout w _ h ha =>
      rw [Orchestrator.ofSettings] at h
      cases hp : Policy.ofSettings interval timeout with
      | error f =>
          rw [hp] at h
          cases h
      | ok p =>
          rw [hp] at h
          exact Orchestrator.admitted_of_new h a ha

/-! ## The checks of a target -/

/-- The instant at which an entry says that a check was started for a reference. -/
def Entry.check? (r : ResourceReference) (e : Entry C T) : Option Nat :=
  match e.what with
  | .probed _ (some q) => if q = r then some e.time else none
  | _ => none

/-- The instants at which checks were started for a call and a reference, in the order of time. -/
def Trace.checks (t : Trace C T) (i : Nat) (r : ResourceReference) : List Nat :=
  (Trace.ofCall t i).filterMap (Entry.check? r)

section Checks

variable {i : Nat} {r : ResourceReference}

theorem checks_append (t t' : Trace C T) :
    Trace.checks (t' ++ t) i r = Trace.checks t i r ++ Trace.checks t' i r := by
  rw [Trace.checks, Trace.ofCall_append, List.filterMap_append]
  rfl

theorem checks_prefix {t t' : Trace C T} (h : t <:+ t') :
    Trace.checks t i r <+: Trace.checks t' i r := by
  obtain ⟨new, rfl⟩ := h
  exact ⟨_, (checks_append ..).symm⟩

variable {s : Site C T} {x : Context C} {h : Happening C T}

theorem checks_note_self (gv : GroupVersion) :
    Trace.checks (s.note x (.probed gv (some r))).trace x.scope.call r =
      Trace.checks s.trace x.scope.call r ++ [s.now] := by
  refine (checks_append s.trace [⟨s.now, some x.scope, .probed gv (some r)⟩]).trans ?_
  simp [Trace.checks, Trace.ofCall, Entry.check?]

theorem checks_note_quiet (hq : Entry.check? r ⟨s.now, some x.scope, h⟩ = none) :
    Trace.checks (s.note x h).trace i r = Trace.checks s.trace i r := by
  refine (checks_append s.trace [⟨s.now, some x.scope, h⟩]).trans ?_
  have hnil : Trace.checks [⟨s.now, some x.scope, h⟩] i r = [] := by
    rw [Trace.checks, List.filterMap_eq_nil_iff]
    intro e he
    rwa [List.mem_singleton.1 (List.mem_reverse.1 (List.mem_filter.1 he).1)]
  rw [hnil, List.append_nil]

theorem checks_release (q : ResourceReference) (c : String) (free : Bool) :
    Trace.checks (Attempt.release x q c free s).trace i r = Trace.checks s.trace i r := by
  rcases Attempt.release_cases x q c free s with h | ⟨g, -, h⟩ <;> rw [h]
  exact (checks_note_quiet rfl).trans (checks_note_quiet rfl)

variable [Targeted T]

/-- Who has the same story has the same checks. -/
theorem checks_of_story {t t' : Trace C T} (h : t <:+ t')
    (hs : Trace.story t' i r = Trace.story t i r) : Trace.checks t' i r = Trace.checks t i r := by
  obtain ⟨new, rfl⟩ := h
  rw [story_append, List.append_right_eq_self, Trace.story, List.filter_eq_nil_iff] at hs
  rw [checks_append, List.append_right_eq_self, Trace.checks, List.filterMap_eq_nil_iff]
  intro e he
  have hother := hs e.what (List.mem_map_of_mem he)
  unfold Entry.check?
  split
  · next gv q heq =>
      refine if_neg fun hq => hother ?_
      rw [heq, hq]
      simp [Happening.subject?]
  · rfl

end Checks

theorem checks_startCheck (env : Collaborators C T) (x : Context C) (r : ResourceReference)
    (s : Site C T) : Trace.checks (Attempt.startCheck env x r s).2.trace x.scope.call r =
      Trace.checks s.trace x.scope.call r ++ [s.now] :=
  checks_note_self (s := { s with fired := _ }) r.groupVersion

variable [Targeted T]

/-- A step starts a check, which leaves the wait with a running one, or it starts none. -/
theorem Attempt.Step.checks_cases {env : Collaborators C T} {x : Context C} {a b : Attempt T}
    {s s' : Site C T} (h : Attempt.Step env x (a, s) (b, s')) :
    (∃ w check, a.stage = .waiting w ∧ w.turn (s.cancelled x) s.now = .ask ∧
      b.stage = .waiting { w with phase := .inFlight check s.now } ∧
      Trace.checks s'.trace x.scope.call a.reference =
        Trace.checks s.trace x.scope.call a.reference ++ [s.now]) ∨
      Trace.checks s'.trace x.scope.call a.reference =
        Trace.checks s.trace x.scope.call a.reference := by
  cases h with
  | draw | wait | ask | giveUp => exact .inr rfl
  | update | unaskable | expire | miss => exact .inr (checks_note_quiet rfl)
  | probe hw ht => exact .inl ⟨_, _, hw, ht, rfl, checks_startCheck ..⟩
  | fail => exact .inr ((checks_note_quiet rfl).trans (checks_note_quiet rfl))
  | create _ _ _ _ _ _ hs =>
      subst hs
      exact .inr (((checks_note_quiet rfl).trans (checks_note_quiet rfl)).trans
        (checks_note_quiet rfl))
  | register _ hs =>
      cases hs with
      | refused | cancel | wake => exact .inr rfl
      | spawn | spawnOr => exact .inr (checks_note_quiet rfl)
      | synced => exact .inr (checks_note_quiet rfl)
  | install => exact .inr ((checks_note_quiet rfl).trans (checks_note_quiet rfl))
  | refuse =>
      exact .inr (((checks_note_quiet rfl).trans (checks_release ..)).trans
        (checks_note_quiet rfl))
  | revoke => exact .inr ((checks_release ..).trans (checks_note_quiet rfl))

/-! ## The pace of the checks -/

/-- Whether the instants at which checks were started are those of a policy: they are at least
an interval apart, all within one timeout, and no more than there are intervals in it. -/
structure Policy.KeptBy (p : Policy) (ts : List Nat) : Prop where
  apart : ts.Pairwise fun s t => s ≤ t ∧ p.pollInterval ≤ .ofMillis (t - s)
  within : ∀ s ∈ ts, ∀ t ∈ ts, t < s + p.readinessTimeout.ceilMillis
  count : ts.length ≤ p.readinessTimeout.nanos ⌈/⌉ p.pollInterval.nanos

/-- Instants that are some way apart reach as far as there are ways between them. -/
theorem exists_mem_of_apart {n : Nat} (s : Nat) (ts : List Nat)
    (h : (s :: ts).Pairwise fun s t => s + n ≤ t) : ∃ t ∈ s :: ts, s + ts.length * n ≤ t := by
  induction ts generalizing s with
  | nil => exact ⟨s, .head _, by simp⟩
  | cons t ts ih =>
      obtain ⟨hs, ht⟩ := List.pairwise_cons.1 h
      obtain ⟨u, hu, hle⟩ := ih t ht
      have hst := hs t (.head ts)
      refine ⟨u, .tail s hu, ?_⟩
      rw [List.length_cons, Nat.succ_mul]
      omega

/-- Whole ticks between the checks leave room for as many as the policy allows. -/
theorem Policy.keptBy_of_ticks {p : Policy} (hp : p.Admitted) {ts : List Nat}
    (hapart : ts.Pairwise fun s t => s + p.pollInterval.ceilMillis ≤ t)
    (hwithin : ∀ s ∈ ts, ∀ t ∈ ts, t < s + p.readinessTimeout.ceilMillis) : p.KeptBy ts := by
  have hinterval : p.pollInterval.nanos ≤ p.pollInterval.ceilMillis * 1000000 := by
    rw [← Duration.nanos_ofMillis]
    exact p.pollInterval.le_ofMillis_ceilMillis
  refine ⟨hapart.imp ?_, hwithin, ?_⟩
  · intro s t hst
    have hticks : p.pollInterval.ceilMillis ≤ t - s := by omega
    refine ⟨by omega, ?_⟩
    show p.pollInterval.nanos ≤ (Duration.ofMillis (t - s)).nanos
    rw [Duration.nanos_ofMillis]
    exact Nat.le_trans hinterval (Nat.mul_le_mul_right _ hticks)
  · have hpos : 0 < p.pollInterval.nanos := hp.1
    refine Nat.le_of_not_lt fun hlt => ?_
    cases ts with
    | nil => exact Nat.not_lt_zero _ hlt
    | cons s ts =>
        -- The last check is as many intervals behind the first as there are others.
        obtain ⟨t, ht, hle⟩ := exists_mem_of_apart s ts hapart
        have hticks : ts.length * p.pollInterval.ceilMillis < p.readinessTimeout.ceilMillis := by
          have := hwithin s (.head ts) t ht
          omega
        have htimeout : ts.length * p.pollInterval.ceilMillis * 1000000 <
            p.readinessTimeout.nanos := by
          rw [← Duration.nanos_ofMillis]
          exact Duration.ofMillis_lt hticks
        have hcovered : p.readinessTimeout.nanos ≤ p.pollInterval.nanos * ts.length :=
          (ceilDiv_le_iff_le_mul hpos).1 (Nat.le_of_lt_succ hlt)
        have hmul : p.pollInterval.nanos * ts.length ≤
            p.pollInterval.ceilMillis * 1000000 * ts.length := Nat.mul_le_mul_right _ hinterval
        rw [Nat.mul_right_comm, Nat.mul_comm p.pollInterval.ceilMillis] at hmul
        omega

/-- The first of the checks is the earliest, and the others start within a timeout. -/
theorem Policy.KeptBy.within_of_head {p : Policy} {ts : List Nat} (h : p.KeptBy ts) {begun : Nat}
    (hhead : ts.head? = some begun) :
    ∀ t ∈ ts, begun ≤ t ∧ t < begun + p.readinessTimeout.ceilMillis := by
  obtain ⟨rest, rfl⟩ := List.head?_eq_some_iff.1 hhead
  intro t ht
  refine ⟨?_, h.within begun (.head rest) t ht⟩
  rcases List.mem_cons.1 ht with rfl | hrest
  · exact Nat.le_refl _
  · exact ((List.pairwise_cons.1 h.apart).1 t hrest).1

/-- Whether a wait is ready for the next of its checks, or will be when it wakes: the last
one is an interval ago, or it is still running. -/
def Wait.Rested {E : Type} (w : Wait E) (now : Nat) (ts : List Nat) : Prop :=
  match w.phase with
  | .due | .asked => ∀ t ∈ ts, t + w.interval ≤ now
  | .inFlight _ since => since ≤ now ∧ ∀ t ∈ ts, t ≤ since
  | .resting wake => ∀ t ∈ ts, t + w.interval ≤ wake ∨ w.deadline ≤ wake

section Wait

variable {w : Wait Fault} {now : Nat} {ts : List Nat}

theorem Wait.Rested.mono (h : w.Rested now ts) {later : Nat} (hle : now ≤ later) :
    w.Rested later ts := by
  unfold Wait.Rested at h ⊢
  split at h
  · exact fun t ht => Nat.le_trans (h t ht) hle
  · exact fun t ht => Nat.le_trans (h t ht) hle
  · exact ⟨Nat.le_trans h.1 hle, h.2⟩
  · exact h

/-- A wait that wants a check has waited for an interval since the last one. -/
theorem Wait.Rested.of_ask (h : w.Rested now ts) {c : Bool} (ht : w.turn c now = .ask) :
    ∀ t ∈ ts, t + w.interval ≤ now := by
  obtain ⟨rfl, hd⟩ := Wait.lt_deadline_of_turn_eq_ask ht
  unfold Wait.Rested at h
  split at h
  · exact h
  · exact h
  · next check since hp => exact absurd hp (Attempt.phase_of_turn_eq_ask ht check since)
  · next wake hp =>
      have hwake : ¬ now < wake := by
        intro hlt
        simp only [Wait.turn, hp, Bool.false_eq_true, if_false, if_pos hlt] at ht
        cases ht
      intro t hmem
      have := h t hmem
      omega

/-- A rest is as long as the interval, or it lasts until the deadline. -/
theorem Wait.Rested.rest (h : w.Rested now ts) {check : Check Fault} {since : Nat}
    (hp : w.phase = .inFlight check since) :
    ({ w with phase := .resting (min (now + w.interval) w.deadline) } : Wait Fault).Rested now
      ts := by
  unfold Wait.Rested at h
  rw [hp] at h
  obtain ⟨hsince, hts⟩ := h
  intro t ht
  have := hts t ht
  show t + w.interval ≤ min (now + w.interval) w.deadline ∨
    w.deadline ≤ min (now + w.interval) w.deadline
  omega

end Wait

namespace Attempt

/-- An attempt whose checks were started at some instants and that is ready for more of them
when the policy says so. -/
structure InPace (p : Policy) (now : Nat) (ts : List Nat) (a : Attempt T) : Prop where
  fresh : a.stage = .fresh → ts = []
  apart : ts.Pairwise fun s t => s + p.pollInterval.ceilMillis ≤ t
  within : ∀ s ∈ ts, ∀ t ∈ ts, t < s + p.readinessTimeout.ceilMillis
  interval : ∀ w, a.stage = .waiting w → w.interval = p.pollInterval.ceilMillis
  deadline : ∀ w, a.stage = .waiting w → w.deadline ≤ now + p.readinessTimeout.ceilMillis ∧
    ∀ t ∈ ts, t < w.deadline ∧ w.deadline ≤ t + p.readinessTimeout.ceilMillis
  rested : ∀ w, a.stage = .waiting w → w.Rested now ts

variable {p : Policy} {now : Nat} {ts : List Nat} {a b : Attempt T}

omit [Targeted T] in
theorem InPace.mono (h : a.InPace p now ts) {later : Nat} (hle : now ≤ later) :
    a.InPace p later ts where
  fresh := h.fresh
  apart := h.apart
  within := h.within
  interval := h.interval
  deadline w hw := ⟨by have := (h.deadline w hw).1; omega, (h.deadline w hw).2⟩
  rested w hw := (h.rested w hw).mono hle

omit [Targeted T] in
/-- An attempt that has not been looked at is in pace without a check. -/
theorem InPace.of_fresh (hf : a.stage = .fresh) : a.InPace p now [] := by
  have hw : ∀ w, a.stage ≠ .waiting w := fun w hw => by
    rw [hf] at hw
    cases hw
  exact ⟨fun _ => rfl, .nil, by simp, fun w h => absurd h (hw w), fun w h => absurd h (hw w),
    fun w h => absurd h (hw w)⟩

omit [Targeted T] in
/-- A wait that goes on without a new check. -/
theorem InPace.goesOn (h : a.InPace p now ts) {w w' : Wait Fault} (hw : a.stage = .waiting w)
    (hb : b.stage = .waiting w') (hi : w'.interval = w.interval) (hd : w'.deadline = w.deadline)
    (hr : w'.Rested now ts) : b.InPace p now ts where
  fresh hf := by
    rw [hb] at hf
    cases hf
  apart := h.apart
  within := h.within
  interval v hv := by
    rw [hb] at hv
    cases hv
    exact hi.trans (h.interval w hw)
  deadline v hv := by
    rw [hb] at hv
    cases hv
    rw [hd]
    exact h.deadline w hw
  rested v hv := by
    rw [hb] at hv
    cases hv
    exact hr

omit [Targeted T] in
/-- A wait that is over starts no more checks. -/
theorem InPace.over (h : a.InPace p now ts) (hf : b.stage ≠ .fresh)
    (hw : ∀ w, b.stage ≠ .waiting w) : b.InPace p now ts where
  fresh hb := absurd hb hf
  apart := h.apart
  within := h.within
  interval w hb := absurd hb (hw w)
  deadline w hb := absurd hb (hw w)
  rested w hb := absurd hb (hw w)

omit [Targeted T] in
/-- A check that a wait wanted is as far from the others as it has to be. -/
theorem InPace.check (h : a.InPace p now ts) {w : Wait Fault} (hw : a.stage = .waiting w)
    {c : Bool} (ht : w.turn c now = .ask) {check : Check Fault}
    (hb : b.stage = .waiting { w with phase := .inFlight check now }) :
    b.InPace p now (ts ++ [now]) := by
  have hi := h.interval w hw
  have hd := h.deadline w hw
  have hnow := (Wait.lt_deadline_of_turn_eq_ask ht).2
  have hgap := (h.rested w hw).of_ask ht
  have hmem : ∀ t ∈ ts ++ [now], t ∈ ts ∨ t = now := by simp
  refine ⟨?_, ?_, ?_, ?_, ?_, ?_⟩
  · intro hf
    rw [hb] at hf
    cases hf
  · refine List.pairwise_append.2 ⟨h.apart, List.pairwise_singleton .., fun s hs t ht => ?_⟩
    rw [List.mem_singleton.1 ht, ← hi]
    exact hgap s hs
  · intro s hs t ht
    rcases hmem s hs with hs | hs <;> rcases hmem t ht with ht | ht
    · exact h.within s hs t ht
    · have := (hd.2 s hs).2
      omega
    · have := hgap t ht
      omega
    · omega
  · intro v hv
    rw [hb] at hv
    cases hv
    exact hi
  · intro v hv
    rw [hb] at hv
    cases hv
    refine ⟨hd.1, fun t ht => ?_⟩
    rcases hmem t ht with ht | rfl
    · exact hd.2 t ht
    · exact ⟨hnow, hd.1⟩
  · intro v hv
    rw [hb] at hv
    cases hv
    refine ⟨Nat.le_refl _, fun t ht => ?_⟩
    rcases hmem t ht with ht | rfl
    · have := hgap t ht
      omega
    · exact Nat.le_refl _

theorem Step.inPace {env : Collaborators C T} {x : Context C} {s s' : Site C T}
    (h : Step env x (a, s) (b, s'))
    (ha : a.InPace x.policy s.now (Trace.checks s.trace x.scope.call a.reference)) :
    b.InPace x.policy s'.now (Trace.checks s'.trace x.scope.call b.reference) := by
  have hnow : s'.now = s.now := h.now_eq
  have href : b.reference = a.reference := congrArg Targeted.reference h.target_eq
  rw [hnow, href]
  rcases h.checks_cases with ⟨w, check, hw, ht, hb, hts⟩ | hts
  · rw [hts]
    exact ha.check hw ht hb
  · rw [hts]
    cases h with
    | draw => exact ⟨ha.fresh, ha.apart, ha.within, ha.interval, ha.deadline, ha.rested⟩
    | wait hf =>
        have hnil := ha.fresh hf
        rw [hnil]
        refine ⟨fun _ => rfl, .nil, nofun, fun v hv => ?_, fun v hv => ?_, fun v hv => ?_⟩
        · cases hv
          rfl
        · cases hv
          exact ⟨Nat.le_refl _, nofun⟩
        · cases hv
          exact nofun
    | ask hw ht => exact ha.goesOn hw rfl rfl rfl ((ha.rested _ hw).of_ask ht)
    | probe => exact absurd hts (by simp [checks_startCheck])
    | miss hw hp => exact ha.goesOn hw rfl rfl rfl ((ha.rested _ hw).rest hp)
    | _ => exact ha.over (fun hb => by cases hb) (fun v hb => by cases hb)

/-! ## How a wait begins and how long it lasts -/

/-- Why a wait is over without a check that was started: the call was cancelled, or the check
failed before anything was sent. -/
inductive Unchecked (env : Collaborators C T) (r : ResourceReference) : Cause → Prop where
  | cancelled : Unchecked env r (.cancelled r.gvk)
  | refused {f} (h : env.refusal? r.groupVersion = some f) : Unchecked env r (.probe r.gvk f)

/-- How the wait of an attempt has opened: its first check was started at the instant at which
it began, or the wait was over then. -/
def Opens (env : Collaborators C T) (begun now : Nat) (ts : List Nat) (a : Attempt T) : Prop :=
  match a.stage with
  | .fresh => ts = []
  | .waiting w => ts.head? = some begun ∨
    (ts = [] ∧ now = begun ∧ (w.phase = .due ∨ w.phase = .asked))
  | .registering .. => ts.head? = some begun
  | .done cause time => ts.head? = some begun ∨
    (ts = [] ∧ time = begun ∧ ∃ c, cause = some c ∧ Unchecked env a.reference c)

/-- What a first look at an unknown target has done about its schema: a check was started, or it
was asked for and starts with the next look, or it failed before anything was sent. -/
inductive Asks (env : Collaborators C T) (now : Nat) (ts : List Nat) (a : Attempt T) : Prop where
  | started (h : now ∈ ts)
  | asked (hr : env.remote) (h : a.hasAsked)
  | refused {f} (hr : env.refusal? a.reference.groupVersion = some f)
      (h : a.stage = .done (some (.probe a.reference.gvk f)) now)

/-- Where the wait of an attempt stands: it goes on and its deadline has not passed, or it was
over by then, without a controller or with one that registers. -/
def OverBy (x : Scope C) (begun deadline now : Nat) (tr : Trace C T) (a : Attempt T) : Prop :=
  (now ≤ deadline ∧ (a.stage = .fresh ∨ ∃ w, a.stage = .waiting w)) ∨
    (a.stage ≠ .fresh ∧ (∀ w, a.stage ≠ .waiting w) ∧ ∃ time, begun ≤ time ∧ time ≤ deadline ∧
      ((∃ cause, a.stage = .done (some cause) time) ∨
        ∃ c, ⟨time, some x, .registering c a.reference⟩ ∈ tr))

section Wait

variable {env : Collaborators C T} {begun : Nat}

theorem OnTime.overBy {x : Scope C} {tr : Trace C T} (h : a.OnTime env x p begun now none tr) :
    a.OverBy x begun (begun + p.readinessTimeout.ceilMillis) now tr := by
  unfold OnTime at h
  cases hst : a.stage with
  | fresh =>
      rw [hst] at h
      have h : now = begun := h
      exact .inl ⟨by omega, .inl hst⟩
  | waiting w =>
      rw [hst] at h
      exact .inl ⟨h.2.2.2.2.1, .inr ⟨w, hst⟩⟩
  | registering c free rest since =>
      rw [hst] at h
      obtain ⟨-, -, made, hb, hd, -, -, hm, -⟩ := h
      exact .inr ⟨by simp [hst], by simp [hst], made, hb, hd, .inr ⟨c, hm⟩⟩
  | done cause time =>
      rw [hst] at h
      refine .inr ⟨by simp [hst], by simp [hst], ?_⟩
      cases h.2 with
      | known hf => cases hf
      | unready hf hb hd => exact ⟨time, hb, hd, .inl ⟨_, hst⟩⟩
      | registered hf hb hd _ hm => exact ⟨_, hb, hd, .inr ⟨_, hm⟩⟩

/-- An attempt without a check has not come to wait, or its wait was over at once. -/
theorem Opens.head_or_nil (h : a.Opens env begun now ts) :
    ts.head? = some begun ∨ ts = [] := by
  unfold Opens at h
  split at h
  · exact .inr h
  · exact h.imp_right And.left
  · exact .inl h
  · exact h.imp_right And.left

/-- An attempt that has been waited for has had its first check, or its wait was over at once. -/
theorem Opens.of_later (h : a.Opens env begun now ts) (hfresh : a.stage = .fresh → now = begun)
    (hlater : begun < now ∨ a.isDone) : ts.head? = some begun ∨
      ∃ cause, a.stage = .done (some cause) begun ∧ Unchecked env a.reference cause := by
  unfold Opens at h
  cases hst : a.stage with
  | fresh =>
      have := hfresh hst
      simp [isDone, hst] at hlater
      omega
  | waiting w =>
      rw [hst] at h
      refine .inl (h.resolve_right ?_)
      rintro ⟨-, hbegun, -⟩
      simp [isDone, hst] at hlater
      omega
  | registering =>
      rw [hst] at h
      exact .inl h
  | done cause time =>
      rw [hst] at h
      rcases h with h | ⟨-, rfl, c, rfl, hc⟩
      · exact .inl h
      · exact .inr ⟨c, rfl, hc⟩

/-- A clock that waits for the first check of an attempt does not keep it from opening. -/
theorem Opens.advance (h : a.Opens env begun now ts) {time : Nat} (hle : now ≤ time)
    (hdue : ∀ s, now ≤ s → s < time → a.dueTicket? s = none) : a.Opens env begun time ts := by
  unfold Opens at h ⊢
  cases hst : a.stage with
  | waiting w =>
      rw [hst] at h
      refine h.imp_right fun ⟨hts, hnow, hp⟩ => ⟨hts, ?_, hp⟩
      have hstill : ¬ now < time := fun hlt => by
        have hnone := hdue now (Nat.le_refl _) hlt
        rcases hp with hp | hp <;> simp [dueTicket?, hst, hp] at hnone
      omega
  | _ =>
      rw [hst] at h
      exact h

theorem Step.opens {x : Context C} {s s' : Site C T} (h : Step env x (a, s) (b, s'))
    (hpolicy : 0 < x.policy.readinessTimeout.ceilMillis)
    (hfound : a.stage = .fresh → s.store.get? a.reference = none)
    (hon : a.OnTime env x.scope x.policy begun s.now none s.trace)
    (ha : a.Opens env begun s.now (Trace.checks s.trace x.scope.call a.reference)) :
    b.Opens env begun s'.now (Trace.checks s'.trace x.scope.call b.reference) := by
  have hnow : s'.now = s.now := h.now_eq
  have href : b.reference = a.reference := congrArg Targeted.reference h.target_eq
  rw [hnow, href]
  unfold Opens at ha
  unfold OnTime at hon
  -- A wait that ends for one of these reasons has had a check, or ends as it began.
  have hover : ∀ {w : Wait Fault} {c : Cause}, a.stage = .waiting w → Unchecked env a.reference c →
      Opens env begun s.now (Trace.checks s.trace x.scope.call a.reference)
        (a.finish (some c) s.now) := by
    intro w c hw hc
    rw [hw] at ha
    exact ha.imp_right fun ⟨hnil, hbegun, _⟩ => ⟨hnil, hbegun, c, rfl, hc⟩
  -- A check that runs has been started.
  have hrunning : ∀ {w : Wait Fault} {check : Check Fault} {since : Nat}, a.stage = .waiting w →
      w.phase = .inFlight check since →
      (Trace.checks s.trace x.scope.call a.reference).head? = some begun := by
    intro w check since hw hp
    rw [hw] at ha
    refine ha.resolve_right fun ⟨_, _, hdue⟩ => ?_
    rw [hp] at hdue
    rcases hdue with h | h <;> cases h
  have hregistering : ∀ {c : String} {free : Bool} {rest : Registration} {since : Nat},
      a.stage = .registering c free rest since →
      (Trace.checks s.trace x.scope.call a.reference).head? = some begun := by
    intro c free rest since hr
    rw [hr] at ha
    exact ha
  rcases h.checks_cases with ⟨w, check, hw, -, hb, hts⟩ | hts
  · rw [hts, Opens, hb]
    rw [hw] at ha
    refine .inl ?_
    rcases ha with hhead | ⟨hnil, rfl, -⟩
    · rw [List.head?_append, hhead]
      rfl
    · rw [hnil]
      rfl
  · rw [hts]
    cases h with
    | draw => exact ha
    | update hf hg =>
        rw [hfound hf] at hg
        cases hg
    | wait hf =>
        rw [hf] at ha hon
        exact .inr ⟨ha, hon, .inl rfl⟩
    | ask hw =>
        rw [hw] at ha
        exact ha.imp_right fun ⟨hnil, hbegun, _⟩ => ⟨hnil, hbegun, .inr rfl⟩
    | unaskable hw _ hr => exact hover hw (.refused hr)
    | probe => exact absurd hts (by simp [checks_startCheck])
    | giveUp hw => exact hover hw .cancelled
    | expire hw _ hd =>
        rw [hw] at ha hon
        obtain ⟨-, -, hdeadline, -⟩ := hon
        refine .inl (ha.resolve_right fun ⟨_, hbegun, _⟩ => ?_)
        omega
    | miss hw hp => exact .inl (hrunning hw hp)
    | fail hw hp => exact .inl (hrunning hw hp)
    | create hw hp => exact hrunning hw hp
    | register hr => exact hregistering hr
    | install hr => exact .inl (hregistering hr)
    | refuse hr => exact .inl (hregistering hr)
    | revoke hr => exact .inl (hregistering hr)

/-- A check that is not put off is started, whatever comes of it. -/
theorem now_mem_checks {x : Context C} {s : Site C T} {w : Wait Fault}
    (ht : w.turn (s.cancelled x) s.now = .ask) (hr : env.refusal? a.reference.groupVersion = none)
    (hnow : ¬ (env.remote ∧ w.phase ≠ .asked)) :
    s.now ∈ Trace.checks (makeCheck env x a w s).2.trace x.scope.call a.reference := by
  have hd := (Wait.lt_deadline_of_turn_eq_ask ht).2
  have hsteps : Steps env x (a.toStage (.waiting { w with
      phase := .inFlight (startCheck env x a.reference s).1 s.now }),
      (startCheck env x a.reference s).2) (makeCheck env x a w s) := by
    simp only [makeCheck, hr, if_neg hnow, noteFinding_now, noteFinding_cancelled]
    exact answer_steps (w := { w with phase := .inFlight _ s.now }) rfl hd fun _ => rfl
  obtain ⟨new, htrace, -⟩ := hsteps.noted
  have hkept := checks_prefix (i := x.scope.call) (r := a.reference) ⟨new, htrace.symm⟩
  dsimp only at hkept
  rw [checks_startCheck] at hkept
  exact hkept.subset (List.mem_append_right _ (List.mem_singleton_self s.now))

/-- The first look at an unknown target asks for its schema, unless the call is cancelled. -/
theorem look_asks {x : Context C} {s : Site C T} (hf : a.stage = .fresh)
    (hg : s.store.get? a.reference = none) (hc : s.cancelled x = false)
    (hpolicy : 0 < x.policy.readinessTimeout.ceilMillis) :
    (look env x a s).1.Asks env s.now
      (Trace.checks (look env x a s).2.trace x.scope.call a.reference) := by
  obtain ⟨ticket, checkTicket, tickets, hlook⟩ := look_eq env x a s
  have ht : (Wait.begin x.policy.pollInterval x.policy.readinessTimeout s.now).turn
      (s.cancelled x) s.now = (.ask : Wait.Turn Fault) := by
    have hd : ¬ s.now + x.policy.readinessTimeout.ceilMillis ≤ s.now := by omega
    simp only [hc, Wait.begin, Wait.turn, Bool.false_eq_true, if_false]
    exact if_neg hd
  have hpoll : poll env x a s = makeCheck env x a
      (.begin x.policy.pollInterval x.policy.readinessTimeout s.now) s := by
    simp only [poll, hf, hg, awaitSchema, ht]
  rw [hlook, hpoll]
  cases hr : env.refusal? a.reference.groupVersion with
  | some f =>
      simp only [makeCheck, hr]
      exact .refused hr rfl
  | none =>
      by_cases hremote : env.remote
      · refine .asked hremote ?_
        simp only [makeCheck, hr]
        rw [if_pos ⟨hremote, by simp [Wait.begin]⟩]
        rfl
      · exact .started (now_mem_checks ht hr fun h => hremote h.1)

end Wait

end Attempt

namespace World

variable {env : Collaborators C T} {policies : List (String × Policy)} {m : Move C T}
  {w w' : World C T} {i : Nat}

/-- Activators keep the policies that they were made with. -/
theorem Reachable.policy_mem (hw : Reachable env policies w) {a : Activator}
    (ha : a ∈ w.activators) : ∃ q ∈ policies, a.policy = q.2 := by
  obtain ⟨ms, rfl⟩ := hw
  refine invariant_of_play (A := fun _ => True) (P := fun w => ∀ a ∈ w.activators,
    ∃ q ∈ policies, a.policy = q.2) (fun _ h hw a' ha' => ?_) (fun _ _ => trivial) ?_ a ha
  · obtain ⟨k, hk⟩ := List.getElem?_of_mem ha'
    obtain ⟨a, ha, -, hpolicy⟩ := h.exists_activator hk
    obtain ⟨q, hq, hkept⟩ := hw a (List.mem_of_getElem? ha)
    exact ⟨q, hq, hpolicy.trans hkept⟩
  · intro a ha
    obtain ⟨q, hq, rfl⟩ := List.mem_map.1 ha
    exact ⟨q, hq, rfl⟩

/-! ## The checks in any run -/

/-- Whether all attempts are in pace. -/
def Paced (w : World C T) : Prop :=
  ∀ i c a (j : Nat) (u : Attempt T), w.find? i = some (c, a) → c.attempts[j]? = some u →
    u.InPace a.policy w.now (Trace.checks w.trace i u.reference)

theorem paced_step (h : Step env m w w') (hw : w.Orderly) {order : List Nat}
    (ht : Taken 0 order w) (hp : w.Paced) : w'.Paced := by
  intro i c' a' j u hf' hu
  obtain ⟨hc', -⟩ := find?_eq_some.1 hf'
  have hat : w'.attempt? i j = some u := by rw [attempt?_eq, hc', Option.bind_some, hu]
  cases h.fate hw hat with
  | kept hu hs =>
      rw [attempt?_eq] at hu
      obtain ⟨c, hc, hu⟩ := Option.bind_eq_some_iff.1 hu
      obtain ⟨a, hf, -, hpolicy⟩ := h.exists_find? hc hf'
      rw [hpolicy, checks_of_story h.trace_suffix hs]
      exact (hp i c a j u hf hu).mono h.now_le
  | begun hc hb _ hu hs =>
      subst hu
      have hnone : w.hasBegun i = false := by rw [World.hasBegun, hc, Option.any_some, hb]
      rw [checks_of_story h.trace_suffix hs, Trace.checks, ht.ofCall_eq_nil hnone]
      exact .of_fresh rfl
  | @looked c a us t s' hf hst hget hstep hput =>
      subst hput
      rw [find?_put hf] at hf'
      cases hf'
      have hnow : s'.now = w.now := hstep.now_eq
      have hold := hp i c a j t hf (by rw [Call.attempts, hst]; exact hget)
      have h := hstep.inPace hold
      rw [hnow] at h
      exact h

theorem Reachable.paced (hw : Reachable env policies w) : w.Paced := by
  obtain ⟨ms, rfl⟩ := hw
  refine (invariant_of_orderly (A := fun _ => True)
    (P := fun w => (∃ order, Taken 0 order w) ∧ w.Paced) (fun _ h hw ⟨⟨order, ht⟩, hp⟩ =>
      ⟨⟨_, taken_step h hw ht⟩, paced_step h hw ht hp⟩) (fun _ _ => trivial)
    (orderly_ofActivators policies) ⟨⟨[], taken_ofActivators policies 0⟩, ?_⟩).2
  intro i c a j u hf
  cases (find?_eq_some.1 hf).1

/-! ## The first check in a punctual run -/

/-- Whether the waits of a call have opened as they should. -/
def Opened (env : Collaborators C T) (i : Nat) (a₀ : Activator) (begun : Nat) (w : World C T) :
    Prop :=
  ∀ j u, w.attempt? i j = some u → a₀.store.get? u.reference = none →
    u.Opens env begun w.now (Trace.checks w.trace i u.reference)

section Punctual

variable {c₀ : Call C T} {a₀ : Activator} {begun : Nat}

/-- The activator knows nothing of an unknown target as long as it has not been looked at. -/
theorem OnSchedule.get?_eq_none (hw : w.OnSchedule env i c₀ a₀ begun) {c : Call C T}
    {a : Activator} {us : List (Attempt T)} {j : Nat} {u : Attempt T}
    (hf : w.find? i = some (c, a)) (hs : c.stage = .working us) (hu : us[j]? = some u)
    (hnone : a₀.store.get? u.reference = none) (hfresh : u.stage = .fresh) :
    a.store.get? u.reference = none := by
  have hkeeps := hw.serving.attempt_keeps hf hs (List.mem_of_getElem? hu)
  rw [Attempt.Keeps, hfresh, hnone] at hkeeps
  exact hkeeps

theorem OnSchedule.opened_step (hw : w.OnSchedule env i c₀ a₀ begun) (ho : w.Opened env i a₀ begun)
    (hpolicy : 0 < a₀.policy.readinessTimeout.ceilMillis) (h : Step env m w w')
    (hm : ∀ time, m ≠ .advance time) : w'.Opened env i a₀ begun := by
  intro j u hu hnone
  have hnow := h.now_eq hm
  cases h.fate hw.serving.orderly hu with
  | kept hu hs =>
      rw [hnow, checks_of_story h.trace_suffix hs]
      exact ho j u hu hnone
  | begun hc hb =>
      have hbegun := hw.hasBegun
      rw [World.hasBegun, hc, Option.any_some, hb] at hbegun
      cases hbegun
  | @looked c a us t s' hf hst hget hstep hput =>
      subst hput
      obtain ⟨_, _, hf', hscope, hkept⟩ := hw.call
      rw [hf] at hf'
      cases hf'
      have hsite : s'.now = w.now := hstep.now_eq
      have href : u.reference = t.reference := congrArg Targeted.reference hstep.target_eq
      rw [href] at hnone
      have hat := (attempt?_of_working hf hst j).trans hget
      have hon := hw.attempts j t hat
      rw [hnone, ← hscope, ← hkept] at hon
      rw [← hkept] at hpolicy
      rw [hnow, ← hsite]
      exact hstep.opens hpolicy (fun hfresh => hw.get?_eq_none hf hst hget hnone hfresh) hon
        (ho j t hat hnone)

theorem OnSchedule.opened_move (hw : w.OnSchedule env i c₀ a₀ begun) (ho : w.Opened env i a₀ begun)
    (hpolicy : 0 < a₀.policy.readinessTimeout.ceilMillis) (hm : w.Heeds i m) :
    (w.move env m).Opened env i a₀ begun := by
  by_cases htime : ∃ time, m = .advance time
  · obtain ⟨time, rfl⟩ := htime
    intro j u hu hnone
    exact (ho j u hu hnone).advance (Nat.le_max_left ..) (hw.dueTicket?_eq_none hm hu)
  · have htime : ∀ time, m ≠ .advance time := fun time h => htime ⟨time, h⟩
    exact (invariant_of_move (P := fun v => v.OnSchedule env i c₀ a₀ begun ∧
      v.Opened env i a₀ begun) (fun h hv => ⟨hv.1.step h htime hm.1,
        hv.1.opened_step hv.2 hpolicy h htime⟩) ⟨hw, ho⟩).2

theorem OnSchedule.opened_play {ms : List (Move C T)} (hw : w.OnSchedule env i c₀ a₀ begun)
    (hsleeps : ∀ j u, w.attempt? i j = some u → u.stage.Sleeps) (ho : w.Opened env i a₀ begun)
    (hpolicy : 0 < a₀.policy.readinessTimeout.ceilMillis) (hms : w.Punctual env i ms) :
    (w.play env ms).Opened env i a₀ begun :=
  (Along.invariant (P := fun v => (v.OnSchedule env i c₀ a₀ begun ∧
    ∀ j u, v.attempt? i j = some u → u.stage.Sleeps) ∧ v.Opened env i a₀ begun) hms
    (fun hm hv => ⟨hv.1.1.move hv.1.2 hm, hv.1.1.opened_move hv.2 hpolicy hm⟩)
    ⟨⟨hw, hsleeps⟩, ho⟩).2

/-- An attempt that has been looked at had its first look. -/
theorem exists_first_look {ms : List (Move C T)} (hb : w.hasBegun i) {j : Nat}
    (hw : ∀ u, w.attempt? i j = some u → u.stage = .fresh) {u : Attempt T}
    (hu : (w.play env ms).attempt? i j = some u) (hnot : u.stage ≠ .fresh) :
    ∃ ms₁ ms₂ v, ms = ms₁ ++ .look i j :: ms₂ ∧ (w.play env ms₁).attempt? i j = some v ∧
      v.stage = .fresh ∧ v.target = u.target := by
  induction ms using List.reverseRecOn generalizing u with
  | nil => exact absurd (hw u hu) hnot
  | append_singleton ms m ih =>
      rw [play_concat] at hu
      -- An earlier look is an earlier one of the longer run as well.
      have hlonger : ∀ {v : Attempt T}, (w.play env ms).attempt? i j = some v →
          v.stage ≠ .fresh → v.target = u.target → ∃ ms₁ ms₂ v',
            ms ++ [m] = ms₁ ++ .look i j :: ms₂ ∧ (w.play env ms₁).attempt? i j = some v' ∧
            v'.stage = .fresh ∧ v'.target = u.target := by
        intro v hv hnot htarget
        obtain ⟨ms₁, ms₂, v', rfl, hv', hfresh, htarget'⟩ := ih hv hnot
        exact ⟨ms₁, ms₂ ++ [m], v', by simp, hv', hfresh, htarget'.trans htarget⟩
      have hbegun : (w.play env ms).hasBegun i :=
        invariant_of_play (A := fun _ => True) (P := fun v => v.hasBegun i)
          (fun _ h hv => h.hasBegun hv) (fun _ _ => trivial) hb
      by_cases hm : m = .look i j
      · subst hm
        rcases look_cases env (w.play env ms) i j with h | ⟨c, a, as, t, hf, hs, ht, h⟩
        · rw [move, h] at hu
          exact hlonger hu hnot rfl
        · rw [move, h, attempt?_of_working (find?_put hf) rfl,
            List.getElem?_set_self (List.getElem?_eq_some_iff.1 ht).1] at hu
          cases hu
          have hat := (attempt?_of_working hf hs j).trans ht
          have htarget := Attempt.Steps.target_eq
            (Attempt.look_steps env (context a i c) t ((w.play env ms).site a))
          by_cases hfresh : t.stage = .fresh
          · exact ⟨ms, [], t, rfl, hat, hfresh, htarget.symm⟩
          · exact hlonger hat hfresh htarget.symm
      · exact hlonger (attempt?_of_move env hbegun hm hu) hnot rfl

/-- The first look at an unknown target asks for its schema, unless the call is cancelled. -/
theorem OnSchedule.look_asks (hw : w.OnSchedule env i c₀ a₀ begun)
    (hpolicy : 0 < a₀.policy.readinessTimeout.ceilMillis) {j : Nat} {u : Attempt T}
    (hu : w.attempt? i j = some u) (hfresh : u.stage = .fresh)
    (hnone : a₀.store.get? u.reference = none) (hc : w.isCancelled i = false) :
    ∃ u', (w.look env i j).attempt? i j = some u' ∧ u'.target = u.target ∧
      u'.Asks env w.now (Trace.checks (w.look env i j).trace i u.reference) := by
  obtain ⟨c, a, hf, -, hkept⟩ := hw.call
  have hget := hu
  rw [attempt?_eq, (find?_eq_some.1 hf).1, Option.bind_some, Call.attempts] at hget
  rcases hw.ends c (find?_eq_some.1 hf).1 with ⟨us, hst, -⟩ | ⟨us, e, hst, -, hlast⟩
  · rw [hst] at hget
    have hlt := (List.getElem?_eq_some_iff.1 hget).1
    rw [isCancelled_eq hf] at hc
    rw [← hkept] at hpolicy
    rw [look_eq_put hf hst hget, attempt?_of_working (find?_put hf) rfl,
      List.getElem?_set_self hlt]
    exact ⟨_, rfl, Attempt.Steps.target_eq (Attempt.look_steps ..), Attempt.look_asks hfresh
      (hw.get?_eq_none hf hst hget hnone hfresh) hc hpolicy⟩
  · rw [hst] at hget
    obtain ⟨cause, t, hdone, -⟩ := hlast.1 u (List.mem_of_getElem? hget)
    rw [hfresh] at hdone
    cases hdone

/-- What becomes of the wait for an unknown target from the turn of its call on, in a run that
ends with the attempt at some stage. -/
structure KeepsPolicy (env : Collaborators C T) (i j : Nat) (p : Policy) (x : Scope C)
    (w : World C T) (ms : List (Move C T)) (u : Attempt T) : Prop where
  overBy : u.OverBy x w.now (w.now + p.readinessTimeout.ceilMillis) ((w.begin i).play env ms).now
    ((w.begin i).play env ms).trace
  within : ∀ time ∈ Trace.checks ((w.begin i).play env ms).trace i u.reference,
    w.now ≤ time ∧ time < w.now + p.readinessTimeout.ceilMillis
  /-- When time has passed, or the attempt has ended, there has been a check at the turn. -/
  first : w.now < ((w.begin i).play env ms).now ∨ u.isDone →
    (Trace.checks ((w.begin i).play env ms).trace i u.reference).head? = some w.now ∨
      ∃ cause, u.stage = .done (some cause) w.now ∧ Attempt.Unchecked env u.reference cause
  /-- An attempt that is not fresh had its first look, at the turn. -/
  looked : u.stage ≠ .fresh → ∃ ms₁ ms₂, ms = ms₁ ++ .look i j :: ms₂ ∧
    ((w.begin i).play env ms₁).now = w.now ∧
    (((w.begin i).play env ms₁).isCancelled i = false → ∃ u',
      (((w.begin i).play env ms₁).look env i j).attempt? i j = some u' ∧ u'.target = u.target ∧
      u'.Asks env w.now
        (Trace.checks (((w.begin i).play env ms₁).look env i j).trace i u.reference))

/-- A call whose turn has come has an attempt for each of its distinct targets. -/
theorem OnSchedule.exists_attempt (hw : w.OnSchedule env i c₀ a₀ begun) {j : Nat} {t : T}
    (ht : (distinctTargets c₀.targets)[j]? = some t) :
    ∃ u, w.attempt? i j = some u ∧ u.target = t := by
  obtain ⟨c, hc, -, htargets, -⟩ := hw.serving.call
  have hcovers := hw.serving.orderly.covers c (List.mem_of_getElem? hc)
  have hmap : c.attempts.map Attempt.target = distinctTargets c₀.targets := by
    rw [← htargets, Call.attempts]
    rcases hw.ends c hc with ⟨us, hst, -⟩ | ⟨us, time, hst, -⟩ <;> rw [hst]
    · exact hcovers us (.inl hst)
    · exact hcovers us (.inr ⟨time, hst⟩)
  rw [← hmap, List.getElem?_map] at ht
  obtain ⟨u, hu, htarget⟩ := Option.map_eq_some_iff.1 ht
  exact ⟨u, by rw [attempt?_eq, hc, Option.bind_some, hu], htarget⟩

end Punctual

/-- What becomes of the wait for an unknown target in a punctual run from the turn of its call. -/
theorem keepsPolicy_of_punctual (hw : Reachable env policies w) {c : Call C T} {a : Activator}
    (hf : w.find? i = some (c, a)) (hq : c.stage = .queued) (hh : a.queue.head? = some i)
    (hadmitted : a.policy.Admitted) {ms : List (Move C T)}
    (hms : (w.begin i).Punctual env i ms) {j : Nat} {u : Attempt T}
    (hu : ((w.begin i).play env ms).attempt? i j = some u)
    (hnone : a.store.get? u.reference = none) :
    w.KeepsPolicy env i j a.policy (context a i c).scope ms u := by
  have hpolicy : 0 < a.policy.readinessTimeout.ceilMillis :=
    Nat.lt_of_lt_of_le (Duration.ceilMillis_pos hadmitted.1) (Duration.ceilMillis_mono hadmitted.2)
  obtain ⟨hbegin, hsleeps⟩ := onSchedule_begin env hw.orderly hf hq hh
  have hfresh : ∀ j u, (w.begin i).attempt? i j = some u → u.stage = .fresh :=
    fun j u => fresh_of_begin hf hq hh
  have hpaced : ∀ ms, ((w.begin i).play env ms).Paced := fun ms =>
    Reachable.paced (hw.play (.begin i :: ms))
  have hopened : (w.begin i).Opened env i a w.now := by
    intro j u hu _
    have hstage := hfresh j u hu
    obtain ⟨c', a', hf', -⟩ := hbegin.call
    rw [attempt?_eq, (find?_eq_some.1 hf').1, Option.bind_some] at hu
    rw [Attempt.Opens, hstage]
    exact (hpaced [] i c' a' j u hf' hu).fresh hstage
  obtain ⟨hv, -⟩ := hbegin.play hsleeps hms
  have hopens := hbegin.opened_play hsleeps hopened hpolicy hms j u hu hnone
  have hon := hv.attempts j u hu
  rw [hnone] at hon
  refine ⟨hon.overBy, ?_, hopens.of_later fun hst => ?_, fun hnot => ?_⟩
  · obtain ⟨c', a', hf', -, hkept⟩ := hv.call
    rw [attempt?_eq, (find?_eq_some.1 hf').1, Option.bind_some] at hu
    have hpace := hpaced ms i c' a' j u hf' hu
    rw [hkept] at hpace
    rcases hopens.head_or_nil with hhead | hnil
    · exact (Policy.keptBy_of_ticks hadmitted hpace.apart hpace.within).within_of_head hhead
    · rw [hnil]
      exact nofun
  · rw [Attempt.OnTime, hst] at hon
    exact hon
  · obtain ⟨ms₁, ms₂, v, rfl, hat, hst, htarget⟩ :=
      exists_first_look hbegin.hasBegun (hfresh j) hu hnot
    have href : v.reference = u.reference := congrArg Targeted.reference htarget
    rw [← href] at hnone
    obtain ⟨hb, -⟩ := hbegin.play hsleeps ((along_append ..).1 hms).1
    have hnow : ((w.begin i).play env ms₁).now = w.now := by
      have hon := hb.attempts j v hat
      rw [Attempt.OnTime, hst] at hon
      exact hon
    refine ⟨ms₁, ms₂, rfl, hnow, fun hc => ?_⟩
    obtain ⟨u', hu', htarget', hasks⟩ := hb.look_asks hpolicy hat hst hnone hc
    rw [hnow, href] at hasks
    exact ⟨u', hu', htarget'.trans htarget, hasks⟩

/-- Every policy that is in use is admitted and kept. In any run the checks of a target are an
interval apart, within one timeout, and no more than there are intervals in the timeout. In
every run that keeps up with the clock the wait for an unknown target is over by its deadline,
whatever its checks do; it has a check as it begins unless the call is cancelled by then. Such
runs reach any time. -/
theorem policies_kept (hmade : ∀ q ∈ policies, (Activator.new q.1 q.2).Made)
    (hw : Reachable env policies w) :
    (∀ a ∈ w.activators, a.policy.Admitted) ∧
    (∀ i c a (j : Nat) u, w.find? i = some (c, a) → w.attempt? i j = some u →
      a.policy.KeptBy (Trace.checks w.trace i u.reference)) ∧
    ∀ i c a, w.find? i = some (c, a) → w.hasTurn i → ∀ ms, (w.begin i).Punctual env i ms →
      (∀ (j : Nat) t, (distinctTargets c.targets)[j]? = some t →
        a.store.get? (reference t) = none →
        ∃ u, ((w.begin i).play env ms).attempt? i j = some u ∧ u.target = t ∧
          w.KeepsPolicy env i j a.policy (context a i c).scope ms u) ∧
      ∀ time, ∃ ms', ((w.begin i).play env ms).Punctual env i ms' ∧
        time ≤ (((w.begin i).play env ms).play env ms').now := by
  have hadmitted : ∀ a ∈ w.activators, a.policy.Admitted := by
    intro a ha
    obtain ⟨q, hq, hpolicy⟩ := hw.policy_mem ha
    rw [hpolicy]
    exact (hmade q hq).admitted
  refine ⟨hadmitted, fun i c a j u hf hu => ?_, fun i c a hf hturn ms hms => ?_⟩
  · obtain ⟨hc, ha⟩ := find?_eq_some.1 hf
    rw [attempt?_eq, hc, Option.bind_some] at hu
    have hpace := hw.paced i c a j u hf hu
    exact Policy.keptBy_of_ticks (hadmitted a (List.mem_of_getElem? ha)) hpace.apart hpace.within
  · have hpolicy := hadmitted a (List.mem_of_getElem? (find?_eq_some.1 hf).2)
    obtain ⟨c', a', hf', hq, hh⟩ := hasTurn_iff.1 hturn
    rw [hf] at hf'
    cases hf'
    obtain ⟨hbegin, hsleeps⟩ := onSchedule_begin env hw.orderly hf hq hh
    obtain ⟨hv, hvsleeps⟩ := hbegin.play hsleeps hms
    refine ⟨fun j t ht hnone => ?_, fun time => ?_⟩
    · obtain ⟨u, hu, rfl⟩ := hv.exists_attempt ht
      exact ⟨u, hu, rfl, keepsPolicy_of_punctual hw hf hq hh hpolicy hms hu hnone⟩
    · obtain ⟨ms', hms', hle⟩ := hv.keeps_up hvsleeps (Duration.ceilMillis_pos hpolicy.1) time
      exact ⟨ms', hms', Nat.le_trans (Nat.le_add_left ..) hle⟩

/-- A schema that is never ready and one whose check hangs, under a policy that is set by texts
and whose interval does not divide its timeout: the first is checked as often as it may be, and
both waits are over in time. -/
theorem policies_kept_never_ready :
    let target (version name : String) : ResourceReference :=
      ⟨"example.com", version, "Widget", name, some "default"⟩
    let env : Collaborators String ResourceReference :=
      { Collaborators.prompt with
        check := fun _ _ gv => ⟨false, if gv.version = "v2" then none else some 20, .notYet⟩ }
    let policy : Policy := ⟨.ofMillis 300, .ofSecs 1⟩
    let policies := [("authorization", policy), ("routing", policy)]
    let w := (ofActivators policies).play env
      [.submit [⟨1, "v1", [target "v1" "a", target "v2" "b"], false, none, none⟩], .join 0,
        .advance 70]
    let later := w.play env
      [.begin 0, .look 0 0, .look 0 1, .advance 90, .look 0 0, .advance 390, .look 0 0,
        .advance 410, .look 0 0, .advance 710, .look 0 0, .advance 730, .look 0 0, .advance 1030,
        .look 0 0]
    (∀ q ∈ policies, (Activator.new q.1 q.2).Made) ∧ Reachable env policies w ∧
      (∃ u, later.attempt? 0 0 = some u ∧
        Trace.checks later.trace 0 u.reference = [70, 390, 710, 1030] ∧
        policy.KeptBy (Trace.checks later.trace 0 u.reference)) ∧
      w.hasTurn 0 ∧ ∃ ms, (w.begin 0).Punctual env 0 ms ∧ ∀ j < 2, ∃ u,
        ((w.begin 0).play env ms).attempt? 0 j = some u ∧ u.stage ≠ .fresh ∧
        ∀ wait, u.stage ≠ .waiting wait := by
  intro target env policy policies w later
  have hmade : ∀ q ∈ policies, (Activator.new q.1 q.2).Made := by
    have hpolicy : Policy.ofSettings (some "300") (some "1") = .ok policy := by decide +kernel
    have hworld : Orchestrator.ofSettings (some "300") (some "1") =
        .ok (Orchestrator.start policy) := by
      rw [Orchestrator.ofSettings, hpolicy]
      rfl
    intro q hq
    exact .ofSettings hworld (List.mem_map_of_mem (f := fun q => Activator.new q.1 q.2) hq)
  have hreach : Reachable env policies w := ⟨_, rfl⟩
  have hlater : Reachable env policies later := hreach.play _
  have hturn : w.hasTurn 0 := by decide +kernel
  have hchecked : (later.attempt? 0 0).any fun u =>
      Trace.checks later.trace 0 u.reference = [70, 390, 710, 1030] := by decide +kernel
  have hserved : (later.find? 0).any fun p => p.2.policy = policy := by decide +kernel
  have hcall : (w.find? 0).any fun p => p.2.policy = policy ∧ p.2.store = [] ∧
      (distinctTargets p.1.targets).length = 2 := by decide +kernel
  clear_value later w
  refine ⟨hmade, hreach, ?_, hturn, ?_⟩
  · obtain ⟨u, hu, hchecks⟩ := (Option.any_eq_true ..).1 hchecked
    obtain ⟨⟨c, a⟩, hf, hpolicy⟩ := (Option.any_eq_true ..).1 hserved
    obtain ⟨-, hkept, -⟩ := policies_kept hmade hlater
    have hkept := hkept 0 c a 0 u hf hu
    rw [of_decide_eq_true hpolicy] at hkept
    exact ⟨u, hu, of_decide_eq_true hchecks, hkept⟩
  · obtain ⟨⟨c, a⟩, hf, hknown⟩ := (Option.any_eq_true ..).1 hcall
    obtain ⟨hpolicy, hstore, hlength⟩ := of_decide_eq_true hknown
    obtain ⟨-, -, hwaits⟩ := policies_kept hmade hreach
    have hnil : (w.begin 0).Punctual env 0 [] := trivial
    obtain ⟨-, hreaches⟩ := hwaits 0 c a hf hturn [] hnil
    -- A run that has left the deadline behind.
    obtain ⟨ms, hms, hlate⟩ := hreaches (w.now + a.policy.readinessTimeout.ceilMillis + 1)
    refine ⟨ms, hms, fun j hj => ?_⟩
    have ht := List.getElem?_eq_getElem (hlength ▸ hj)
    obtain ⟨u, hu, -, hkeeps⟩ := (hwaits 0 c a hf hturn ms hms).1 j _ ht (by rw [hstore]; rfl)
    refine ⟨u, hu, ?_⟩
    have hlate : w.now + a.policy.readinessTimeout.ceilMillis <
        ((w.begin 0).play env ms).now := hlate
    rcases hkeeps.overBy with ⟨hle, -⟩ | ⟨hfresh, hwaiting, -⟩
    · omega
    · exact ⟨hfresh, hwaiting⟩

end World

end Lifecycle
