import Lifecycle.Proofs.Sight

/-!
# The course of an attempt

What an attempt would do if nobody else did anything is its course: it is looked at
twice at every instant, and time passes by one millisecond after the other. Nobody
runs it like that. But most of these looks change nothing, and `Stage.Calm` says of
a stage and an instant that this is so. Runs that leave out such looks, or add
some, keep to the course all the same.

Two looks at an instant are always enough (`calmAt_two`), and one is unless a check
was asked for, which starts at the second. From then on the attempt is calm until
one of the instants at which it says that it can go on (`calm_until`), so a clock may
jump there. An attempt without a ticket is calm too, which is why a call with many
attempts need not look at all of them.
-/

namespace Lifecycle

variable {C T : Type}

/-! ## Attempts that have nothing to do -/

/-- Whether an attempt at a stage has nothing to do at an instant. -/
def Stage.Calm (cancelled : Bool) (now : Nat) : Stage → Prop
  | .fresh => False
  | .waiting w => cancelled = false ∧
    match w.phase with
    | .due | .asked => False
    | .inFlight check since => now < w.deadline ∧ check.endsBy since now = false
    | .resting wake => now < wake
  | .registering _ _ rest since => ∃ millis interrupted next,
    rest = .sleep millis interrupted next ∧ ¬ (cancelled ∧ interrupted.isSome) ∧
      ∀ d, millis = some d → now < since + d
  | .done .. => True

/-- Whether a registration has come to a sleep. -/
def Stage.Sleeps : Stage → Prop
  | .registering _ _ rest _ => ∃ millis interrupted next, rest = .sleep millis interrupted next
  | _ => True

/-- Whoever has nothing to do, cancelled or not, has nothing to do if he is not. -/
theorem Stage.Calm.mono {st : Stage} {c c' : Bool} {now : Nat} (h : st.Calm c now)
    (hc : c' → c) : st.Calm c' now := by
  cases st with
  | waiting w =>
      obtain ⟨rfl, h⟩ := h
      exact ⟨Bool.eq_false_iff.2 fun hc' => Bool.false_ne_true (hc hc'), h⟩
  | registering c free rest since =>
      obtain ⟨millis, interrupted, next, heq, hcalm, hd⟩ := h
      exact ⟨millis, interrupted, next, heq, fun h' => hcalm ⟨hc h'.1, h'.2⟩, hd⟩
  | _ => exact h

theorem Stage.Calm.sleeps {st : Stage} {cancelled : Bool} {now : Nat} (h : st.Calm cancelled now) :
    st.Sleeps := by
  cases st with
  | registering c free rest since =>
      obtain ⟨millis, interrupted, next, h, -⟩ := h
      exact ⟨millis, interrupted, next, h⟩
  | _ => trivial

namespace Wait

/-- A wait that stays after a check has nothing to do. -/
theorem calm_of_answer {w w' : Wait Fault} {check : Check Fault} {since now : Nat} {c : Bool}
    (hw : 0 < w.interval) (hd : now < w.deadline) (h : w.answer check since c now = .stay w') :
    (Stage.waiting w').Calm false now := by
  unfold answer at h
  split at h
  · split at h
    · cases h
    · cases h
    · unfold rest at h
      rw [if_neg (Nat.not_le.2 hd)] at h
      split at h
      · cases h
      cases h
      refine ⟨rfl, ?_⟩
      show now < min (now + w.interval) w.deadline
      omega
  · next he =>
      cases h
      exact ⟨rfl, hd, by simpa using he⟩

theorem calm_of_turn {w w' : Wait Fault} {c : Bool} {now : Nat} (hw : 0 < w.interval)
    (h : w.turn c now = .stay w') : (Stage.waiting w').Calm c now := by
  cases c with
  | true =>
      rw [turn_of_cancelled] at h
      cases h
  | false =>
      unfold turn at h
      simp only [Bool.false_eq_true, if_false] at h
      split at h
      · next wake hp =>
          split at h
          · next hlt =>
              cases h
              refine ⟨rfl, ?_⟩
              rw [hp]
              exact hlt
          · split at h <;> cases h
      · split at h <;> cases h
      · split at h <;> cases h
      · split at h
        · cases h
        · next hd => exact calm_of_answer hw (Nat.lt_of_not_le hd) h

end Wait

variable [Targeted T]

namespace Attempt

section Calm

variable {env : Collaborators C T} {x : Context C} {a : Attempt T} {s : Site C T}

omit [Targeted T] in
/-- What is done is not asked for, and calm. -/
theorem calm_of_isDone (h : a.isDone) (c : Bool) (now : Nat) : a.stage.Calm c now := by
  obtain ⟨cause, time, h⟩ := isDone_iff.1 h
  rw [h]
  trivial

omit [Targeted T] in
theorem hasAsked_of_calm {c : Bool} {now : Nat} (h : a.stage.Calm c now) : a.hasAsked = false := by
  unfold hasAsked
  split
  · next w hst =>
      rw [hst] at h
      split
      · next hp =>
          simp only [Stage.Calm, hp] at h
          exact h.2.elim
      · rfl
  · rfl

/-- Nothing comes of a look at an attempt that has nothing to do. -/
theorem look_of_calm (env : Collaborators C T) (h : a.stage.Calm (s.cancelled x) s.now) :
    look env x a s = (a, s) := by
  have hpoll : poll env x a s = (a, s) := by
    have hself : ∀ {st}, a.stage = st → ({ a with stage := st } : Attempt T) = a := by
      rintro _ rfl
      rfl
    rw [poll]
    cases hst : a.stage with
    | fresh => simp [Stage.Calm, hst] at h
    | done => rfl
    | waiting w =>
        simp only [Stage.Calm, hst] at h
        obtain ⟨hc, h⟩ := h
        dsimp only
        cases hp : w.phase with
        | due | asked => simp [hp] at h
        | inFlight check since =>
            rw [hp] at h
            have hturn : w.turn false s.now = .stay w := by
              simp only [Wait.turn, hp, Bool.false_eq_true, if_false, if_neg (Nat.not_le.2 h.1),
                Wait.answer, h.2]
              rw [← hp]
            have hnone : w.findingAt? false s.now = none := by
              simp [Wait.findingAt?, hp, h.2]
            rw [awaitSchema, hc, hturn, hnone]
            dsimp only [afterTurn, noteFinding]
            rw [hself hst]
        | resting wake =>
            rw [hp] at h
            have hturn : w.turn false s.now = .stay w := by
              simp only [Wait.turn, hp, Bool.false_eq_true, if_false, if_pos h]
            have hnone : w.findingAt? false s.now = none := by
              simp [Wait.findingAt?, hp]
            rw [awaitSchema, hc, hturn, hnone]
            dsimp only [afterTurn, noteFinding]
            rw [hself hst]
    | registering c free rest since =>
        simp only [Stage.Calm, hst] at h
        obtain ⟨millis, interrupted, next, rfl, hc, hd⟩ := h
        have hrun : Registration.run x c a.reference (.sleep millis interrupted next) (some since) s =
            (.pending (.sleep millis interrupted next) since, s) := by
          rw [Registration.run.eq_def]
          simp only [Option.getD_some, if_neg hc]
          cases millis with
          | none => rfl
          | some d => simp only [if_neg (Nat.not_le.2 (hd d rfl))]
        dsimp only [register]
        rw [hrun]
        dsimp only
        rw [hself hst]
  rw [look]
  simp only [hpoll, if_true]

theorem register_calm (x : Context C) (a : Attempt T) (c : String) (free : Bool)
    (rest : Registration) (since : Option Nat) (s : Site C T) :
    (register x a c free rest since s).1.stage.Calm
      ((register x a c free rest since s).2.cancelled x) (register x a c free rest since s).2.now := by
  unfold register
  cases hrun : rest.run x c a.reference since s with
  | mk p s' =>
      cases p with
      | ended fault => exact calm_of_isDone (settle_isDone ..) ..
      | pending rest' since' => exact (Registration.waits_of_run rest hrun).sleeps

theorem afterWait_calm (env : Collaborators C T) (x : Context C) (a : Attempt T) (s : Site C T)
    (o : Outcome Fault) : (afterWait env x a s o).1.stage.Calm
      ((afterWait env x a s o).2.cancelled x) (afterWait env x a s o).2.now := by
  cases o with
  | ready => exact register_calm ..
  | _ => trivial

/-- What a look leaves of an attempt of a call that was cancelled before or not: it has
nothing more to do at the instant, unless it has asked for a check just now. -/
def Rests (x : Context C) (c : Bool) (a : Attempt T) (p : Attempt T × Site C T) : Prop :=
  p.1.stage.Calm (c && p.2.cancelled x) p.2.now ∨ p.1.hasAsked ∧ a.hasAsked = false

theorem afterWait_rests {c : Bool} (o : Outcome Fault) : Rests x c a (afterWait env x a s o) :=
  .inl ((afterWait_calm env x a s o).mono fun h => (Bool.and_eq_true_iff.1 h).2)

theorem afterTurn_rests {c : Bool} {turn : Wait.Turn Fault} (hask : turn ≠ .ask)
    (hstay : ∀ w, turn = .stay w → (Stage.waiting w).Calm c s.now) :
    Rests x c a (afterTurn env x a s turn) := by
  cases turn with
  | stay w => exact .inl ((hstay w rfl).mono fun h => (Bool.and_eq_true_iff.1 h).1)
  | ask => exact absurd rfl hask
  | _ => exact afterWait_rests _

section Wait

variable {w : Wait Fault} (hw : 0 < w.interval) (ha : w.phase ≠ .asked → a.hasAsked = false)

include hw ha

theorem makeCheck_rests (ht : w.turn (s.cancelled x) s.now = .ask) :
    Rests x (s.cancelled x) a (makeCheck env x a w s) := by
  obtain ⟨hc, hd⟩ := Wait.lt_deadline_of_turn_eq_ask ht
  unfold makeCheck
  dsimp only
  split
  · exact afterWait_rests _
  · split
    · next h => exact .inr ⟨rfl, ha h.2⟩
    · refine afterTurn_rests answer_ne_ask fun w' h => ?_
      have hnow : (startCheck env x a.reference s).2.now = s.now := rfl
      rw [noteFinding_now, hnow] at h ⊢
      rw [hc]
      exact Wait.calm_of_answer hw hd h

theorem awaitSchema_rests : Rests x (s.cancelled x) a (awaitSchema env x a w s) := by
  unfold awaitSchema
  split
  · next ht => exact makeCheck_rests hw ha ht
  · next hne =>
      refine afterTurn_rests (fun h => hne h) fun w' h => ?_
      rw [noteFinding_now]
      exact Wait.calm_of_turn hw h

end Wait

theorem look_rests (hpolicy : 0 < x.policy.pollInterval.ceilMillis)
    (hw : ∀ w, a.stage = .waiting w → 0 < w.interval) :
    Rests x (s.cancelled x) a (look env x a s) := by
  obtain ⟨_, _, _, hlook⟩ := look_eq env x a s
  suffices h : Rests x (s.cancelled x) a (poll env x a s) by
    rw [hlook]
    exact h
  rw [poll]
  cases hst : a.stage with
  | done => exact .inl (calm_of_isDone (by simp [isDone, hst]) ..)
  | registering =>
      exact .inl ((register_calm ..).mono fun h => (Bool.and_eq_true_iff.1 h).2)
  | waiting w =>
      refine awaitSchema_rests (hw w hst) fun hp => ?_
      simp only [hasAsked, hst]
  | fresh =>
      dsimp only
      split
      · exact .inl trivial
      · exact awaitSchema_rests hpolicy fun _ => by simp [hasAsked, hst]

end Calm

/-! ## When an attempt has something to do -/

omit [Targeted T] in
/-- What is calm stays so until one of the instants at which it can go on. -/
theorem calm_until {a : Attempt T} {c : Bool} {now time : Nat} (h : a.stage.Calm c now)
    (hwake : ∀ t ∈ a.wakes, now < t → time < t) : a.stage.Calm c time := by
  cases hst : a.stage with
  | fresh => simp [Stage.Calm, hst] at h
  | done => trivial
  | waiting w =>
      simp only [Stage.Calm, hst] at h
      simp only [wakes, hst] at hwake
      refine ⟨h.1, ?_⟩
      replace h := h.2
      unfold Wait.wakes at hwake
      cases hp : w.phase with
      | due | asked => simp [hp] at h
      | resting wake =>
          rw [hp] at h hwake
          exact hwake wake (List.mem_singleton_self _) h
      | inFlight check since =>
          rw [hp] at h hwake
          dsimp only at hwake
          refine ⟨hwake _ (List.mem_cons_self ..) h.1, ?_⟩
          obtain ⟨-, he⟩ := h
          unfold Check.endsBy at he ⊢
          cases hd : check.duration with
          | none => rfl
          | some d =>
              rw [hd] at he hwake
              simp only [Option.any_some, decide_eq_false_iff_not, Nat.not_le] at he ⊢
              exact hwake _ (by simp) he
  | registering controller free rest since =>
      simp only [Stage.Calm, hst] at h
      obtain ⟨millis, interrupted, next, rfl, hc, hd⟩ := h
      refine ⟨millis, interrupted, next, rfl, hc, ?_⟩
      rintro d rfl
      exact hwake _ (by simp [wakes, hst]) (hd d rfl)

omit [Targeted T] in
/-- An attempt that has no turn at an instant has nothing to do at it. -/
theorem calm_of_dueTicket? {a : Attempt T} {c : Bool} {now : Nat} (hs : a.stage.Sleeps)
    (hdue : dueTicket? now a = none) (hwatch : c → watchTicket? a = none) :
    a.stage.Calm c now := by
  cases hst : a.stage with
  | fresh => simp [dueTicket?, hst] at hdue
  | done => trivial
  | waiting w =>
      simp only [dueTicket?, hst] at hdue
      refine ⟨?_, ?_⟩
      · cases c with
        | false => rfl
        | true => simp [watchTicket?, hst] at hwatch
      · cases hp : w.phase with
        | due | asked => simp [hp] at hdue
        | resting wake => simpa [hp] using hdue
        | inFlight check since =>
            rw [hp] at hdue
            dsimp only at hdue
            split at hdue
            · cases hdue
            · next hd =>
                split at hdue
                · cases hdue
                · next he => exact ⟨Nat.lt_of_not_le hd, by simpa using he⟩
  | registering controller free rest since =>
      simp only [Stage.Sleeps, hst] at hs
      obtain ⟨millis, interrupted, next, rfl⟩ := hs
      refine ⟨millis, interrupted, next, rfl, ?_, ?_⟩
      · rintro ⟨hc, hi⟩
        obtain ⟨fault, rfl⟩ := Option.isSome_iff_exists.1 hi
        have h := hwatch hc
        simp [watchTicket?, hst] at h
      · rintro d rfl
        simpa [dueTicket?, hst] using hdue

end Attempt

/-! ## The course -/

omit [Targeted T] in
/-- The context of a call as it is at an instant, if its caller cancels it at another. -/
def Context.asOf (x : Context C) (cancelAt : Option Nat) (now : Nat) : Context C :=
  { x with cancelled := x.cancelled || cancelAt.any (· ≤ now) }

/-- An attempt and its site after a number of looks. -/
def Attempt.looks (env : Collaborators C T) (x : Context C) (p : Attempt T × Site C T) :
    Nat → Attempt T × Site C T
  | 0 => p
  | n + 1 => (looks env x p n).1.look env x (looks env x p n).2

/-- What an attempt for a target and its site come to, if it is looked at twice at every
instant and nobody else does anything: after a number of milliseconds, and after a number
of looks at that instant. -/
def course (env : Collaborators C T) (x : Context C) (cancelAt : Option Nat) (t : T)
    (s : Site C T) : Nat → Nat → Attempt T × Site C T
  | 0, n => Attempt.looks env (x.asOf cancelAt s.now) (.begin t, s) n
  | d + 1, n =>
    let p := course env x cancelAt t s d 2
    Attempt.looks env (x.asOf cancelAt (s.now + (d + 1)))
      (p.1, { p.2 with now := s.now + (d + 1) }) n

section Course

variable {env : Collaborators C T} {x : Context C} {cancelAt : Option Nat} {t : T} {s : Site C T}

theorem course_look (d n : Nat) : course env x cancelAt t s d (n + 1) =
    (course env x cancelAt t s d n).1.look env (x.asOf cancelAt (s.now + d))
      (course env x cancelAt t s d n).2 := by
  cases d <;> rfl

theorem course_succ (d : Nat) : course env x cancelAt t s (d + 1) 0 =
    ((course env x cancelAt t s d 2).1,
      { (course env x cancelAt t s d 2).2 with now := s.now + (d + 1) }) := rfl

/-- What holds at the beginning, is kept by looks and does not depend on the time holds
all along. -/
theorem course_induction {P : Attempt T × Site C T → Prop} (h₀ : P (.begin t, s))
    (hlook : ∀ time p, P p → P (p.1.look env (x.asOf cancelAt time) p.2))
    (htime : ∀ time p, P p → P (p.1, { p.2 with now := time })) (d n : Nat) :
    P (course env x cancelAt t s d n) := by
  have hlooks : ∀ d, P (course env x cancelAt t s d 0) → ∀ n, P (course env x cancelAt t s d n) := by
    intro d hd n
    induction n with
    | zero => exact hd
    | succ n ih =>
        rw [course_look]
        exact hlook _ _ ih
  induction d generalizing n with
  | zero => exact hlooks 0 h₀ n
  | succ d ih => exact hlooks (d + 1) (htime _ _ (ih 2)) n

@[simp] theorem course_now (d n : Nat) : (course env x cancelAt t s d n).2.now = s.now + d := by
  induction n with
  | zero => cases d <;> rfl
  | succ n ih =>
      rw [course_look]
      exact (Attempt.Steps.now_eq (Attempt.look_steps ..)).trans ih

@[simp] theorem course_target (d n : Nat) : (course env x cancelAt t s d n).1.target = t :=
  course_induction (P := fun p => p.1.target = t) rfl
    (fun _ _ h => (Attempt.Steps.target_eq (Attempt.look_steps ..)).trans h) (fun _ _ h => h) d n

/-- Whether an attempt has nothing to do at a place of its course. -/
def CalmAt (env : Collaborators C T) (x : Context C) (cancelAt : Option Nat) (t : T)
    (s : Site C T) (d n : Nat) : Prop :=
  (course env x cancelAt t s d n).1.stage.Calm (s.cancelled (x.asOf cancelAt (s.now + d)))
    (s.now + d)

variable {targets : List T}
  (henv : env.Independent x.scope.activator x.scope.capability x.scope.config targets)
  (hpolicy : 0 < x.policy.pollInterval.ceilMillis) (ht : t ∈ targets) (cancelAt : Option Nat)
  (s : Site C T)

include henv hpolicy ht

theorem course_spared (d n : Nat) :
    (course env x cancelAt t s d n).1.Tidy (env.Bears x.scope.capability x.scope.config t) ∧
      (course env x cancelAt t s d n).2.fired = s.fired := by
  refine (course_induction (P := fun p => p.1.target = t ∧
    p.1.Tidy (env.Bears x.scope.capability x.scope.config t) ∧ p.2.fired = s.fired)
    ⟨rfl, ⟨nofun, nofun, nofun⟩, rfl⟩ (fun time p h => ?_) (fun _ _ h => h) d n).2
  obtain ⟨rfl, htidy, hf⟩ := h
  have hspared := Attempt.look_spared (x := x.asOf cancelAt time) henv hpolicy ht p.2 htidy
  exact ⟨Attempt.Steps.target_eq (Attempt.look_steps ..), hspared.1, hspared.2.1.trans hf⟩

theorem cancelled_course (d n time : Nat) :
    (course env x cancelAt t s d n).2.cancelled (x.asOf cancelAt time) =
      s.cancelled (x.asOf cancelAt time) := by
  rw [Site.cancelled, Site.cancelled, (course_spared henv hpolicy ht cancelAt s d n).2]

/-- After a look an attempt has nothing to do, unless it has asked for a check. -/
theorem course_rests (d n : Nat) : CalmAt env x cancelAt t s d (n + 1) ∨
    (course env x cancelAt t s d (n + 1)).1.hasAsked ∧
      (course env x cancelAt t s d n).1.hasAsked = false := by
  have htidy := (course_spared henv hpolicy ht cancelAt s d n).1
  have hrests : (course env x cancelAt t s d n).1.Rests (x.asOf cancelAt (s.now + d))
      ((course env x cancelAt t s d n).2.cancelled (x.asOf cancelAt (s.now + d)))
      (course env x cancelAt t s d (n + 1)) := by
    rw [course_look]
    exact Attempt.look_rests hpolicy htidy.paced
  refine hrests.imp (fun h => ?_) id
  rwa [cancelled_course henv hpolicy ht, cancelled_course henv hpolicy ht, Bool.and_self,
    course_now] at h

variable {cancelAt s}

theorem course_of_calmAt {d n m : Nat} (h : CalmAt env x cancelAt t s d n) (hm : n ≤ m) :
    course env x cancelAt t s d m = course env x cancelAt t s d n := by
  induction hm with
  | refl => rfl
  | step _ ih =>
      rw [course_look, ih]
      refine Attempt.look_of_calm env ?_
      rw [cancelled_course henv hpolicy ht, course_now]
      exact h

variable (cancelAt s) in
/-- Two looks at an instant are enough. -/
theorem calmAt_two (d : Nat) : CalmAt env x cancelAt t s d 2 := by
  rcases course_rests henv hpolicy ht cancelAt s d 1 with h | ⟨-, hn⟩
  · exact h
  · rcases course_rests henv hpolicy ht cancelAt s d 0 with h | ⟨h, -⟩
    · have h₂ := course_of_calmAt henv hpolicy ht h (Nat.le_succ 1)
      rw [CalmAt, h₂]
      exact h
    · rw [h] at hn
      cases hn

theorem calmAt_of_le {d n m : Nat} (h : CalmAt env x cancelAt t s d n) (hm : n ≤ m) :
    CalmAt env x cancelAt t s d m := by
  rw [CalmAt, course_of_calmAt henv hpolicy ht h hm]
  exact h

/-- An attempt that has come to rest stands as it does at the end of the instant. -/
theorem course_eq_two {d n : Nat} (h : CalmAt env x cancelAt t s d n) :
    course env x cancelAt t s d n = course env x cancelAt t s d 2 := by
  rcases Nat.le_total n 2 with hn | hn
  · exact (course_of_calmAt henv hpolicy ht h hn).symm
  · exact course_of_calmAt henv hpolicy ht (calmAt_two henv hpolicy ht cancelAt s d) hn

/-- As long as an attempt has nothing to do, time passes and nothing else. -/
theorem course_of_calm {d n d' : Nat} (hd : d < d') (h : CalmAt env x cancelAt t s d n)
    (hcalm : ∀ e, d ≤ e → e < d' → (course env x cancelAt t s d n).1.stage.Calm
      (s.cancelled (x.asOf cancelAt (s.now + e))) (s.now + e)) :
    course env x cancelAt t s d' 0 = ((course env x cancelAt t s d n).1,
      { (course env x cancelAt t s d n).2 with now := s.now + d' }) := by
  induction hd with
  | refl => rw [course_eq_two henv hpolicy ht h, course_succ]
  | @step e hd ih =>
      have ih := ih fun e' he he' => hcalm e' he (Nat.lt_succ_of_lt he')
      have hrest : CalmAt env x cancelAt t s e 0 := by
        rw [CalmAt, ih]
        exact hcalm e (Nat.le_of_lt hd) (Nat.lt_succ_self e)
      have htwo := course_of_calmAt henv hpolicy ht hrest (Nat.zero_le 2)
      rw [course_succ, htwo, ih]

/-- What is done stays done, and nothing more is done about it. -/
theorem course_of_isDone {d n d' n' : Nat} (h : (course env x cancelAt t s d n).1.isDone)
    (hle : d < d' ∨ d = d' ∧ n ≤ n') :
    course env x cancelAt t s d' n' = ((course env x cancelAt t s d n).1,
      { (course env x cancelAt t s d n).2 with now := s.now + d' }) := by
  have hcalm : CalmAt env x cancelAt t s d n := Attempt.calm_of_isDone h ..
  rcases hle with hd | ⟨rfl, hn⟩
  · have hstart := course_of_calm henv hpolicy ht hd hcalm fun _ _ _ => Attempt.calm_of_isDone h ..
    have hrest : CalmAt env x cancelAt t s d' 0 := by
      rw [CalmAt, hstart]
      exact Attempt.calm_of_isDone h ..
    rw [course_of_calmAt henv hpolicy ht hrest (Nat.zero_le n'), hstart]
  · have hnow : (course env x cancelAt t s d n).2.now = s.now + d := course_now d n
    rw [course_of_calmAt henv hpolicy ht hcalm hn, ← hnow]

variable (cancelAt s) in
/-- A registration is looked at again when it has come to a sleep. -/
theorem course_sleeps (d n : Nat) : (course env x cancelAt t s d n).1.stage.Sleeps := by
  cases n with
  | zero =>
      cases d with
      | zero => trivial
      | succ d =>
          rw [course_succ]
          exact Stage.Calm.sleeps (calmAt_two henv hpolicy ht cancelAt s d)
  | succ n =>
      rcases course_rests henv hpolicy ht cancelAt s d n with h | ⟨h, -⟩
      · exact Stage.Calm.sleeps h
      · unfold Attempt.hasAsked at h
        split at h
        · next hw =>
            rw [hw]
            trivial
        · cases h

end Course

end Lifecycle
