import Lifecycle.Proofs.Passes

/-!
# Targets do not get in each other's way

A call attempts all its targets side by side, and each of them fares as it would
fare alone: `targets_are_isolated`. It ends with the same cause at the same instant,
or in neither case at all, however long another one hangs, and whatever becomes of
the others. So the order of the targets shows in the order of the causes only.

The two calls need not have the same passes, as the clock stops for the sake of
every attempt there is. They are not compared with each other, but each with the
courses of its targets, which do not depend on what else is attempted: what is
done at a place of its course is done at every later one (`alike_of_isDone`), and
enough passes come by every place (`exists_onCourse`).
-/

namespace Lifecycle

variable {C T : Type} [Targeted T]

namespace World

/-- A world after a number of passes for a request that was made to it. -/
def serve (env : Collaborators C T) (q : Request C T) (n : Nat) (w : World C T) : World C T :=
  run env [q.plan w.now] n (w.submit [q.call])

theorem round_eq_serve (env : Collaborators C T) (patience : Nat) (q : Request C T)
    (w : World C T) : w.round env patience [q] = w.serve env q (w.passes [q] patience) := rfl

theorem run_succ (env : Collaborators C T) (plans : List Plan) (n : Nat) (w : World C T) :
    run env plans (n + 1) w =
      if (w.pass env plans).2 then run env plans n (w.pass env plans).1
      else (w.pass env plans).1 := by
  rw [run]
  split
  · next h => rw [h, if_pos rfl]
  · next h => rw [h, if_neg Bool.false_ne_true]

section Serve

variable {env : Collaborators C T} {q : Request C T} {w : World C T} {a : Activator}
  (hrest : w.AtRest q.activator) (hpolicy : 0 < a.policy.pollInterval.ceilMillis)
  (hdrop : q.dropAt = none)
  (henv : env.Independent q.activator a.capability q.config (distinctTargets q.targets))

include hrest hpolicy hdrop henv

/-- After any number of passes a call is at work, or has come to its end. -/
theorem served_of_passed (n : Nat) : ∀ {d m : Nat} {v : World C T},
    Passed env q w a d m (v.pass env [q.plan w.now]) →
      (∃ d' m', Underway env q w a d' m' (run env [q.plan w.now] (n + 1) v)) ∨
        ∃ d', Ended env q w a d' (run env [q.plan w.now] (n + 1) v) ∨
          Stuck env q w a d' (run env [q.plan w.now] (n + 1) v) := by
  induction n with
  | zero =>
      intro d m v hpass
      rw [run_succ, run, ite_self]
      rcases hpass with ⟨-, h⟩ | ⟨-, ⟨-, h⟩ | ⟨d', -, h⟩⟩
      · exact .inr ⟨d, h⟩
      · exact .inl ⟨d, 1, h⟩
      · exact .inl ⟨d', 0, h⟩
  | succ n ih =>
      intro d m v hpass
      rw [run_succ]
      rcases hpass with ⟨hmore, h⟩ | ⟨hmore, ⟨-, h⟩ | ⟨d', -, h⟩⟩
      · rw [hmore, if_neg Bool.false_ne_true]
        exact .inr ⟨d, h⟩
      · rw [if_pos hmore]
        exact ih (h.pass henv hpolicy hrest hdrop)
      · rw [if_pos hmore]
        exact ih (h.pass henv hpolicy hrest hdrop)

/-- After enough passes a call is at work at a later instant, or has come to its end. -/
theorem exists_of_passed (e : Nat) {d m : Nat} {v : World C T}
    (hpass : Passed env q w a d m (v.pass env [q.plan w.now])) :
    ∃ n, (∃ d' > e, ∃ m', Underway env q w a d' m' (run env [q.plan w.now] n v)) ∨
      ∃ d', Ended env q w a d' (run env [q.plan w.now] n v) ∨
        Stuck env q w a d' (run env [q.plan w.now] n v) := by
  -- A pass makes the time go on, or is the first one of two at its instant.
  induction hk : 2 * (e + 1 - d) + (1 - m) using Nat.strongRecOn generalizing d m v with
  | ind k ih =>
      have hnext : ∀ {d' m' : Nat}, (v.pass env [q.plan w.now]).2 = true →
          Underway env q w a d' m' (v.pass env [q.plan w.now]).1 →
          (d' ≤ e → 2 * (e + 1 - d') + (1 - m') < k) →
          ∃ n, (∃ d' > e, ∃ m', Underway env q w a d' m' (run env [q.plan w.now] n v)) ∨
            ∃ d', Ended env q w a d' (run env [q.plan w.now] n v) ∨
              Stuck env q w a d' (run env [q.plan w.now] n v) := by
        intro d' m' hmore h hlt
        have hrun : ∀ n, run env [q.plan w.now] (n + 1) v =
            run env [q.plan w.now] n (v.pass env [q.plan w.now]).1 := by
          intro n
          rw [run_succ, if_pos hmore]
        by_cases hd : e < d'
        · refine ⟨1, .inl ⟨d', hd, m', ?_⟩⟩
          rw [hrun]
          exact h
        · obtain ⟨n, hn⟩ := ih _ (hlt (Nat.le_of_not_lt hd)) (h.pass henv hpolicy hrest hdrop) rfl
          refine ⟨n + 1, ?_⟩
          rw [hrun]
          exact hn
      rcases hpass with ⟨hmore, h⟩ | ⟨hmore, ⟨rfl, h⟩ | ⟨d', hd', h⟩⟩
      · refine ⟨1, .inr ⟨d, ?_⟩⟩
        rw [run_succ, hmore, if_neg Bool.false_ne_true]
        exact h
      · exact hnext hmore h (by omega)
      · exact hnext hmore h (by omega)

variable (ha : w.activators[q.activator]? = some a)

include ha

theorem serve_cases (n : Nat) : n = 0 ∨
    (∃ d m, Underway env q w a d m (w.serve env q n)) ∨
      ∃ d, Ended env q w a d (w.serve env q n) ∨ Stuck env q w a d (w.serve env q n) := by
  cases n with
  | zero => exact .inl rfl
  | succ n =>
      exact .inr (served_of_passed hrest hpolicy hdrop henv n
        (pass_submit henv hpolicy hrest hdrop ha))

theorem exists_serve (e : Nat) :
    ∃ n, (∃ d > e, ∃ m, Underway env q w a d m (w.serve env q n)) ∨
      ∃ d, Ended env q w a d (w.serve env q n) ∨ Stuck env q w a d (w.serve env q n) :=
  exists_of_passed hrest hpolicy hdrop henv e (pass_submit henv hpolicy hrest hdrop ha)

end Serve

/-! ## What becomes of an attempt -/

section Outcome

variable {env : Collaborators C T} {q : Request C T} {w v : World C T} {a b : Activator} {d : Nat}
  {n : Nat → Nat} {c : Call C T}
  (hpolicy : 0 < a.policy.pollInterval.ceilMillis)
  (henv : env.Independent q.activator a.capability q.config (distinctTargets q.targets))

theorem OnCourse.attempt?_eq (h : OnCourse env q w a d n c b v) (j : Nat) :
    v.attempt? w.calls.length j = c.attempts[j]? := by
  rw [attempt?, h.attempts_eq]

theorem OnCourse.exists_attempt (h : OnCourse env q w a d n c b v) {j : Nat} {t : T}
    (ht : (distinctTargets q.targets)[j]? = some t) :
    ∃ u, c.attempts[j]? = some u ∧ u.target = t := by
  rw [← h.targets, List.getElem?_map] at ht
  exact Option.map_eq_some_iff.1 ht

include hpolicy henv

/-- What is done stands as at any later place of its course. -/
theorem OnCourse.alike_of_isDone (h : OnCourse env q w a d n c b v) {j : Nat} {u : Attempt T}
    (hu : c.attempts[j]? = some u) (hd : u.isDone) {e : Nat} (he : d < e) (m : Nat) :
    Attempt.Alike (env.Bears a.capability q.config u.target) q.activator u.reference
      (q.course env w a u.target e m) (u, { v.site b with now := w.now + e }) := by
  obtain ⟨ht, hst, hsite⟩ := h.alike j u hu
  have hdone : (q.course env w a u.target d (n j)).1.isDone := by
    rwa [← Attempt.isDone_congr hst]
  rw [Request.course, course_of_isDone (x := q.contextIn w a) henv hpolicy (h.mem_targets hu) hdone
    (.inl he)]
  exact ⟨ht, hst, rfl, hsite.fired, hsite.registry, hsite.store, hsite.trace⟩

/-- An attempt is done when its course is. -/
theorem OnCourse.isDone_of_course (h : OnCourse env q w a d n c b v) {j : Nat} {u : Attempt T}
    (hu : c.attempts[j]? = some u) {e m : Nat} (he : (q.course env w a u.target e m).1.isDone)
    (hle : e < d) : u.isDone := by
  rw [Attempt.isDone_congr (h.alike j u hu).stage]
  unfold Request.course at he ⊢
  rw [course_of_isDone (x := q.contextIn w a) henv hpolicy (h.mem_targets hu) he (.inl hle)]
  exact he

variable (hrest : w.AtRest q.activator) (ha : w.activators[q.activator]? = some a)
  (hdrop : q.dropAt = none)

include hrest ha hdrop

/-- Sooner or later every attempt is done whose course is done by some instant. -/
theorem exists_onCourse (e : Nat) : ∃ n d m c b, OnCourse env q w a d m c b (w.serve env q n) ∧
    (∀ (j : Nat) u, c.attempts[j]? = some u → (q.course env w a u.target e 2).1.isDone →
      u.isDone) ∧ (c.isOver ∨ ∃ u ∈ c.attempts, u.isDone = false) := by
  obtain ⟨n, ⟨d, hd, m, h⟩ | ⟨d, h | h⟩⟩ := exists_serve hrest hpolicy hdrop henv ha e
  · obtain ⟨m', c, b, as, h, hs, hall, -⟩ := h.working
    have has : c.attempts = as := by rw [Call.attempts, hs]
    refine ⟨n, d, m', c, b, h, fun j u hu he => h.isDone_of_course hpolicy henv hu he hd, .inr ?_⟩
    rw [has]
    simpa using List.all_eq_false.1 hall
  · obtain ⟨m', c, b, as, h, hs, hall⟩ := h.ended
    have has : c.attempts = as := by rw [Call.attempts, hs]
    refine ⟨n, d, m', c, b, h, fun j u hu _ => ?_, .inl (by simp [Call.isOver, hs])⟩
    exact List.all_eq_true.1 hall u (has ▸ List.mem_of_getElem? hu)
  · obtain ⟨m', c, b, as, h, hs, hall, hstuck⟩ := h.working
    have has : c.attempts = as := by rw [Call.attempts, hs]
    refine ⟨n, d, m', c, b, h, fun j u hu he => hstuck j u (has ▸ hu) e he, .inr ?_⟩
    rw [has]
    simpa using List.all_eq_false.1 hall

/-- After some passes the call is on its course, and at work or at its end. -/
theorem serve_onCourse {n : Nat} {c : Call C T}
    (hc : (w.serve env q n).calls[w.calls.length]? = some c) : c = q.call ∨
    ∃ d m b as, OnCourse env q w a d m c b (w.serve env q n) ∧ (c.stage = .working as ∨
      c.stage = .ended as (w.now + d) ∧ as.all Attempt.isDone ∧
        (d = 0 ∨ ∃ t ∈ distinctTargets q.targets, (q.course env w a t d 0).1.isDone = false)) := by
  have hsame : ∀ {d m b c'}, OnCourse env q w a d m c' b (w.serve env q n) → c' = c := by
    intro d m b c' h
    rw [h.call] at hc
    exact Option.some.inj hc
  rcases serve_cases hrest hpolicy hdrop henv ha n with rfl | ⟨d, m, h⟩ | ⟨d, h | h⟩
  · have hfresh : (w.serve env q 0).calls[w.calls.length]? = some q.call := by
      simp [serve, run, submit]
    rw [hfresh] at hc
    exact .inl (Option.some.inj hc).symm
  · obtain ⟨m', c', b, as, h, hs, -⟩ := h.working
    obtain rfl := hsame h
    exact .inr ⟨d, m', b, as, h, .inl hs⟩
  · have hfirst := h.first
    obtain ⟨m', c', b, as, h, hs, hall⟩ := h.ended
    obtain rfl := hsame h
    exact .inr ⟨d, m', b, as, h, .inr ⟨hs, hall, hfirst⟩⟩
  · obtain ⟨m', c', b, as, h, hs, -⟩ := h.working
    obtain rfl := hsame h
    exact .inr ⟨d, m', b, as, h, .inl hs⟩

/-- Whatever is done after some passes is on its course. -/
theorem onCourse_of_attempt? {n j : Nat} {u : Attempt T}
    (hu : (w.serve env q n).attempt? w.calls.length j = some u) :
    ∃ d m c b, OnCourse env q w a d m c b (w.serve env q n) ∧ c.attempts[j]? = some u := by
  rw [attempt?_eq] at hu
  obtain ⟨c, hc, hj⟩ := Option.bind_eq_some_iff.1 hu
  rcases serve_onCourse hpolicy henv hrest ha hdrop hc with rfl | ⟨d, m, b, as, h, -⟩
  · cases hj
  · exact ⟨d, m, c, b, h, hj⟩

/-- An attempt gets done if its course comes to an end, and does not otherwise. -/
theorem exists_isDone_iff {j : Nat} {t : T} (ht : (distinctTargets q.targets)[j]? = some t) :
    (∃ n u, (w.serve env q n).attempt? w.calls.length j = some u ∧ u.isDone) ↔
      ∃ e, (q.course env w a t e 2).1.isDone := by
  constructor
  · rintro ⟨n, u, hu, hd⟩
    obtain ⟨d, m, c, b, h, hu⟩ := onCourse_of_attempt? hpolicy henv hrest ha hdrop hu
    obtain ⟨u', hu', rfl⟩ := h.exists_attempt ht
    rw [hu] at hu'
    cases hu'
    have halike := h.alike_of_isDone hpolicy henv hu hd (Nat.lt_succ_self d) 2
    exact ⟨d + 1, by rwa [← Attempt.isDone_congr halike.stage]⟩
  · rintro ⟨e, he⟩
    obtain ⟨n, d, m, c, b, h, hdone, -⟩ := exists_onCourse hpolicy henv hrest ha hdrop e
    obtain ⟨u, hu, rfl⟩ := h.exists_attempt ht
    exact ⟨n, u, by rw [h.attempt?_eq, hu], hdone j u hu he⟩

/-- How a call ends: with what the courses of its targets end with, and when the last of
them does. -/
theorem ended_of_result? {n : Nat} {c : Call C T} {x : Result × Nat}
    (hc : (w.serve env q n).calls[w.calls.length]? = some c) (hx : c.result? = some x) :
    ∃ d, x.2 = w.now + d ∧
      (d = 0 ∨ ∃ t ∈ distinctTargets q.targets, (q.course env w a t d 0).1.isDone = false) ∧
      ∀ e, d < e → (∀ t ∈ distinctTargets q.targets, ∀ m, (q.course env w a t e m).1.isDone) ∧
        x.1.causes =
          (distinctTargets q.targets).filterMap fun t => (q.course env w a t e 0).1.cause? := by
  have hover : ∀ as, c.stage ≠ .working as := by
    intro as hs
    simp [Call.result?, hs] at hx
  rcases serve_onCourse hpolicy henv hrest ha hdrop hc with
    rfl | ⟨d, m, b, as, h, hs | ⟨hs, hall, hfirst⟩⟩
  · cases hx
  · exact absurd hs (hover as)
  · have has : c.attempts = as := by rw [Call.attempts, hs]
    have hcauses : x.1.causes = c.causes ∧ x.2 = w.now + d := by
      simp only [Call.result?, hs, Option.some.injEq] at hx
      subst hx
      cases hempty : c.causes.isEmpty with
      | true => exact ⟨(List.isEmpty_iff.1 hempty).symm, rfl⟩
      | false => exact ⟨rfl, rfl⟩
    refine ⟨d, hcauses.2, hfirst, fun e he => ⟨fun t ht m => ?_, ?_⟩⟩
    · obtain ⟨j, hj⟩ := List.mem_iff_getElem?.1 ht
      obtain ⟨u, hu, rfl⟩ := h.exists_attempt hj
      have hd := List.all_eq_true.1 hall u (has ▸ List.mem_of_getElem? hu)
      rwa [← Attempt.isDone_congr (h.alike_of_isDone hpolicy henv hu hd he m).stage]
    · rw [hcauses.1, Call.causes, ← h.targets, List.filterMap_map]
      refine List.filterMap_congr fun u hu => ?_
      obtain ⟨j, hj⟩ := List.mem_iff_getElem?.1 hu
      have hd := List.all_eq_true.1 hall u (has ▸ hu)
      have hst := (h.alike_of_isDone hpolicy henv hj hd he 0).stage
      dsimp only at hst
      simp only [Function.comp_apply, Attempt.cause?, hst]

theorem exists_result?_iff :
    (∃ n c x, (w.serve env q n).calls[w.calls.length]? = some c ∧ c.result? = some x) ↔
      ∃ e, ∀ t ∈ distinctTargets q.targets, (q.course env w a t e 2).1.isDone := by
  constructor
  · rintro ⟨n, c, x, hc, hx⟩
    obtain ⟨d, -, -, hend⟩ := ended_of_result? hpolicy henv hrest ha hdrop hc hx
    exact ⟨d + 1, fun t ht => (hend (d + 1) (Nat.lt_succ_self d)).1 t ht 2⟩
  · rintro ⟨e, he⟩
    obtain ⟨n, d, m, c, b, h, hdone, hover⟩ := exists_onCourse hpolicy henv hrest ha hdrop e
    rcases hover with hover | ⟨u, hu, hd⟩
    · unfold Call.isOver at hover
      split at hover
      · next hs => exact ⟨n, c, _, h.call, by rw [Call.result?, hs]⟩
      · next hs => exact ⟨n, c, _, h.call, by rw [Call.result?, hs]⟩
      · cases hover
    · obtain ⟨j, hj⟩ := List.mem_iff_getElem?.1 hu
      rw [hdone j u hj (he _ (h.mem_targets hj))] at hd
      cases hd

end Outcome

end World

theorem Collaborators.Independent.mono {env : Collaborators C T} {k : Nat} {capability : String}
    {config : C} {targets targets' : List T} (h : env.Independent k capability config targets)
    (hsub : targets' ⊆ targets) : env.Independent k capability config targets' :=
  ⟨h.checks, h.quiet, fun t ht => h.creates t (hsub ht), fun t ht => h.registers t (hsub ht),
    fun t ht t' ht' => h.names t (hsub ht) t' (hsub ht')⟩

namespace World

/-- The attempts for a target have come to the same in two worlds: they have ended with
the same cause at the same instant, the same was done about the target, it has the same
controller, and the names that its controllers can have are taken or free alike. -/
structure SameOutcome (env : Collaborators C T) (k : Nat) (capability : String) (config : C)
    (t : T) (v v' : World C T) (u u' : Attempt T) : Prop where
  stage : u'.stage = u.stage
  acts : Trace.acts v'.trace k (reference t) = Trace.acts v.trace k (reference t)
  holding : v'.holding? k (reference t) = v.holding? k (reference t)
  names : ∀ name, env.Bears capability config t name →
    v'.registry.isRegistered name = v.registry.isRegistered name

section Isolation

variable {env : Collaborators C T} {q : Request C T} {w v v' : World C T} {a b b' : Activator}
  {d d' : Nat} {n n' : Nat → Nat} {c c' : Call C T} {targets : List T}
  (hpolicy : 0 < a.policy.pollInterval.ceilMillis)
  (henv : env.Independent q.activator a.capability q.config (distinctTargets q.targets))
  (henv' : env.Independent q.activator a.capability q.config (distinctTargets targets))

include hpolicy henv henv'

/-- What else is attempted side by side makes no difference. -/
theorem sameOutcome_of_onCourse (h : OnCourse env q w a d n c b v)
    (h' : OnCourse env { q with targets } w a d' n' c' b' v') {j j' : Nat} {u u' : Attempt T}
    (hu : c.attempts[j]? = some u) (hu' : c'.attempts[j']? = some u') (hd : u.isDone)
    (hd' : u'.isDone) (ht : u'.target = u.target) :
    SameOutcome env q.activator a.capability q.config u.target v v' u u' := by
  have hlt : d < max d d' + 1 := Nat.lt_succ_of_le (Nat.le_max_left ..)
  have hlt' : d' < max d d' + 1 := Nat.lt_succ_of_le (Nat.le_max_right ..)
  have halike := h.alike_of_isDone hpolicy henv hu hd hlt 0
  have halike' := h'.alike_of_isDone hpolicy henv' hu' hd' hlt' 0
  rw [Attempt.reference, ht] at halike'
  have hsite := Site.Like.trans (Site.Like.symm halike.site) halike'.site
  refine ⟨halike'.stage.trans halike.stage.symm, hsite.trace, ?_, hsite.registry.names⟩
  rw [holding?_eq h.activator, holding?_eq h'.activator]
  exact hsite.store

variable (hrest : w.AtRest q.activator) (ha : w.activators[q.activator]? = some a)
  (hdrop : q.dropAt = none)

include hrest ha hdrop

/-- In whatever order targets are listed, the call ends at the same instant with the same
causes. -/
theorem result?_perm (hperm : (distinctTargets targets).Perm (distinctTargets q.targets))
    {m m' : Nat} {x x' : Result × Nat}
    (hc : (w.serve env q m).calls[w.calls.length]? = some c) (hx : c.result? = some x)
    (hc' : (w.serve env { q with targets } m').calls[w.calls.length]? = some c')
    (hx' : c'.result? = some x') : x'.2 = x.2 ∧ x'.1.causes.Perm x.1.causes := by
  obtain ⟨e, ht, hfirst, hend⟩ := ended_of_result? hpolicy henv hrest ha hdrop hc hx
  obtain ⟨e', ht', hfirst', hend'⟩ := ended_of_result? (q := { q with targets }) hpolicy henv'
    hrest ha hdrop hc' hx'
  refine ⟨?_, ?_⟩
  · rcases Nat.lt_trichotomy e e' with hlt | rfl | hlt
    · rcases hfirst' with rfl | ⟨t, hmem, hnot⟩
      · cases hlt
      · have hdone := (hend e' hlt).1 t (hperm.mem_iff.1 hmem) 0
        rw [← Bool.not_eq_true] at hnot
        exact absurd hdone hnot
    · rw [ht, ht']
    · rcases hfirst with rfl | ⟨t, hmem, hnot⟩
      · cases hlt
      · have hdone := (hend' e hlt).1 t (hperm.mem_iff.2 hmem) 0
        rw [← Bool.not_eq_true] at hnot
        exact absurd hdone hnot
  · have hcauses := (hend (max e e' + 1) (Nat.lt_succ_of_le (Nat.le_max_left ..))).2
    have hcauses' := (hend' (max e e' + 1) (Nat.lt_succ_of_le (Nat.le_max_right ..))).2
    rw [hcauses, hcauses']
    exact hperm.filterMap _

end Isolation

/-- Every target of a call fares as it would fare alone, and the order of the targets
matters for nothing but the order of the causes. -/
theorem targets_are_isolated {env : Collaborators C T} {q : Request C T} {w : World C T}
    {a : Activator} (hrest : w.AtRest q.activator) (ha : w.activators[q.activator]? = some a)
    (hpolicy : a.policy.Admitted) (hdrop : q.dropAt = none)
    (henv : env.Independent q.activator a.capability q.config (distinctTargets q.targets)) :
    (∀ (j : Nat) t, (distinctTargets q.targets)[j]? = some t →
      (∀ n n₀ u u₀, (w.serve env q n).attempt? w.calls.length j = some u → u.isDone →
        (w.serve env { q with targets := [t] } n₀).attempt? w.calls.length 0 = some u₀ →
        u₀.isDone → SameOutcome env q.activator a.capability q.config t (w.serve env q n)
          (w.serve env { q with targets := [t] } n₀) u u₀) ∧
      ((∃ n u, (w.serve env q n).attempt? w.calls.length j = some u ∧ u.isDone) ↔
        ∃ n₀ u₀, (w.serve env { q with targets := [t] } n₀).attempt? w.calls.length 0 = some u₀ ∧
          u₀.isDone)) ∧
    ∀ targets, (distinctTargets targets).Perm (distinctTargets q.targets) →
      (∀ n n' c c' x x', (w.serve env q n).calls[w.calls.length]? = some c →
        c.result? = some x →
        (w.serve env { q with targets } n').calls[w.calls.length]? = some c' →
        c'.result? = some x' → x'.2 = x.2 ∧ x'.1.causes.Perm x.1.causes) ∧
      ((∃ n c x, (w.serve env q n).calls[w.calls.length]? = some c ∧ c.result? = some x) ↔
        ∃ n c x, (w.serve env { q with targets } n).calls[w.calls.length]? = some c ∧
          c.result? = some x) := by
  have hinterval := Duration.ceilMillis_pos hpolicy.1
  refine ⟨fun j t ht => ?_, fun targets hperm => ?_⟩
  · have hmem : t ∈ distinctTargets q.targets := List.mem_of_getElem? ht
    have hone : distinctTargets [t] = [t] := by simp [distinctTargets, distinctBy]
    have henv₀ : env.Independent q.activator a.capability q.config (distinctTargets [t]) := by
      rw [hone]
      exact henv.mono (by simpa using hmem)
    refine ⟨fun n n₀ u u₀ hu hd hu₀ hd₀ => ?_, ?_⟩
    · obtain ⟨d, m, c, b, h, hget⟩ := onCourse_of_attempt? hinterval henv hrest ha hdrop hu
      obtain ⟨d₀, m₀, c₀, b₀, h₀, hget₀⟩ := onCourse_of_attempt?
        (q := { q with targets := [t] }) hinterval henv₀ hrest ha hdrop hu₀
      obtain ⟨u₁, hget₁, rfl⟩ := h.exists_attempt ht
      rw [hget] at hget₁
      cases hget₁
      refine sameOutcome_of_onCourse hinterval henv henv₀ h h₀ hget hget₀ hd hd₀ ?_
      have hmem₀ := h₀.mem_targets hget₀
      rw [hone] at hmem₀
      exact List.mem_singleton.1 hmem₀
    · rw [exists_isDone_iff hinterval henv hrest ha hdrop ht]
      exact (exists_isDone_iff (q := { q with targets := [t] }) hinterval henv₀ hrest ha hdrop
        (by rw [hone]; rfl)).symm
  · have henv' := henv.mono hperm.subset
    refine ⟨fun n n' c c' x x' hc hx hc' hx' =>
      result?_perm hinterval henv henv' hrest ha hdrop hperm hc hx hc' hx', ?_⟩
    rw [exists_result?_iff hinterval henv hrest ha hdrop]
    refine Iff.trans ?_ (exists_result?_iff (q := { q with targets }) hinterval henv' hrest ha
      hdrop).symm
    exact exists_congr fun e => ⟨fun h t ht => h t (hperm.mem_iff.1 ht),
      fun h t ht => h t (hperm.mem_iff.2 ht)⟩

/-- Two targets whose schemas are served and one whose schema never is. -/
theorem targets_are_isolated_late :
    let env : Collaborators String ResourceReference :=
      { Collaborators.prompt with
        check := fun _ _ gv => ⟨false, some 30, if gv.version = "v1" then .ready else .notYet⟩ }
    let policies := [("widgets", Policy.default)]
    let late : ResourceReference := { ResourceReference.plain "b" with version := "v2" }
    let q : Request String ResourceReference :=
      ⟨0, "v1", [.plain "a", late, .plain "c"], false, some 5000, none⟩
    let w : World String ResourceReference := ofActivators policies
    w.AtRest 0 ∧ Policy.default.Admitted ∧
      env.Independent 0 "widgets" "v1" (distinctTargets q.targets) ∧
      ∀ n n₀ u u₀, (w.serve env q n).attempt? 0 0 = some u → u.isDone →
        (w.serve env { q with targets := [.plain "a"] } n₀).attempt? 0 0 = some u₀ → u₀.isDone →
        SameOutcome env 0 "widgets" "v1" (.plain "a") (w.serve env q n)
          (w.serve env { q with targets := [.plain "a"] } n₀) u u₀ := by
  intro env policies late q w
  have hrest : w.AtRest 0 := by
    refine ⟨rfl, rfl, fun a ha => ?_⟩
    cases ha
    rfl
  have hpolicy : Policy.default.Admitted := by decide
  have hnames : ∀ (t : ResourceReference) name, env.Bears "widgets" "v1" t name → t.name = name := by
    intro t name hb
    obtain ⟨tr, now, h⟩ := hb
    exact h
  have henv : env.Independent 0 "widgets" "v1" (distinctTargets q.targets) := by
    refine ⟨fun _ _ _ _ => rfl, fun _ _ _ => rfl, fun _ _ _ _ _ _ => rfl, fun t _ _ _ => ?_,
      fun t ht t' ht' hne name hb hb' => ?_⟩
    · simp [env, Collaborators.prompt, Registration.spawnsOnly, Registration.isSilent]
    · have hdistinct : ∀ t ∈ distinctTargets q.targets, ∀ t' ∈ distinctTargets q.targets,
          t.name = t'.name → t = t' := by decide +kernel
      exact hne (congrArg reference (hdistinct t ht t' ht'
        ((hnames t name hb).trans (hnames t' name hb').symm)))
  have halone := (targets_are_isolated (q := q) (w := w) (a := .new "widgets" .default) hrest rfl
    hpolicy rfl henv).1 0 (.plain "a") rfl
  exact ⟨hrest, hpolicy, henv, halone.1⟩

end World

end Lifecycle
