import Lifecycle.Proofs.Course
import Lifecycle.Proofs.Release

/-!
# Passes keep to the courses

A call is made to a world in which nothing else goes on, and is served by passes.
`World.OnCourse` says that each of its attempts is somewhere on its own course, in
what it sees: the other attempts share the store, the registry and the clock with
it, but what they do there is nothing to it.

A look brings one attempt on and keeps the others where they are, `OnCourse.look`.
A visit looks at every attempt or finds that it has nothing to do. When a pass has
left nothing to be done at its instant, all attempts are calm, and the clock jumps
to an instant that none of them has slept through. `Underway.pass` puts this
together: after a pass the call has ended, or will never get any further, or is at
work at a second look, or at a later instant.
-/

namespace Lifecycle

variable {C T : Type}

/-- A world in which a call on an activator begins its work as soon as it is made. -/
structure World.AtRest [Targeted T] (w : World C T) (k : Nat) : Prop where
  quiet : w.isQuiet
  unasked : w.hasAsked = false
  queue : ∀ a, w.activators[k]? = some a → a.queue = []

theorem Attempt.Tidy.of_stage {own : String → Prop} {a b : Attempt T} (h : a.Tidy own)
    (hst : b.stage = a.stage) : b.Tidy own :=
  ⟨fun c free rest since hr => h.discreet c free rest since (hst.symm.trans hr),
    fun c free rest since hr => h.silent c free rest since (hst.symm.trans hr),
    fun w hw => h.paced w (hst.symm.trans hw)⟩

theorem Attempt.isDone_congr {a b : Attempt T} (hst : b.stage = a.stage) :
    b.isDone = a.isDone := by
  rw [isDone, isDone, hst]

theorem Attempt.mem_byTicket {ticket? : Attempt T → Option Nat} {as : List (Attempt T)} {j : Nat} :
    j ∈ byTicket ticket? as ↔ ∃ a, as[j]? = some a ∧ (ticket? a).isSome := by
  simp only [byTicket, List.mem_map, List.mem_mergeSort, List.mem_filterMap, Prod.exists,
    List.mem_zipIdx_iff_getElem?]
  constructor
  · rintro ⟨t, j', ⟨a, i, ha, ht⟩, rfl⟩
    obtain ⟨t', ht', h⟩ := Option.map_eq_some_iff.1 ht
    cases h
    exact ⟨a, ha, Option.isSome_iff_exists.2 ⟨_, ht'⟩⟩
  · rintro ⟨a, ha, ht⟩
    obtain ⟨t, ht⟩ := Option.isSome_iff_exists.1 ht
    exact ⟨t, j, ⟨a, j, ha, by simp [ht]⟩, rfl⟩

theorem Attempt.eq_none_of_not_mem_byTicket {ticket? : Attempt T → Option Nat}
    {as : List (Attempt T)} {j : Nat} {a : Attempt T} (ha : as[j]? = some a)
    (hj : j ∉ byTicket ticket? as) : ticket? a = none := by
  rw [mem_byTicket] at hj
  cases ht : ticket? a with
  | none => rfl
  | some t => exact absurd ⟨a, ha, by simp [ht]⟩ hj

variable [Targeted T]

/-- The context in which the attempts of a call that is made to a world begin. -/
def Request.contextIn (q : Request C T) (w : World C T) (a : Activator) : Context C :=
  ⟨⟨w.calls.length, q.activator, a.capability, q.config, 1⟩, a.policy, q.cancelled⟩

/-- The course of a target of a request that is made to a world. -/
def Request.course (env : Collaborators C T) (q : Request C T) (w : World C T) (a : Activator)
    (t : T) (d n : Nat) : Attempt T × Site C T :=
  Lifecycle.course env (q.contextIn w a) (q.plan w.now).cancelAt t
    { w.site a with fired := .calls [] } d n

/-- Whether the call of a request is cancelled by an instant. -/
def Request.isCancelledBy (q : Request C T) (w : World C T) (time : Nat) : Bool :=
  q.cancelled || (q.plan w.now).cancelAt.any (· ≤ time)

omit [Targeted T] in
/-- A call is cancelled by an instant as it was by an earlier one, if its caller has done
nothing in between. -/
theorem Request.isCancelledBy_eq {q : Request C T} {w : World C T} {now time : Nat}
    (hle : now ≤ time) (h : ∀ s, s ∈ (q.plan w.now).cancelAt → now < s → time < s) :
    q.isCancelledBy w time = q.isCancelledBy w now := by
  rw [isCancelledBy, isCancelledBy]
  cases hs : (q.plan w.now).cancelAt with
  | none => rfl
  | some s =>
      have hlt := h s hs
      simp only [Option.any_some]
      congr 1
      rw [decide_eq_decide]
      omega

omit [Targeted T] in
theorem Request.isCancelledBy_or {q : Request C T} {w : World C T} {now time : Nat}
    (hle : now ≤ time) :
    (q.isCancelledBy w now || (q.plan w.now).cancelAt.any (· ≤ time)) =
      q.isCancelledBy w time := by
  rw [isCancelledBy, isCancelledBy, Bool.or_assoc]
  congr 1
  cases (q.plan w.now).cancelAt with
  | none => rfl
  | some s =>
      simp only [Option.any_some]
      rw [← Bool.decide_or, decide_eq_decide]
      omega

omit [Targeted T] in
/-- On the course of a request only its caller cancels its call. -/
theorem Request.cancelled_course (q : Request C T) (w : World C T) (a : Activator) (time : Nat) :
    Site.cancelled { w.site a with fired := .calls [] }
      ((q.contextIn w a).asOf (q.plan w.now).cancelAt time) = q.isCancelledBy w time :=
  Bool.or_false _

theorem Request.calmAt_iff {env : Collaborators C T} {q : Request C T} {w : World C T}
    {a : Activator} {t : T} {d n : Nat} :
    CalmAt env (q.contextIn w a) (q.plan w.now).cancelAt t { w.site a with fired := .calls [] } d n ↔
      (q.course env w a t d n).1.stage.Calm (q.isCancelledBy w (w.now + d)) (w.now + d) := by
  rw [CalmAt, cancelled_course]
  exact Iff.rfl

namespace World

/-- A world in which the call of a request is at work, or has ended, and its attempts
have come so far on their courses. -/
structure OnCourse (env : Collaborators C T) (q : Request C T) (w : World C T) (a : Activator)
    (d : Nat) (n : Nat → Nat) (c : Call C T) (b : Activator) (v : World C T) : Prop where
  now : v.now = w.now + d
  fired : v.fired = .calls []
  calls : v.calls = w.calls ++ [c]
  opened : v.opened = w.calls.length
  activator : v.activators[q.activator]? = some b
  capability : b.capability = a.capability
  policy : b.policy = a.policy
  called : c.activator = q.activator
  config : c.config = q.config
  targets : c.attempts.map Attempt.target = distinctTargets q.targets
  alike : ∀ j u, c.attempts[j]? = some u → Attempt.Alike (env.Bears a.capability q.config u.target)
    q.activator u.reference (q.course env w a u.target d (n j)) (u, v.site b)

section OnCourse

variable {env : Collaborators C T} {q : Request C T} {w v : World C T} {a b : Activator} {d : Nat}
  {n : Nat → Nat} {c : Call C T} {as : List (Attempt T)}
  (henv : env.Independent q.activator a.capability q.config (distinctTargets q.targets))
  (hpolicy : 0 < a.policy.pollInterval.ceilMillis)
  (h : OnCourse env q w a d n c b v)

include h

theorem OnCourse.call : v.calls[w.calls.length]? = some c := by
  rw [h.calls]
  simp

theorem OnCourse.find? : v.find? w.calls.length = some (c, b) := by
  refine find?_eq_some.2 ⟨h.call, ?_⟩
  rw [h.called]
  exact h.activator

theorem OnCourse.attempts_eq : v.attempts w.calls.length = c.attempts := by
  rw [attempts, h.call]
  rfl

theorem OnCourse.mem_targets {j : Nat} {u : Attempt T} (hu : c.attempts[j]? = some u) :
    u.target ∈ distinctTargets q.targets := by
  rw [← h.targets]
  exact List.mem_map_of_mem (List.mem_of_getElem? hu)

theorem OnCourse.reference_ne {j l : Nat} {u t : Attempt T} (hu : c.attempts[j]? = some u)
    (ht : c.attempts[l]? = some t) (hne : j ≠ l) : u.reference ≠ t.reference := by
  intro heq
  have hnodup := nodup_map_distinctBy (Targeted.reference (T := T)) q.targets []
  rw [← distinctTargets, ← h.targets, List.map_map] at hnodup
  have hlt : j < (c.attempts.map (Targeted.reference ∘ Attempt.target)).length := by
    rw [List.length_map]
    exact (List.getElem?_eq_some_iff.1 hu).1
  refine hne ((List.getElem?_inj hlt hnodup).1 ?_)
  rw [List.getElem?_map, List.getElem?_map, hu, ht]
  exact congrArg some heq

/-- The context of a call at work is as its course has it. -/
theorem OnCourse.context_like (hc : c.cancelled = q.isCancelledBy w v.now) :
    ((q.contextIn w a).asOf (q.plan w.now).cancelAt (w.now + d)).Like
      (context b w.calls.length c) := by
  rw [h.now] at hc
  exact ⟨⟨h.capability, h.config, h.policy, hc⟩, rfl, h.called⟩

/-- What neither brings attempts on nor shows at their sites makes no difference. -/
theorem OnCourse.congr {v' : World C T} {c' : Call C T} {b' : Activator} (hnow : v'.now = v.now)
    (hfired : v'.fired = v.fired) (hopened : v'.opened = v.opened)
    (hcalls : v'.calls = v.calls.modify w.calls.length fun _ => c')
    (hb : v'.activators[q.activator]? = some b') (hkept : b'.capability = b.capability ∧
      b'.policy = b.policy) (hcall : c'.activator = c.activator ∧ c'.config = c.config ∧
      c'.attempts = c.attempts) (hregistry : v'.registry.closed = v.registry.closed ∧
      v'.registry.held = v.registry.held) (hstore : b'.store = b.store)
    (hacts : ∀ r, Trace.acts v'.trace q.activator r = Trace.acts v.trace q.activator r) :
    OnCourse env q w a d n c' b' v' := by
  have hlike : ∀ own r, (v.site b).Like own q.activator r (v'.site b') := by
    refine fun own r => ⟨hnow, hfired, ⟨hregistry.1, fun m _ => ?_⟩, ?_, hacts r⟩
    · simp only [site, Registry.isRegistered, hregistry.2]
    · simp only [site, hstore]
  refine ⟨hnow.trans h.now, hfired.trans h.fired, ?_, hopened.trans h.opened, hb,
    hkept.1.trans h.capability, hkept.2.trans h.policy, hcall.1.trans h.called,
    hcall.2.1.trans h.config, hcall.2.2 ▸ h.targets, fun j u hu => ?_⟩
  · rw [hcalls, h.calls, modify_concat]
  · rw [hcall.2.2] at hu
    obtain ⟨ht, hst, hs⟩ := h.alike j u hu
    exact ⟨ht, hst, Site.Like.trans hs (hlike ..)⟩

theorem OnCourse.cancel :
    OnCourse env q w a d n { c with cancelled := true } b (v.cancel w.calls.length) := by
  refine h.congr rfl rfl rfl ?_ h.activator ⟨rfl, rfl⟩ ⟨rfl, rfl, rfl⟩ ⟨rfl, rfl⟩ rfl fun _ => rfl
  show v.calls.modify _ _ = _
  rw [h.calls, modify_concat, modify_concat]

theorem OnCourse.note (scope : Option (Scope C)) {what : Happening C T} (ha : what.act? = none) :
    OnCourse env q w a d n c b (v.note scope what) := by
  refine h.congr rfl rfl rfl ?_ h.activator ⟨rfl, rfl⟩ ⟨rfl, rfl, rfl⟩ ⟨rfl, rfl⟩ rfl fun r => ?_
  · show v.calls = _
    rw [h.calls, modify_concat]
  · refine (Trace.acts_cons _ v.trace).trans ?_
    cases scope <;> simp [Entry.act?, ha]

theorem OnCourse.leave {st : CallStage T}
    (hst : ({ c with stage := st } : Call C T).attempts = c.attempts) :
    OnCourse env q w a d n { c with stage := st } { b with queue := b.queue.erase w.calls.length }
      ((v.setStage w.calls.length st).setQueue c.activator (·.erase w.calls.length)) := by
  refine h.congr rfl rfl rfl ?_ ?_ ⟨rfl, rfl⟩ ⟨rfl, rfl, hst⟩ ⟨rfl, rfl⟩ rfl fun _ => rfl
  · show v.calls.modify _ _ = _
    rw [h.calls, modify_concat, modify_concat]
  · show (v.activators.modify c.activator _)[_]? = _
    rw [List.getElem?_modify, h.activator, h.called]
    simp

theorem OnCourse.close (hs : c.stage = .working as) (hd : as.all Attempt.isDone) :
    OnCourse env q w a d n { c with stage := .ended as v.now }
      { b with queue := b.queue.erase w.calls.length } (v.close w.calls.length) := by
  have hst : ({ c with stage := .ended as v.now } : Call C T).attempts = c.attempts := by
    simp [Call.attempts, hs]
  rw [close_eq_closed h.find? hs hd, closed]
  split
  · exact h.leave hst
  · have hnoted : OnCourse env q w a d n c b (v.note (context b w.calls.length c).scope
        (.callFailed c.causes.length)) := h.note _ rfl
    exact hnoted.leave hst

theorem OnCourse.turnLoops : OnCourse env q w a d n c b v.turnLoops := by
  rw [turnLoops_eq]
  refine h.congr rfl rfl rfl ?_ h.activator ⟨rfl, rfl⟩ ⟨rfl, rfl, rfl⟩ ⟨rfl, rfl⟩ rfl fun r => ?_
  · rw [h.calls, modify_concat]
  · refine (Trace.acts_append v.trace _).trans ?_
    rw [Trace.acts_of_none (t := List.map _ _), List.append_nil]
    intro e he
    obtain ⟨n, -, rfl⟩ := List.mem_map.1 he
    rfl

include henv hpolicy

theorem OnCourse.tidy {j : Nat} {u : Attempt T} (hu : c.attempts[j]? = some u) :
    u.Tidy (env.Bears a.capability q.config u.target) :=
  (course_spared (x := q.contextIn w a) henv hpolicy (h.mem_targets hu) _ _ d (n j)).1.of_stage
    (h.alike j u hu).stage

/-- What a look at an attempt leaves as it was. -/
theorem OnCourse.spares (hc : c.cancelled = q.isCancelledBy w v.now) {j : Nat} {u : Attempt T}
    (hu : c.attempts[j]? = some u) {s : Site C T}
    (hs : s = (u.look env (context b w.calls.length c) (v.site b)).2) : s.fired = .calls [] ∧
      ∀ l t, l ≠ j → c.attempts[l]? = some t →
        (v.site b).Like (env.Bears a.capability q.config t.target) q.activator t.reference s := by
  subst hs
  have htidy := h.tidy henv hpolicy hu
  have hmem := h.mem_targets hu
  have hne : ∀ l t, l ≠ j → c.attempts[l]? = some t → u.reference ≠ t.reference :=
    fun l t hl ht => h.reference_ne hu ht (Ne.symm hl)
  have hother : ∀ (l : Nat) t, c.attempts[l]? = some t → t.target ∈ distinctTargets q.targets :=
    fun l t ht => h.mem_targets ht
  have hx := h.context_like hc
  replace hpolicy : 0 < (context b w.calls.length c).policy.pollInterval.ceilMillis := by
    rw [hx.policy]
    exact hpolicy
  have hscope : q.activator = (context b w.calls.length c).scope.activator ∧
      a.capability = (context b w.calls.length c).scope.capability ∧
      q.config = (context b w.calls.length c).scope.config :=
    ⟨hx.activator.symm, hx.capability.symm, hx.config.symm⟩
  have hfired : (v.site b).fired = .calls [] := h.fired
  generalize context b w.calls.length c = x at hscope hpolicy ⊢
  obtain ⟨hk, hcap, hcon⟩ := hscope
  rw [hk, hcap, hcon] at henv
  rw [hcap, hcon] at htidy
  refine ⟨(Attempt.look_spared henv hpolicy hmem _ htidy).2.1.trans hfired, fun l t hl ht => ?_⟩
  rw [hk, hcap, hcon]
  exact Attempt.look_like henv hpolicy hmem _ htidy (hother l t ht) (hne l t hl ht)

/-- An attempt that is looked at is one look further on its course. -/
theorem OnCourse.look_alike (hc : c.cancelled = q.isCancelledBy w v.now) {j : Nat}
    {u : Attempt T} (hu : c.attempts[j]? = some u) :
    Attempt.Alike (env.Bears a.capability q.config u.target) q.activator u.reference
      (q.course env w a u.target d (n j + 1))
      (u.look env (context b w.calls.length c) (v.site b)) := by
  obtain ⟨ht, hst, hsite⟩ := h.alike j u hu
  have hmem := h.mem_targets hu
  have htidy := (course_spared (x := q.contextIn w a) henv hpolicy hmem
    (q.plan w.now).cancelAt { w.site a with fired := .calls [] } d (n j)).1
  rw [Request.course, course_look]
  have hcourse : (q.course env w a u.target d (n j)).1.target = u.target := course_target ..
  unfold Request.course at ht hst hsite hcourse
  generalize course env _ _ u.target _ d (n j) = p at *
  obtain ⟨u₀, s₀⟩ := p
  dsimp only at hcourse hsite
  rw [Attempt.reference, ← hcourse] at hsite
  rw [← hcourse] at hmem htidy
  have hlook := Attempt.look_same (x := (q.contextIn w a).asOf (q.plan w.now).cancelAt
    (w.now + d)) henv hmem (h.context_like hc) hsite hcourse.symm hst htidy
  rw [Attempt.reference, ← hcourse]
  exact hlook

/-- A look brings an attempt on, and leaves all others where they are. -/
theorem OnCourse.look (hs : c.stage = .working as) (hc : c.cancelled = q.isCancelledBy w v.now)
    (j : Nat) : ∃ c' b' as', OnCourse env q w a d (fun l => if l = j then n l + 1 else n l) c' b'
      (v.look env w.calls.length j) ∧ c'.stage = .working as' ∧ c'.cancelled = c.cancelled ∧
      ∀ l, l ≠ j → as'[l]? = as[l]? := by
  have has : c.attempts = as := by rw [Call.attempts, hs]
  cases hu : as[j]? with
  | none =>
      have hlook : v.look env w.calls.length j = v := by
        simp only [World.look, h.find?, hs, hu]
      rw [hlook]
      refine ⟨c, b, as, { h with alike := fun l t ht => ?_ }, hs, rfl, fun _ _ => rfl⟩
      rw [if_neg (by rintro rfl; rw [has, hu] at ht; cases ht)]
      exact h.alike l t ht
  | some u =>
      have hu' : c.attempts[j]? = some u := by rw [has, hu]
      have hlt := (List.getElem?_eq_some_iff.1 hu).1
      obtain ⟨hfired, hspares⟩ := h.spares henv hpolicy hc hu' rfl
      have hsame := h.look_alike henv hpolicy hc hu'
      have hnow := Attempt.Steps.now_eq
        (Attempt.look_steps env (context b w.calls.length c) u (v.site b))
      have htarget := Attempt.Steps.target_eq
        (Attempt.look_steps env (context b w.calls.length c) u (v.site b))
      rw [look_eq_put h.find? hs hu]
      generalize u.look env (context b w.calls.length c) (v.site b) = p at *
      refine ⟨{ c with stage := .working (as.set j p.1) }, { b with store := p.2.store },
        as.set j p.1, ?_, rfl, rfl, fun l hl => List.getElem?_set_ne (Ne.symm hl)⟩
      have hsite : (v.put w.calls.length c as j p).site { b with store := p.2.store } = p.2 :=
        site_put hnow
      refine ⟨h.now, hfired, ?_, h.opened, ?_, h.capability, h.policy, h.called, h.config, ?_,
        fun l t ht => ?_⟩
      · show (v.calls.modify w.calls.length _) = _
        rw [h.calls, modify_concat]
      · show (v.activators.modify c.activator _)[q.activator]? = _
        rw [h.called, List.getElem?_modify, h.activator]
        simp
      · show (as.set j p.1).map Attempt.target = _
        rw [← h.targets, has, List.map_set, htarget]
        exact set_eq_self (by rw [List.getElem?_map, hu]; rfl)
      · have ht : (as.set j p.1)[l]? = some t := ht
        rw [hsite]
        split
        · next hl =>
            subst hl
            rw [List.getElem?_set_self hlt] at ht
            cases ht
            rw [Attempt.reference, htarget]
            exact hsame
        · next hl =>
            rw [List.getElem?_set_ne (Ne.symm hl)] at ht
            rw [← has] at ht
            obtain ⟨htt, hst, hs'⟩ := h.alike l t ht
            exact ⟨htt, hst, Site.Like.trans hs' (hspares l t hl ht)⟩

omit h in
theorem OnCourse.lookEach (places : List Nat) {v : World C T} {n : Nat → Nat} {c : Call C T}
    {b : Activator} {as : List (Attempt T)} (h : OnCourse env q w a d n c b v)
    (hs : c.stage = .working as) (hc : c.cancelled = q.isCancelledBy w v.now) :
    ∃ n' c' b' as', OnCourse env q w a d n' c' b' (v.lookEach env w.calls.length places) ∧
      c'.stage = .working as' ∧ c'.cancelled = c.cancelled ∧ ∀ l, n l ≤ n' l ∧
        (l ∈ places → n l < n' l) ∧ (l ∉ places → n' l = n l ∧ as'[l]? = as[l]?) := by
  induction places generalizing v n c b as with
  | nil => exact ⟨n, c, b, as, h, hs, rfl, fun l => ⟨Nat.le_refl _, by simp⟩⟩
  | cons j places ih =>
      obtain ⟨c₁, b₁, as₁, h₁, hs₁, hc₁, hkept₁⟩ := h.look henv hpolicy hs hc j
      have hnow : (v.look env w.calls.length j).now = v.now := h₁.now.trans h.now.symm
      obtain ⟨n', c', b', as', h', hs', hc', hkept⟩ := ih h₁ hs₁ (by rw [hc₁, hc, hnow])
      refine ⟨n', c', b', as', h', hs', hc'.trans hc₁, fun l => ?_⟩
      obtain ⟨hle, hin, hout⟩ := hkept l
      by_cases hl : l = j
      · rw [if_pos hl] at hle
        refine ⟨Nat.le_of_succ_le hle, fun _ => hle, fun hn => absurd ?_ hn⟩
        exact hl ▸ List.mem_cons_self ..
      · rw [if_neg hl] at hle hin hout
        refine ⟨hle, fun hm => hin ((List.mem_cons.1 hm).resolve_left hl), fun hn => ?_⟩
        obtain ⟨hsame, hget⟩ := hout fun hm => hn (List.mem_cons_of_mem _ hm)
        exact ⟨hsame, hget.trans (hkept₁ l hl)⟩

/-- An attempt that has nothing to do is as good as looked at. -/
theorem OnCourse.raise {n' : Nat → Nat} (hn : ∀ l u, c.attempts[l]? = some u → n' l = n l ∨
      n l ≤ n' l ∧ u.stage.Calm (q.isCancelledBy w v.now) v.now) :
    OnCourse env q w a d n' c b v := by
  refine { h with alike := fun l u hu => ?_ }
  have halike := h.alike l u hu
  rcases hn l u hu with heq | ⟨hle, hcalm⟩
  · rw [heq]
    exact halike
  · rw [halike.stage, h.now] at hcalm
    rw [Request.course, course_of_calmAt (x := q.contextIn w a) henv hpolicy (h.mem_targets hu)
      (Request.calmAt_iff.2 hcalm) hle]
    exact halike

/-- When a call is looked at, each of its attempts is looked at or has nothing to do. -/
theorem OnCourse.lookAll (hs : c.stage = .working as)
    (hc : c.cancelled = q.isCancelledBy w v.now) : ∃ n' c' b' as',
      OnCourse env q w a d n' c' b' (v.lookAll env w.calls.length) ∧ c'.stage = .working as' ∧
        c'.cancelled = c.cancelled ∧ ∀ l, n l < n' l := by
  have has : c.attempts = as := by rw [Call.attempts, hs]
  -- What has not been looked at is raised.
  suffices hlooked : ∃ n' c' b' as', OnCourse env q w a d n' c' b' (v.lookAll env w.calls.length) ∧
      c'.stage = .working as' ∧ c'.cancelled = c.cancelled ∧ ∀ l, n l < n' l ∨ n' l = n l ∧
        ∀ u, as'[l]? = some u → u.stage.Calm (q.isCancelledBy w v.now) v.now by
    obtain ⟨n', c', b', as', h', hs', hc', hn⟩ := hlooked
    have hnow : (v.lookAll env w.calls.length).now = v.now := h'.now.trans h.now.symm
    refine ⟨fun l => max (n' l) (n l + 1), c', b', as', h'.raise henv hpolicy ?_, hs', hc',
      fun l => Nat.lt_of_lt_of_le (Nat.lt_succ_self _) (Nat.le_max_right ..)⟩
    intro l u hu
    rw [Call.attempts, hs'] at hu
    rcases hn l with hlt | ⟨-, hcalm⟩
    · exact .inl (Nat.max_eq_left hlt)
    · rw [hnow]
      exact .inr ⟨Nat.le_max_left .., hcalm u hu⟩
  rw [World.lookAll, h.attempts_eq, has]
  dsimp only
  split
  · obtain ⟨n', c', b', as', h', hs', hc', hn⟩ := h.lookEach henv hpolicy (List.range as.length) hs hc
    refine ⟨n', c', b', as', h', hs', hc', fun l => ?_⟩
    by_cases hl : l ∈ List.range as.length
    · exact .inl ((hn l).2.1 hl)
    · obtain ⟨hsame, hget⟩ := (hn l).2.2 hl
      refine .inr ⟨hsame, fun u hu => ?_⟩
      rw [hget] at hu
      exact absurd (List.mem_range.2 (List.getElem?_eq_some_iff.1 hu).1) hl
  · obtain ⟨n₁, c₁, b₁, as₁, h₁, hs₁, hc₁, hn₁⟩ := h.lookEach henv hpolicy
      (Attempt.byTicket (Attempt.dueTicket? v.now) as) hs hc
    generalize v.lookEach env w.calls.length (Attempt.byTicket (Attempt.dueTicket? v.now) as) = v₁
      at h₁
    have has₁ : c₁.attempts = as₁ := by rw [Call.attempts, hs₁]
    have hnow₁ : v₁.now = v.now := h₁.now.trans h.now.symm
    have hcan : v₁.isCancelled w.calls.length = q.isCancelledBy w v.now := by
      rw [isCancelled, h₁.fired, h₁.call, ← hc, ← hc₁]
      rfl
    have hsleeps : ∀ (l : Nat) u, as[l]? = some u → u.stage.Sleeps := by
      intro l u hu
      rw [← has] at hu
      rw [(h.alike l u hu).stage]
      exact course_sleeps (x := q.contextIn w a) henv hpolicy (h.mem_targets hu) ..
    rw [hcan]
    split
    · next hcancel =>
        rw [h₁.attempts_eq, has₁]
        obtain ⟨n', c', b', as', h', hs', hc', hn⟩ := h₁.lookEach henv hpolicy
          (Attempt.byTicket Attempt.watchTicket? as₁) hs₁ (by rw [hc₁, hc, hnow₁])
        refine ⟨n', c', b', as', h', hs', hc'.trans hc₁, fun l => ?_⟩
        by_cases hl : l ∈ Attempt.byTicket (Attempt.dueTicket? v.now) as
        · exact .inl (Nat.lt_of_lt_of_le ((hn₁ l).2.1 hl) (hn l).1)
        · obtain ⟨hsame₁, hget₁⟩ := (hn₁ l).2.2 hl
          by_cases hl' : l ∈ Attempt.byTicket Attempt.watchTicket? as₁
          · exact .inl (Nat.lt_of_le_of_lt (hn₁ l).1 ((hn l).2.1 hl'))
          · obtain ⟨hsame, hget⟩ := (hn l).2.2 hl'
            refine .inr ⟨hsame.trans hsame₁, fun u hu => ?_⟩
            rw [hget] at hu
            have hwatch := Attempt.eq_none_of_not_mem_byTicket hu hl'
            rw [hget₁] at hu
            exact Attempt.calm_of_dueTicket? (hsleeps l u hu)
              (Attempt.eq_none_of_not_mem_byTicket hu hl) fun _ => hwatch
    · next hcancel =>
        refine ⟨n₁, c₁, b₁, as₁, h₁, hs₁, hc₁, fun l => ?_⟩
        by_cases hl : l ∈ Attempt.byTicket (Attempt.dueTicket? v.now) as
        · exact .inl ((hn₁ l).2.1 hl)
        · obtain ⟨hsame₁, hget₁⟩ := (hn₁ l).2.2 hl
          refine .inr ⟨hsame₁, fun u hu => ?_⟩
          rw [hget₁] at hu
          exact Attempt.calm_of_dueTicket? (hsleeps l u hu)
            (Attempt.eq_none_of_not_mem_byTicket hu hl) fun h => absurd h hcancel

/-- A call that is at work is looked at, and ends if all its attempts are done. -/
theorem OnCourse.attend (hs : c.stage = .working as) (hc : c.cancelled = q.isCancelledBy w v.now) :
    ∃ n' c' b', OnCourse env q w a d n' c' b'
        ((v.lookAll env w.calls.length).close w.calls.length) ∧
      c'.cancelled = c.cancelled ∧ (∀ l, n l < n' l) ∧
      ((∃ as', c'.stage = .working as' ∧ as'.all Attempt.isDone = false) ∨
        ∃ as', c'.stage = .ended as' (w.now + d) ∧ as'.all Attempt.isDone) := by
  obtain ⟨n', c', b', as', h', hs', hc', hn⟩ := h.lookAll henv hpolicy hs hc
  cases hd : as'.all Attempt.isDone with
  | true => exact ⟨n', _, _, h'.close hs' hd, hc', hn, .inr ⟨as', by rw [h'.now], hd⟩⟩
  | false =>
      have hclose : (v.lookAll env w.calls.length).close w.calls.length =
          v.lookAll env w.calls.length := by
        simp only [World.close, h'.find?, hs', hd, Bool.false_eq_true, if_false]
      rw [hclose]
      exact ⟨n', c', b', h', hc', hn, .inl ⟨as', hs', hd⟩⟩

/-- When an attempt has been looked at and has asked for nothing, it has nothing to do. -/
theorem OnCourse.calm {l : Nat} {u : Attempt T} (hu : c.attempts[l]? = some u) (hn : 0 < n l)
    (hask : u.hasAsked = false) : u.stage.Calm (q.isCancelledBy w v.now) v.now := by
  have hst := (h.alike l u hu).stage
  rw [hst, h.now]
  obtain ⟨p, hp⟩ := Nat.exists_eq_succ_of_ne_zero (Nat.pos_iff_ne_zero.1 hn)
  rw [hp] at hst ⊢
  rcases course_rests (x := q.contextIn w a) henv hpolicy (h.mem_targets hu)
    (q.plan w.now).cancelAt { w.site a with fired := .calls [] } d p with hcalm | ⟨hasked, -⟩
  · exact Request.calmAt_iff.1 hcalm
  · change u.stage = _ at hst
    unfold Attempt.hasAsked at hask hasked
    rw [Request.course] at hst
    rw [← hst, hask] at hasked
    cases hasked

/-- Nothing is asked for after two looks. -/
theorem OnCourse.unasked {l : Nat} {u : Attempt T} (hu : c.attempts[l]? = some u) (hn : 2 ≤ n l) :
    u.hasAsked = false := by
  have hcalm := calmAt_of_le (x := q.contextIn w a) henv hpolicy (h.mem_targets hu)
    (calmAt_two (x := q.contextIn w a) henv hpolicy (h.mem_targets hu) (q.plan w.now).cancelAt
      { w.site a with fired := .calls [] } d) hn
  have hst : u.stage.Calm (q.isCancelledBy w (w.now + d)) (w.now + d) :=
    (h.alike l u hu).stage ▸ Request.calmAt_iff.1 hcalm
  exact Attempt.hasAsked_of_calm hst

/-- A clock that jumps over no instant at which something could happen finds the attempts
where they are then on their courses. -/
theorem OnCourse.advance {time : Nat} (htime : v.now < time)
    (hcalm : ∀ (l : Nat) u, c.attempts[l]? = some u → ∀ t, v.now ≤ t → t < time →
      u.stage.Calm (q.isCancelledBy w t) t) :
    OnCourse env q w a (time - w.now) (fun _ => 0) c b (v.advance time) := by
  have hnow := h.now
  have hadvance : (v.advance time).now = time := Nat.max_eq_right (Nat.le_of_lt htime)
  refine { h with now := by rw [hadvance]; omega, alike := fun l u hu => ?_ }
  obtain ⟨ht, hst, hsite⟩ := h.alike l u hu
  have hcalmAt : ∀ t, v.now ≤ t → t < time → (q.course env w a u.target d (n l)).1.stage.Calm
      (q.isCancelledBy w t) t := by
    intro t hle hlt
    rw [← hst]
    exact hcalm l u hu t hle hlt
  have hcourse : q.course env w a u.target (time - w.now) 0 =
      ((q.course env w a u.target d (n l)).1,
        { (q.course env w a u.target d (n l)).2 with now := w.now + (time - w.now) }) := by
    refine course_of_calm (x := q.contextIn w a) henv hpolicy (h.mem_targets hu) (by omega)
      (Request.calmAt_iff.2 (hcalmAt (w.now + d) (by omega) (by omega))) fun e hle hlt => ?_
    rw [Request.cancelled_course]
    exact hcalmAt (w.now + e) (by omega) (by show w.now + e < time; omega)
  rw [hcourse]
  refine ⟨ht, hst, ?_, hsite.fired, hsite.registry, hsite.store, hsite.trace⟩
  show (v.advance time).now = w.now + (time - w.now)
  omega

end OnCourse

/-! ## A visit -/

section Visit

variable {env : Collaborators C T} {q : Request C T} {w : World C T} {a : Activator}

theorem visit_eq (hdrop : q.dropAt = none) (v : World C T) (i : Nat) :
    v.visit env i (q.plan w.now) =
      (((((if (q.plan w.now).cancelAt.any (· ≤ v.now) then v.cancel i else v).join i).begin i).lookAll
        env i).close i) := by
  have hnone : (q.plan w.now).dropAt = none := by rw [Request.plan, hdrop]; rfl
  simp only [visit, World.poll, hnone, Option.any_none, Bool.false_eq_true, if_false]

/-- A call that is at work, before it is visited at an instant. -/
theorem OnCourse.entered {v : World C T} {d : Nat} {n : Nat → Nat} {c : Call C T} {b : Activator}
    {as : List (Attempt T)} (h : OnCourse env q w a d n c b v) (hs : c.stage = .working as)
    (hc : (c.cancelled || (q.plan w.now).cancelAt.any (· ≤ v.now)) = q.isCancelledBy w v.now) :
    ∃ c', OnCourse env q w a d n c' b
        (((if (q.plan w.now).cancelAt.any (· ≤ v.now) then v.cancel w.calls.length else v).join
          w.calls.length).begin w.calls.length) ∧
      c'.stage = .working as ∧ c'.cancelled = q.isCancelledBy w v.now := by
  have henter : ∀ {v' : World C T} {c' : Call C T}, OnCourse env q w a d n c' b v' →
      c'.stage = .working as → (v'.join w.calls.length).begin w.calls.length = v' := by
    intro v' c' h' hs'
    have hjoin : v'.join w.calls.length = v' := by simp only [join, h'.find?, hs']
    have hbegin : v'.begin w.calls.length = v' := by simp only [begin, h'.find?, hs']
    rw [hjoin, hbegin]
  split
  · next hdue =>
      rw [hdue, Bool.or_true] at hc
      have hs' : ({ c with cancelled := true } : Call C T).stage = .working as := hs
      exact ⟨_, by rw [henter h.cancel hs']; exact h.cancel, hs', hc⟩
  · next hdue =>
      rw [(Bool.not_eq_true _).mp hdue, Bool.or_false] at hc
      exact ⟨c, by rw [henter h hs]; exact h, hs, hc⟩

/-- The beginning of a call is no act for what the call wants. -/
theorem acts_beginWork_of_mem {k : Nat} {r : ResourceReference} (x : Context C) {targets : List T}
    (hr : r ∈ targets.map reference) (s : Site C T) :
    Trace.acts (beginWork x targets s).2.trace k r = Trace.acts s.trace k r := by
  rw [beginWork_eq]
  dsimp only
  rw [Trace.acts_append, Trace.acts_append, Trace.acts_of_none (t := List.reverse (_ : List _)),
    Trace.acts_of_none (t := List.reverse (_ : List _)), List.append_nil, List.append_nil]
  · intro e he
    obtain ⟨r, -, rfl⟩ := List.mem_map.1 (List.mem_reverse.1 he)
    rfl
  · intro e he
    obtain ⟨h, hh, rfl⟩ := List.mem_map.1 (List.mem_reverse.1 he)
    simp only [Store.stale, List.mem_filter, Bool.and_eq_true, decide_eq_true_eq] at hh
    have hne : h.reference ≠ r := by
      rintro rfl
      exact hh.2.2 hr
    simp [Entry.act?, Happening.act?, hne]

omit [Targeted T] in
theorem cancel_submit_eq (q : Request C T) (w : World C T) :
    (if (q.plan w.now).cancelAt.any (· ≤ w.now) then
        (w.submit [q.call]).cancel w.calls.length else w.submit [q.call]) =
      w.submit [{ q.call with cancelled := q.isCancelledBy w w.now }] := by
  split
  · next hdue =>
      have hcan : q.isCancelledBy w w.now = true := by
        rw [Request.isCancelledBy]
        exact Bool.or_eq_true_iff.2 (.inr hdue)
      simp only [World.cancel, submit, modify_concat, hcan]
  · next hdue =>
      have hcan : q.isCancelledBy w w.now = q.cancelled := by
        rw [Request.isCancelledBy]
        exact (congrArg _ ((Bool.not_eq_true _).mp hdue)).trans (Bool.or_false _)
      simp only [submit, hcan]
      rfl

variable (env) in
/-- A call that is made to a world at rest, when it has begun its work. -/
theorem OnCourse.made (hrest : w.AtRest q.activator) (ha : w.activators[q.activator]? = some a)
    {v : World C T} (hv : v = w.submit [q.call]) : ∃ c b, OnCourse env q w a 0 (fun _ => 0) c b
        (((if (q.plan w.now).cancelAt.any (· ≤ v.now) then v.cancel w.calls.length else v).join
          w.calls.length).begin w.calls.length) ∧
      c.stage = .working ((distinctTargets q.targets).map Attempt.begin) ∧
      c.cancelled = q.isCancelledBy w v.now := by
  subst hv
  -- The call with the cancellation that may be due.
  let c : Call C T := { q.call with cancelled := q.isCancelledBy w w.now }
  have henter : (if (q.plan w.now).cancelAt.any (· ≤ (w.submit [q.call]).now) then
      (w.submit [q.call]).cancel w.calls.length else w.submit [q.call]) = w.submit [c] :=
    cancel_submit_eq q w
  rw [henter]
  have hfind : (w.submit [c]).find? w.calls.length = some (c, a) :=
    find?_eq_some.2 ⟨by simp [submit], ha⟩
  have hjoin : (w.submit [c]).join w.calls.length =
      ((w.submit [c]).setQueue c.activator (· ++ [w.calls.length])).setStage w.calls.length
        .queued := by
    simp only [join, hfind]
    rfl
  have hqueued : ((w.submit [c]).join w.calls.length).find? w.calls.length =
      some ({ c with stage := .queued }, { a with queue := a.queue ++ [w.calls.length] }) := by
    rw [hjoin, find?_setStage, find?_setQueue, hfind]
    simp
  have hhead : (a.queue ++ [w.calls.length]).head? = some w.calls.length := by
    rw [hrest.queue a ha]
    rfl
  rw [begin_eq_begun hqueued rfl hhead]
  have hbegun := find?_begun ((w.submit [c]).join w.calls.length) w.calls.length
    { c with stage := .queued } { a with queue := a.queue ++ [w.calls.length] } w.calls.length
  rw [hqueued] at hbegun
  obtain ⟨-, hb⟩ := find?_eq_some.1 hbegun
  simp only [if_true] at hb
  refine ⟨{ c with stage := .working ((distinctTargets q.targets).map Attempt.begin) },
    { a with queue := _, store := _ }, ⟨?_, ?_, ?_, ?_, hb, rfl, rfl, rfl, rfl, ?_, ?_⟩, rfl, rfl⟩
  · rw [hjoin]
    rfl
  · rw [hjoin, begun, beginWork_eq]
    rfl
  · rw [hjoin, begun, beginWork_eq]
    show (((w.calls ++ [c]).modify w.calls.length _).modify w.calls.length _) = _
    rw [modify_concat, modify_concat]
    rfl
  · rw [hjoin]
    rfl
  · show ((distinctTargets q.targets).map Attempt.begin).map Attempt.target = _
    rw [List.map_map]
    exact List.map_id' _
  · intro j u hu
    have hu : ((distinctTargets q.targets).map Attempt.begin)[j]? = some u := hu
    rw [List.getElem?_map] at hu
    obtain ⟨t, ht, rfl⟩ := Option.map_eq_some_iff.1 hu
    have hmem : reference t ∈ q.targets.map reference :=
      List.mem_map_of_mem ((distinctBy_sublist ..).subset (List.mem_of_getElem? ht))
    have hacts : Trace.acts (((w.submit [c]).join w.calls.length).begun w.calls.length
        { c with stage := .queued } { a with queue := a.queue ++ [w.calls.length] }).trace
        q.activator (reference t) = Trace.acts w.trace q.activator (reference t) := by
      rw [hjoin]
      exact acts_beginWork_of_mem _ hmem _
    refine ⟨rfl, rfl, ?_, ?_, ?_, ?_, hacts⟩
    · rw [hjoin]
      rfl
    · rw [hjoin, begun, beginWork_eq]
      rfl
    · rw [hjoin, begun, beginWork_eq]
      exact Registry.Like.refl w.registry
    · have hkept : (a.store.retire (q.targets.map reference)).get? (reference t) =
          a.store.get? (reference t) := by
        simp only [Store.get?_retire, if_pos hmem, Option.map_id']
      exact hkept

end Visit

/-! ## A pass -/

/-- A call that is at work, between two passes. -/
structure Underway (env : Collaborators C T) (q : Request C T) (w : World C T) (a : Activator)
    (d m : Nat) (v : World C T) : Prop where
  working : ∃ n c b as, OnCourse env q w a d n c b v ∧ c.stage = .working as ∧
    as.all Attempt.isDone = false ∧ (∀ l, m ≤ n l) ∧
      (c.cancelled || (q.plan w.now).cancelAt.any (· ≤ v.now)) = q.isCancelledBy w v.now

/-- A call that has ended, at the first instant at which all its attempts are done. -/
structure Ended (env : Collaborators C T) (q : Request C T) (w : World C T) (a : Activator)
    (d : Nat) (v : World C T) : Prop where
  ended : ∃ n c b as, OnCourse env q w a d n c b v ∧ c.stage = .ended as (w.now + d) ∧
    as.all Attempt.isDone
  first : d = 0 ∨ ∃ t ∈ distinctTargets q.targets, (q.course env w a t d 0).1.isDone = false

/-- A call at work of which nothing more will come. -/
structure Stuck (env : Collaborators C T) (q : Request C T) (w : World C T) (a : Activator)
    (d : Nat) (v : World C T) : Prop where
  working : ∃ n c b as, OnCourse env q w a d n c b v ∧ c.stage = .working as ∧
    as.all Attempt.isDone = false ∧ ∀ (l : Nat) u, as[l]? = some u →
      ∀ e, (q.course env w a u.target e 2).1.isDone → u.isDone

/-- What a pass comes to, if it is not the first one at its instant but one after so many:
the call is over, or there is a second pass at the instant, or the clock has jumped. -/
def Passed (env : Collaborators C T) (q : Request C T) (w : World C T) (a : Activator)
    (d m : Nat) (p : World C T × Bool) : Prop :=
  (p.2 = false ∧ (Ended env q w a d p.1 ∨ Stuck env q w a d p.1)) ∨
    (p.2 = true ∧ (m = 0 ∧ Underway env q w a d 1 p.1 ∨ ∃ d' > d, Underway env q w a d' 0 p.1))

section Pass

variable {env : Collaborators C T} {q : Request C T} {w v : World C T} {a b : Activator} {d : Nat}
  {n : Nat → Nat} {c : Call C T} {as : List (Attempt T)} (hrest : w.AtRest q.activator)

theorem OnCourse.isQuiet_eq (hrest : w.AtRest q.activator) (h : OnCourse env q w a d n c b v) :
    v.isQuiet = c.isOver := by
  have hquiet := hrest.quiet
  rw [isQuiet] at hquiet ⊢
  rw [h.calls, List.all_append, hquiet]
  simp

theorem OnCourse.hasAsked_eq (hrest : w.AtRest q.activator) (h : OnCourse env q w a d n c b v) :
    v.hasAsked = c.attempts.any Attempt.hasAsked := by
  have hunasked := hrest.unasked
  rw [hasAsked] at hunasked ⊢
  rw [h.calls, List.any_append, hunasked]
  simp

/-- The clock jumps over no instant at which a call at work could go on. -/
theorem OnCourse.mem_wakes (h : OnCourse env q w a d n c b v) (hs : c.stage = .working as)
    {time : Nat} (ht : v.now < time) (hmem : time ∈ (q.plan w.now).cancelAt ∨
      ∃ u ∈ as, time ∈ u.wakes) : time ∈ v.wakes [q.plan w.now] := by
  have hdrop : v.calls.drop v.opened = [c] := by
    rw [h.calls, h.opened]
    simp
  have hover : c.isOver = false := by simp [Call.isOver, hs]
  have has : c.attempts = as := by rw [Call.attempts, hs]
  simp only [wakes, hdrop, List.mem_filter, List.mem_append, ht, decide_true, and_true]
  refine .inl (List.mem_flatMap.2 ⟨(c, q.plan w.now), List.mem_singleton_self _, ?_⟩)
  simp only [hover, Bool.false_eq_true, if_false, has, List.mem_append, List.mem_flatMap]
  rcases hmem with hmem | hmem
  · exact .inl (.inl (Option.mem_toList.2 hmem))
  · exact .inr hmem

variable (henv : env.Independent q.activator a.capability q.config (distinctTargets q.targets))
  (hpolicy : 0 < a.policy.pollInterval.ceilMillis)

include henv hpolicy

/-- After a look at it, an attempt that has asked for nothing has nothing to do before the
clock wakes it. -/
theorem OnCourse.calm_until (h : OnCourse env q w a d n c b v) (hs : c.stage = .working as)
    {l : Nat} {u : Attempt T} (hu : c.attempts[l]? = some u) (hn : 0 < n l)
    (hask : u.hasAsked = false) {t : Nat} (ht : v.now ≤ t)
    (hwakes : ∀ s ∈ v.wakes [q.plan w.now], v.now < s → t < s) :
    u.stage.Calm (q.isCancelledBy w t) t := by
  have hmem : u ∈ as := by
    rw [Call.attempts, hs] at hu
    exact List.mem_of_getElem? hu
  have hcalm := h.calm henv hpolicy hu hn hask
  rw [Request.isCancelledBy_eq ht fun s hs' hlt => hwakes s (h.mem_wakes hs hlt (.inl hs')) hlt]
  exact Attempt.calm_until hcalm fun s hs' hlt =>
    hwakes s (h.mem_wakes hs hlt (.inr ⟨u, hmem, hs'⟩)) hlt

/-- An attempt that has nothing more to do is where its course ends. -/
theorem OnCourse.isDone_of_calm (h : OnCourse env q w a d n c b v) {l : Nat} {u : Attempt T}
    (hu : c.attempts[l]? = some u)
    (hcalm : ∀ t, v.now ≤ t → u.stage.Calm (q.isCancelledBy w t) t) {e : Nat}
    (he : (q.course env w a u.target e 2).1.isDone) : u.isDone := by
  have hst := (h.alike l u hu).stage
  have hmem := h.mem_targets hu
  rw [Attempt.isDone_congr hst]
  have hcalmAt : ∀ t, v.now ≤ t → (q.course env w a u.target d (n l)).1.stage.Calm
      (q.isCancelledBy w t) t := by
    intro t ht
    rw [← hst]
    exact hcalm t ht
  have hnow := h.now
  have hrest := Request.calmAt_iff.2 (hcalmAt (w.now + d) (by omega))
  unfold Request.course at he ⊢
  rcases Nat.lt_trichotomy e d with hlt | rfl | hlt
  · rw [course_of_isDone (x := q.contextIn w a) henv hpolicy hmem he (.inl hlt)]
    exact he
  · rw [course_eq_two (x := q.contextIn w a) henv hpolicy hmem hrest]
    exact he
  · have hlater : ∀ e', d ≤ e' → (q.course env w a u.target d (n l)).1.stage.Calm
        (Site.cancelled { w.site a with fired := .calls [] }
          ((q.contextIn w a).asOf (q.plan w.now).cancelAt (w.now + e'))) (w.now + e') := by
      intro e' he'
      rw [Request.cancelled_course]
      exact hcalmAt _ (by omega)
    have hstart := course_of_calm (x := q.contextIn w a) henv hpolicy hmem hlt hrest
      fun e' he' _ => hlater e' he'
    have hend : CalmAt env (q.contextIn w a) (q.plan w.now).cancelAt u.target
        { w.site a with fired := .calls [] } e 0 := by
      rw [CalmAt, hstart]
      exact hlater e (Nat.le_of_lt hlt)
    rw [course_of_calmAt (x := q.contextIn w a) henv hpolicy hmem hend (Nat.zero_le 2),
      hstart] at he
    exact he

/-- What a pass comes to, once the call has been visited. -/
theorem pass_of_visit (hrest : w.AtRest q.activator) {d m : Nat} {v : World C T}
    {n : Nat → Nat} {c : Call C T} {b : Activator}
    (hfirst : d = 0 ∨ ∃ t ∈ distinctTargets q.targets, (q.course env w a t d 0).1.isDone = false)
    (hopened : v.opened = w.calls.length) (hnow : v.now = w.now + d) (hfired : v.fired = .calls [])
    (h : OnCourse env q w a d n c b (v.visit env w.calls.length (q.plan w.now)))
    (hcan : c.cancelled = q.isCancelledBy w v.now) (hn : ∀ l, m < n l)
    (hst : (∃ as, c.stage = .working as ∧ as.all Attempt.isDone = false) ∨
      ∃ as, c.stage = .ended as (w.now + d) ∧ as.all Attempt.isDone) :
    Passed env q w a d m (v.pass env [q.plan w.now]) := by
  have hvisit : visitFrom env v.opened [q.plan w.now] v =
      v.visit env w.calls.length (q.plan w.now) := by rw [hopened]; rfl
  generalize hp : v.pass env [q.plan w.now] = p
  symm at hp
  rw [pass, hvisit] at hp
  have hnow' := h.now
  have hturned := h.turnLoops
  rw [hturned.isQuiet_eq hrest, h.hasAsked_eq hrest, h.fired, hfired, bne_self_eq_false,
    Bool.or_false] at hp
  generalize v.visit env w.calls.length (q.plan w.now) = v₁ at h hp hturned
  rcases hst with ⟨as, hs, hd⟩ | ⟨as, hs, hd⟩
  · have has : c.attempts = as := by rw [Call.attempts, hs]
    have hover : c.isOver = false := by simp [Call.isOver, hs]
    rw [hover, has, if_neg Bool.false_ne_true] at hp
    have hnow₁ : v₁.turnLoops.now = v.now := hturned.now.trans hnow.symm
    by_cases hask : as.any Attempt.hasAsked
    · rw [if_pos hask] at hp
      obtain ⟨u, hu, huask⟩ := List.any_eq_true.1 hask
      obtain ⟨l, hl⟩ := List.mem_iff_getElem?.1 hu
      have hm : m = 0 := by
        have hlt := hn l
        by_contra hne
        rw [h.unasked henv hpolicy (has ▸ hl) (by omega)] at huask
        cases huask
      subst hm
      rw [hp]
      refine .inr ⟨rfl, .inl ⟨rfl, ⟨n, c, b, as, hturned, hs, hd, hn, ?_⟩⟩⟩
      rw [hcan]
      exact Request.isCancelledBy_or (Nat.le_of_eq hnow₁.symm)
    · rw [if_neg hask] at hp
      -- Nobody has anything to do now.
      have hcalm : ∀ (l : Nat) u, c.attempts[l]? = some u → ∀ t, v₁.turnLoops.now ≤ t →
          (∀ s ∈ v₁.turnLoops.wakes [q.plan w.now], v₁.turnLoops.now < s → t < s) →
          u.stage.Calm (q.isCancelledBy w t) t := by
        intro l u hu t ht hwakes
        have hunasked : u.hasAsked = false := by
          by_contra hne
          refine hask (List.any_eq_true.2 ⟨u, has ▸ List.mem_of_getElem? hu, ?_⟩)
          rwa [Bool.not_eq_false] at hne
        exact hturned.calm_until henv hpolicy hs hu (Nat.lt_of_le_of_lt (Nat.zero_le m) (hn l))
          hunasked ht hwakes
      cases hmin : (v₁.turnLoops.wakes [q.plan w.now]).min? with
      | none =>
          rw [hmin] at hp
          rw [hp]
          refine .inl ⟨rfl, .inr ⟨n, c, b, as, hturned, hs, hd, fun l u hu e he => ?_⟩⟩
          rw [← has] at hu
          refine hturned.isDone_of_calm henv hpolicy hu (fun t ht => ?_) he
          refine hcalm l u hu t ht fun s hs => ?_
          rw [List.min?_eq_none_iff.1 hmin] at hs
          cases hs
      | some t =>
          rw [hmin] at hp
          rw [hp]
          obtain ⟨hmem, hle⟩ := List.min?_eq_some_iff.1 hmin
          have hlt : v₁.turnLoops.now < t := of_decide_eq_true (List.mem_filter.1 hmem).2
          have hadvanced := hturned.advance henv hpolicy hlt fun l u hu s hs hst =>
            hcalm l u hu s hs fun s' hs' _ => Nat.lt_of_lt_of_le hst (hle s' hs')
          refine .inr ⟨rfl, .inr ⟨t - w.now, ?_, ⟨_, c, b, as, hadvanced, hs, hd,
            fun _ => Nat.zero_le _, ?_⟩⟩⟩
          · have h₁ := hturned.now
            show d < t - w.now
            omega
          · rw [hcan]
            exact Request.isCancelledBy_or (Nat.le_trans (Nat.le_of_eq hnow₁.symm)
              (Nat.le_max_left ..))
  · have hover : c.isOver = true := by simp [Call.isOver, hs]
    rw [hover, if_pos rfl] at hp
    rw [hp]
    exact .inl ⟨rfl, .inl ⟨⟨n, c, b, as, hturned, hs, hd⟩, hfirst⟩⟩

/-- What a pass comes to for a call that is at work. -/
theorem Underway.pass (hrest : w.AtRest q.activator) (hdrop : q.dropAt = none) {m : Nat}
    (h : Underway env q w a d m v) :
    Passed env q w a d m (v.pass env [q.plan w.now]) := by
  obtain ⟨n, c, b, as, h, hs, hd, hn, hcan⟩ := h.working
  obtain ⟨c₁, h₁, hs₁, hcan₁⟩ := h.entered hs hcan
  have hnow₁ := h₁.now.trans h.now.symm
  obtain ⟨n₂, c₂, b₂, h₂, hcan₂, hn₂, hst₂⟩ := h₁.attend henv hpolicy hs₁ (by rw [hcan₁, hnow₁])
  rw [← visit_eq hdrop] at h₂
  refine pass_of_visit henv hpolicy hrest (.inr ?_) h.opened h.now h.fired h₂ (hcan₂.trans hcan₁)
    (fun l => Nat.lt_of_le_of_lt (hn l) (hn₂ l)) hst₂
  -- An attempt that is not done yet was not done when the instant came.
  obtain ⟨u, hu, hud⟩ := List.all_eq_false.1 hd
  obtain ⟨l, hl⟩ := List.mem_iff_getElem?.1 hu
  have has : c.attempts = as := by rw [Call.attempts, hs]
  rw [← has] at hl
  refine ⟨u.target, h.mem_targets hl, ?_⟩
  by_contra hdone
  rw [Bool.not_eq_false] at hdone
  refine hud ?_
  rw [Attempt.isDone_congr (h.alike l u hl).stage]
  unfold Request.course at hdone ⊢
  rw [course_of_isDone (x := q.contextIn w a) henv hpolicy (h.mem_targets hl) hdone
    (.inr ⟨rfl, Nat.zero_le _⟩)]
  exact hdone

/-- What the first pass comes to for a call that is made to a world at rest. -/
theorem pass_submit (hrest : w.AtRest q.activator) (hdrop : q.dropAt = none)
    (ha : w.activators[q.activator]? = some a) :
    Passed env q w a 0 0 ((w.submit [q.call]).pass env [q.plan w.now]) := by
  obtain ⟨c₁, b₁, h₁, hs₁, hcan₁⟩ := OnCourse.made env hrest ha rfl
  obtain ⟨n₂, c₂, b₂, h₂, hcan₂, hn₂, hst₂⟩ := h₁.attend henv hpolicy hs₁ (by rw [hcan₁, h₁.now]; rfl)
  rw [← visit_eq hdrop] at h₂
  exact pass_of_visit (v := w.submit [q.call]) henv hpolicy hrest (.inl rfl) rfl rfl rfl h₂
    (hcan₂.trans hcan₁) hn₂ hst₂

end Pass

end World

end Lifecycle
