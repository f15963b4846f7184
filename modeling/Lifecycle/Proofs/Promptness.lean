import Lifecycle.Proofs.Cancellation
import Lifecycle.Proofs.Punctual

/-!
# A cancelled call ends as soon as it has its turn

A cancelled call has nothing to wait for. Its attempts give up at the next look,
whether they wait for a schema or for a registration that watches its call, so once
its turn has come it ends at the instant of its cancellation, or at that of its turn
if that is later: `ends_with_its_turn`.

The queue is the exception. A call that waits for its turn does not notice that it is
cancelled, and nothing is done about it before the calls in front of it have ended,
which may take as long as they like. So the call has ended by the instant of its
cancellation exactly if its turn has come by then.

As in every statement about time the clock has to wait for what can be done, here for
the call that is cancelled. `Attends` says so, and what is asked of the clock is no
more than it can give: for the turn of a call it never has to wait, and the rest is a
matter of one look at each attempt (`exists_idle`).
-/

namespace Lifecycle

variable {C T : Type}

/-- Whether a registration watches its call wherever it sleeps. -/
def Registration.Watches : Registration → Prop
  | finish _ => True
  | spawn _ _ next | cancel _ next | synced next => next.Watches
  | spawnOr _ _ next refused => next.Watches ∧ refused.Watches
  | sleep _ interrupted next => interrupted.isSome ∧ next.Watches

/-- Whether all registrations end as soon as their calls are cancelled. -/
def Collaborators.Watches (env : Collaborators C T) : Prop :=
  ∀ tr now capability t config, (env.create tr now capability t config).registration.Watches

def Stage.Watches : Stage → Prop
  | .registering _ _ rest _ => rest.Watches
  | _ => True

theorem Registration.Step.watches {x : Context C} {c : String} {r : ResourceReference}
    {rest rest' : Registration} {since : Nat} {s s' : Site C T}
    (h : Registration.Step x c r rest since s rest' s') (hw : rest.Watches) : rest'.Watches := by
  cases h with
  | spawn | cancel | synced => exact hw
  | spawnOr => exact hw.1
  | refused | wake => exact hw.2

/-- If its call is cancelled, what watches it has always something to do, until it is done. -/
theorem Attempt.isDone_of_calm {u : Attempt T} {now : Nat} (hw : u.stage.Watches)
    (h : u.stage.Calm true now) : u.isDone := by
  cases hst : u.stage with
  | fresh =>
      rw [hst] at h
      exact h.elim
  | waiting =>
      rw [hst] at h
      cases h.1
  | registering c free rest since =>
      rw [hst] at h hw
      obtain ⟨millis, interrupted, next, rfl, hcalm, -⟩ := h
      exact absurd ⟨rfl, hw.1⟩ hcalm
  | done => simp [isDone, hst]

variable [Targeted T]

theorem Attempt.Step.watches {env : Collaborators C T} {x : Context C}
    {p q : Attempt T × Site C T} (h : Attempt.Step env x p q) (henv : env.Watches)
    (hp : p.1.stage.Watches) : q.1.stage.Watches := by
  cases h with
  | draw => exact hp
  | create _ _ _ _ _ _ _ hk =>
      subst hk
      exact henv ..
  | register hr hs =>
      rw [hr] at hp
      exact hs.watches hp
  | _ => trivial

namespace World

/-! ## Where attempts are between the moves -/

section Between

variable {env : Collaborators C T} {policies : List (String × Policy)} {m : Move C T}
  {w w' : World C T} {i : Nat}

theorem Reachable.watches (hw : Reachable env policies w) (henv : env.Watches) {j : Nat}
    {u : Attempt T} (hu : w.attempt? i j = some u) : u.stage.Watches := by
  obtain ⟨ms, rfl⟩ := hw
  revert i j u
  refine invariant_of_orderly (A := fun _ => True)
    (P := fun v => ∀ {i j u}, v.attempt? i j = some u → u.stage.Watches)
    (fun _ h hv ih i j u hu => ?_) (fun _ _ => trivial) (orderly_ofActivators policies) nofun
  cases h.fate hv hu with
  | kept hu => exact ih hu
  | begun _ _ _ hu =>
      subst hu
      trivial
  | looked hf hst hget hp =>
      exact hp.watches henv (ih ((attempt?_of_working hf hst j).trans hget))

/-- Only its turn makes a call begin, unless it is dropped. -/
theorem Step.hasBegun_eq_false (h : Step env m w w') (hb : w.hasBegun i = false)
    (hbegin : m ≠ .begin i) (hdrop : m ≠ .drop i) : w'.hasBegun i = false := by
  have hmodify : ∀ {l : Nat} {f : Call C T → Call C T}, w'.calls = w.calls.modify l f →
      (∀ c, l = i → w.calls[i]? = some c → c.hasBegun = false → (f c).hasBegun = false) →
      w'.hasBegun i = false := by
    intro l f hf hl
    rw [World.hasBegun, hf, List.getElem?_modify]
    rw [World.hasBegun] at hb
    cases hc : w.calls[i]? with
    | none => rfl
    | some c =>
        rw [hc] at hb
        by_cases hli : l = i
        · simpa [hli] using hl c hli hc hb
        · simpa [hli] using hb
  -- A call at work has begun.
  have hworking : ∀ {l : Nat} {c : Call C T} {a : Activator} {as : List (Attempt T)},
      w.find? l = some (c, a) → c.stage = .working as → l ≠ i := by
    rintro l c a as hf hs rfl
    simp [World.hasBegun, (find?_eq_some.1 hf).1, Call.hasBegun, hs] at hb
  have hback := h.background
  cases h with
  | submit =>
      show (w.calls ++ _)[i]?.any Call.hasBegun = false
      rw [List.getElem?_append]
      split
      · exact hb
      · refine Bool.eq_false_iff.2 fun hany => ?_
        obtain ⟨d, hd, hbegun⟩ := (Option.any_eq_true ..).1 hany
        obtain ⟨q, -, rfl⟩ := List.mem_map.1 (List.mem_of_getElem? hd)
        cases hbegun
  | join => exact hmodify rfl fun _ _ _ _ => rfl
  | @begin _ l => exact hmodify rfl fun _ hl => absurd (by rw [hl]) hbegin
  | look hf hs => exact hmodify rfl fun _ hl => absurd hl (hworking hf hs)
  | close hf hs => exact hmodify (closed_calls ..) fun _ hl => absurd hl (hworking hf hs)
  | cancel => exact hmodify (f := fun c => { c with cancelled := true }) rfl fun _ _ _ h => h
  | @drop _ l => exact hmodify rfl fun _ hl => absurd (by rw [hl]) hdrop
  | _ =>
      obtain ⟨hcs, -, -⟩ := hback rfl
      rwa [World.hasBegun, hcs]

theorem hasBegun_move_eq_false (hb : w.hasBegun i = false) (hbegin : m ≠ .begin i)
    (hdrop : m ≠ .drop i) : (w.move env m).hasBegun i = false :=
  invariant_of_move (P := fun v => v.hasBegun i = false)
    (fun h hv => h.hasBegun_eq_false hv hbegin hdrop) hb

/-- What a move leaves of a registration has come to a sleep. -/
theorem Reachable.sleeps (hw : Reachable env policies w) {j : Nat} {u : Attempt T}
    (hu : w.attempt? i j = some u) : u.stage.Sleeps := by
  obtain ⟨ms, rfl⟩ := hw
  revert i j u
  induction ms using List.reverseRecOn with
  | nil => nofun
  | append_singleton ms m ih =>
      intro i j u hu
      rw [play_concat] at hu
      generalize (ofActivators policies).play env ms = v at ih hu
      cases hb : v.hasBegun i with
      | true => exact sleeps_move env m hb (fun _ _ => ih) j u hu
      | false =>
          by_cases hm : ∃ l k, m = .look l k
          · obtain ⟨l, k, rfl⟩ := hm
            obtain ⟨c, hc, hj⟩ := Option.bind_eq_some_iff.1 ((attempt?_eq ..).symm.trans hu)
            have hb' : (v.move env (.look l k)).hasBegun i = false :=
              hasBegun_move_eq_false hb nofun nofun
            rw [hasBegun_of_attempts hc hj] at hb'
            cases hb'
          · rcases move_cases env v fun l k h => hm ⟨l, k, h⟩ with h | h
            · rw [h] at hu
              exact ih hu
            · cases h.fate_of_not_begun hb hu with
              | kept hu => exact ih hu
              | begun _ _ _ hu =>
                  subst hu
                  trivial
              | looked hf hst =>
                  simp [World.hasBegun, (find?_eq_some.1 hf).1, Call.hasBegun, hst] at hb

end Between

/-! ## Runs that attend to a call -/

/-- Whether a call has nothing to do before some time, unless its turn comes. -/
def Idle (w : World C T) (i time : Nat) : Prop :=
  ∀ c a, w.find? i = some (c, a) →
    match c.stage with
    | .fresh => False
    | .queued => a.queue.head? ≠ some i
    | .working us => us.all Attempt.isDone = false ∧
      ∀ u ∈ us, ∀ s, w.now ≤ s → s < time → u.stage.Calm (w.isCancelled i) s
    | _ => True

/-- A run that does not drop a call, and in which time goes on only when the call has
nothing to do. -/
def Attends (env : Collaborators C T) (i : Nat) : World C T → List (Move C T) → Prop :=
  Along env fun w m => m ≠ .drop i ∧ ∀ time, m = .advance time → w.now < time → w.Idle i time

section Attends

variable {env : Collaborators C T} {policies : List (String × Policy)} {m : Move C T}
  {w w' : World C T} {i time : Nat}

theorem attends_of_still {ms : List (Move C T)}
    (hms : ∀ m ∈ ms, m ≠ .drop i ∧ ∀ time, m ≠ .advance time) : w.Attends env i ms :=
  along_of_forall fun m hm _ => ⟨(hms m hm).1, fun time h => absurd h ((hms m hm).2 time)⟩

theorem Attends.drop_notMem {ms : List (Move C T)} (hms : w.Attends env i ms) : .drop i ∉ ms := by
  intro hm
  obtain ⟨v, hdrop, -⟩ := Along.exists_of_mem hms hm
  exact hdrop rfl

/-- Whether a call is at work at an instant, or ended at it. -/
def WorksUntil (w : World C T) (i time : Nat) : Prop :=
  ∃ c a us, w.find? i = some (c, a) ∧
    (c.stage = .working us ∧ w.now = time ∨ c.stage = .ended us time)

theorem WorksUntil.step (hw : w.WorksUntil i time) (h : Step env m w w') (hdrop : m ≠ .drop i)
    (hm : ∀ time, m ≠ .advance time) : w'.WorksUntil i time := by
  obtain ⟨c, a, us, hf, hst⟩ := hw
  obtain ⟨c', a', hf', -⟩ := h.find?_kept hf
  have hnow := h.now_eq hm
  have hb : c.hasBegun := by
    rcases hst with ⟨hst, -⟩ | hst <;> simp [Call.hasBegun, hst]
  rcases h.stage_cases (find?_eq_some.1 hf).1 hb (find?_eq_some.1 hf').1 with
    heq | hd | ⟨_, us', j, u, p, -, hs, -, -, heq⟩ | ⟨us', hs, -, heq⟩
  · exact ⟨c', a', us, hf', by rwa [heq, hnow]⟩
  · exact absurd hd hdrop
  all_goals
    rcases hst with ⟨-, rfl⟩ | hst
    · first
        | exact ⟨c', a', _, hf', .inl ⟨heq, hnow⟩⟩
        | exact ⟨c', a', _, hf', .inr heq⟩
    · rw [hst] at hs
      cases hs

/-- The clock does not go on while a cancelled call is at work. -/
theorem WorksUntil.move (hw : w.WorksUntil i time) (hreach : Reachable env policies w)
    (henv : env.Watches) (hi : w.Cancelled i) (hdrop : m ≠ .drop i)
    (hidle : ∀ time, m = .advance time → w.now < time → w.Idle i time) :
    (w.move env m).WorksUntil i time := by
  by_cases hm : ∃ t, m = .advance t
  · obtain ⟨t, rfl⟩ := hm
    obtain ⟨c, a, us, hf, ⟨hst, hnow⟩ | hst⟩ := hw
    · refine ⟨c, a, us, hf, .inl ⟨hst, ?_⟩⟩
      suffices hle : ¬ w.now < t from (Nat.max_eq_left (Nat.le_of_not_lt hle)).trans hnow
      intro hlt
      have h := hidle t rfl hlt c a hf
      rw [hst] at h
      obtain ⟨hall, hcalm⟩ := h
      rw [hi.cancelled c (find?_eq_some.1 hf).1 (by simp [Call.isOver, hst])] at hcalm
      refine Bool.false_ne_true (hall.symm.trans (List.all_eq_true.2 fun u hu => ?_))
      obtain ⟨j, hj⟩ := List.getElem?_of_mem hu
      exact Attempt.isDone_of_calm
        (hreach.watches henv ((attempt?_of_working hf hst j).trans hj))
        (hcalm u hu w.now (Nat.le_refl _) hlt)
    · exact ⟨c, a, us, hf, .inr hst⟩
  · exact invariant_of_move (P := fun v => v.WorksUntil i time)
      (fun h hv => hv.step h hdrop fun t ht => hm ⟨t, ht⟩) hw

theorem WorksUntil.play {ms : List (Move C T)} (hw : w.WorksUntil i time)
    (hreach : Reachable env policies w) (henv : env.Watches) (hi : w.Cancelled i)
    (hms : w.Attends env i ms) : (w.play env ms).WorksUntil i time :=
  (Along.invariant (P := fun v => v.WorksUntil i time ∧ Reachable env policies v ∧ v.Cancelled i)
    hms (fun {_ m} hm hv => ⟨hv.1.move hv.2.1 henv hv.2.2 hm.1 hm.2, hv.2.1.play [m],
      cancelled_play hv.2.2 [m]⟩) ⟨hw, hreach, hi⟩).1

theorem worksUntil_begin (h : w.hasTurn i) : (w.begin i).WorksUntil i w.now := by
  obtain ⟨c, a, hf, hs, hh⟩ := hasTurn_iff.1 h
  obtain ⟨b, hf'⟩ := find?_begin hf hs hh
  refine ⟨_, b, _, hf', .inl ⟨rfl, ?_⟩⟩
  rw [begin_eq_begun hf hs hh]
  rfl

omit [Targeted T] in
/-- When time has gone on, the call has ended. -/
theorem WorksUntil.ended (hw : w.WorksUntil i time) (hlt : time < w.now) :
    ∃ d us, w.calls[i]? = some d ∧ d.stage = .ended us time := by
  obtain ⟨c, a, us, hf, ⟨-, rfl⟩ | hst⟩ := hw
  · exact absurd hlt (Nat.lt_irrefl _)
  · exact ⟨c, us, (find?_eq_some.1 hf).1, hst⟩

/-! ### Turns -/

theorem exists_of_mem_turns {k : Nat} {ms : List (Move C T)}
    (h : (i, time) ∈ turns env k w ms) : ∃ ms₁ ms₂, ms = ms₁ ++ .begin i :: ms₂ ∧
      (w.play env ms₁).hasTurn i ∧ (w.play env ms₁).now = time := by
  induction ms generalizing w with
  | nil => cases h
  | cons m ms ih =>
      rcases List.mem_append.1 h with h | h
      · unfold turn at h
        split at h
        · split at h
          · next hturn =>
              cases List.mem_singleton.1 h
              exact ⟨[], ms, rfl, hturn.1, rfl⟩
          · cases h
        · cases h
      · obtain ⟨ms₁, ms₂, rfl, hturn⟩ := ih h
        exact ⟨m :: ms₁, ms₂, rfl, hturn⟩

/-- A call that begins in a run has its turn in it. -/
theorem mem_turns_of_hasBegun {k : Nat} {ms : List (Move C T)} (hon : w.isOn k i)
    (hb : w.hasBegun i = false) (hdrop : .drop i ∉ ms) (hb' : (w.play env ms).hasBegun i) :
    ∃ time, (i, time) ∈ turns env k w ms := by
  induction ms generalizing w with
  | nil => cases hb.symm.trans hb'
  | cons m ms ih =>
      have hon' : (w.move env m).isOn k i :=
        invariant_of_move (P := fun v => v.isOn k i) (fun h hv => h.isOn hv) hon
      have hlater : (w.move env m).hasBegun i = false → ∃ time, (i, time) ∈ turns env k w (m :: ms) :=
        fun hb => (ih hon' hb (fun h => hdrop (.tail m h)) hb').imp fun _ =>
          List.mem_append_right _
      by_cases hm : m = .begin i
      · subst hm
        cases hturn : w.hasTurn i with
        | true => exact ⟨w.now, List.mem_append_left _ (by simp [turn, hturn, hon])⟩
        | false => exact hlater (by rw [move, begin_eq_self hturn, hb])
      · exact hlater (hasBegun_move_eq_false hb hm fun h => hdrop (h ▸ .head ms))

/-! ### The clock need not stand still -/

/-- A look at an attempt that watches its call ends it. -/
theorem find?_look_of_watches (hw : Reachable env policies w) (henv : env.Watches)
    (hi : w.Cancelled i) {c : Call C T} {a : Activator} {us : List (Attempt T)} {j : Nat}
    {t : Attempt T} (hf : w.find? i = some (c, a)) (hs : c.stage = .working us)
    (ht : us[j]? = some t) : ∃ c' a' u, (w.look env i j).find? i = some (c', a') ∧
      c'.stage = .working (us.set j u) ∧ u.isDone := by
  obtain ⟨u, ⟨c', a', us', hf', hs', hu⟩, hstopped⟩ :=
    Has.stopped env ⟨c, a, us, hf, hs, ht⟩ hi
  have hput := hf'
  rw [look_eq_put hf hs ht, find?_put hf] at hput
  cases hput
  cases hs'
  rw [List.getElem?_set_self (List.getElem?_eq_some_iff.1 ht).1] at hu
  cases hu
  refine ⟨_, _, _, hf', rfl, hstopped.resolve_right ?_⟩
  rintro ⟨_, _, rest, _, hst, hne⟩
  have hget := (attempt?_of_working hf hs j).trans ht
  have hsleeps := hw.sleeps hget
  have hwatches := hw.watches henv hget
  rw [hst] at hsleeps hwatches
  obtain ⟨millis, interrupted, next, rfl⟩ := hsleeps
  obtain ⟨fault, rfl⟩ := Option.isSome_iff_exists.1 hwatches.1
  exact hne _ _ _ rfl

theorem exists_idle_of_working (hw : Reachable env policies w) (henv : env.Watches)
    (hi : w.Cancelled i) {c : Call C T} {a : Activator} {us : List (Attempt T)}
    (hf : w.find? i = some (c, a)) (hs : c.stage = .working us) :
    ∃ ms, (∀ m ∈ ms, m ≠ .drop i ∧ ∀ time, m ≠ .advance time) ∧
      ∀ time, (w.play env ms).Idle i time := by
  obtain ⟨ms, hms, -, c', a', us', hf', hs', -, hdone⟩ :=
    exists_looks (Q := fun v => Reachable env policies v ∧ v.Cancelled i)
      (P := fun u => u.isDone) (fun hv hf hs ht => ⟨[.look i _], by simp,
        ⟨hv.1.play _, cancelled_play hv.2 _⟩, find?_look_of_watches hv.1 henv hv.2 hf hs ht⟩)
      ⟨hw, hi⟩ hf hs
  refine ⟨ms ++ [.close i], fun m hm => ?_, fun time d b hfd => ?_⟩
  · rcases List.mem_append.1 hm with hm | hm
    · obtain ⟨j, rfl⟩ := hms m hm
      exact ⟨nofun, nofun⟩
    · rw [List.mem_singleton.1 hm]
      exact ⟨nofun, nofun⟩
  · rw [play_concat, World.move, close_eq_closed hf' hs' (List.all_eq_true.2 hdone), find?_closed,
      hf'] at hfd
    cases hfd
    simp

theorem exists_idle_of_queued (hw : Reachable env policies w) (henv : env.Watches)
    (hi : w.Cancelled i) {c : Call C T} {a : Activator} (hf : w.find? i = some (c, a))
    (hs : c.stage = .queued) : ∃ ms, (∀ m ∈ ms, m ≠ .drop i ∧ ∀ time, m ≠ .advance time) ∧
      ∀ time, (w.play env ms).Idle i time := by
  by_cases hh : a.queue.head? = some i
  · obtain ⟨b, hf'⟩ := find?_begin hf hs hh
    have hi' : (w.play env [.begin i]).Cancelled i := cancelled_play hi _
    obtain ⟨ms, hms, hidle⟩ := exists_idle_of_working (hw.play [.begin i]) henv hi' hf' rfl
    exact ⟨.begin i :: ms, List.forall_mem_cons.2 ⟨⟨nofun, nofun⟩, hms⟩, hidle⟩
  · refine ⟨[], nofun, fun time d b hfd => ?_⟩
    obtain ⟨rfl, rfl⟩ := Prod.mk.inj (Option.some.inj (hf.symm.trans hfd))
    rw [hs]
    exact hh

/-- A cancelled call can be carried on until it has nothing to do. -/
theorem exists_idle (hw : Reachable env policies w) (henv : env.Watches) (hi : w.Cancelled i) :
    ∃ ms, (∀ m ∈ ms, m ≠ .drop i ∧ ∀ time, m ≠ .advance time) ∧
      ∀ time, (w.play env ms).Idle i time := by
  cases hf : w.find? i with
  | none => exact ⟨[], List.forall_mem_nil _, fun time c a h => by cases hf.symm.trans h⟩
  | some p =>
      obtain ⟨c, a⟩ := p
      cases hs : c.stage with
      | fresh =>
          have hjoin : w.join i = (w.setQueue c.activator (· ++ [i])).setStage i .queued := by
            simp only [join, hf, hs]
          have hf' : (w.join i).find? i = some ({ c with stage := .queued },
              { a with queue := a.queue ++ [i] }) := by
            rw [hjoin, find?_setStage, find?_setQueue, hf]
            simp
          have hi' : (w.play env [.join i]).Cancelled i := cancelled_play hi _
          obtain ⟨ms, hms, hidle⟩ := exists_idle_of_queued (hw.play [.join i]) henv hi' hf' rfl
          exact ⟨.join i :: ms, List.forall_mem_cons.2 ⟨by simp, hms⟩, hidle⟩
      | queued => exact exists_idle_of_queued hw henv hi hf hs
      | working us => exact exists_idle_of_working hw henv hi hf hs
      | ended | dropped =>
          refine ⟨[], List.forall_mem_nil _, fun time d b hfd => ?_⟩
          obtain ⟨rfl, rfl⟩ := Prod.mk.inj (Option.some.inj (hf.symm.trans hfd))
          rw [hs]
          trivial

/-- Every run can be brought to any time. -/
theorem exists_attends (hw : Reachable env policies w) (henv : env.Watches) (hi : w.Cancelled i)
    (time : Nat) : ∃ ms, w.Attends env i ms ∧ time ≤ (w.play env ms).now := by
  obtain ⟨ms, hms, hidle⟩ := exists_idle hw henv hi
  refine ⟨ms ++ [.advance time], (along_append ..).2 ⟨attends_of_still hms, ?_⟩, ?_⟩
  · exact ⟨⟨nofun, fun _ _ _ => hidle _⟩, trivial⟩
  · rw [play_concat]
    exact Nat.le_max_right ..

end Attends

/-! ## When a cancelled call ends -/

/-- Of the calls that are cancelled, whose registrations all watch them, exactly those have
ended by the instant of the cancellation whose turn has come by then. Those whose turn comes
later end as it comes, whatever others do on the activator or elsewhere; and the clock can
always be brought further. -/
theorem ends_with_its_turn {env : Collaborators C T} {policies : List (String × Policy)}
    {w : World C T} (hw : Reachable env policies w) (henv : env.Watches) {i : Nat} {c : Call C T}
    {a : Activator} (hf : w.find? i = some (c, a)) (hover : c.isOver = false)
    (hi : w.isCancelled i) {ms : List (Move C T)} (hms : w.Attends env i ms) :
    let v := w.play env ms
    (w.now < v.now →
      ((∃ d us time, v.calls[i]? = some d ∧ d.stage = .ended us time ∧ time ≤ w.now) ↔
        w.hasBegun i ∨ (i, w.now) ∈ turns env c.activator w ms)) ∧
    (∀ time, (i, time) ∈ turns env c.activator w ms → time < v.now →
      ∃ d us, v.calls[i]? = some d ∧ d.stage = .ended us time) ∧
    ∀ time, ∃ ms', v.Attends env i ms' ∧ time ≤ (v.play env ms').now := by
  intro v
  obtain ⟨hc, -⟩ := find?_eq_some.1 hf
  have hcan : w.Cancelled i := ⟨⟨c, hc⟩, fun _ _ _ => hi⟩
  have hturn : ∀ time, (i, time) ∈ turns env c.activator w ms →
      w.now ≤ time ∧ v.WorksUntil i time := by
    intro time ht
    obtain ⟨ms₁, ms₂, rfl, hturn, rfl⟩ := exists_of_mem_turns ht
    obtain ⟨-, -, hms⟩ := (along_append ..).1 hms
    have hi' : (World.play env w (ms₁ ++ [.begin i])).Cancelled i := cancelled_play hcan _
    have hbegin := worksUntil_begin hturn
    refine ⟨now_le_play .., ?_⟩
    rw [play_concat] at hi'
    show ((w.play env (ms₁ ++ .begin i :: ms₂))).WorksUntil i _
    rw [play_append]
    exact hbegin.play ((hw.play ms₁).play [.begin i]) henv hi' hms
  refine ⟨fun hlt => ⟨?_, ?_⟩, fun time ht hlt => (hturn time ht).2.ended hlt,
    exists_attends (hw.play ms) henv (cancelled_play hcan ms)⟩
  · rintro ⟨d, us, time, hd, hst, hle⟩
    refine or_iff_not_imp_left.2 fun hb => ?_
    have hb' : v.hasBegun i := by simp [World.hasBegun, hd, Call.hasBegun, hst]
    obtain ⟨time', ht⟩ := mem_turns_of_hasBegun (isOn_iff.2 ⟨c, hc, rfl⟩)
      (Bool.eq_false_iff.2 hb) hms.drop_notMem hb'
    obtain ⟨hle', hworks⟩ := hturn time' ht
    obtain ⟨c', a', us', hf', hst'⟩ := hworks
    obtain rfl : c' = d := Option.some.inj ((find?_eq_some.1 hf').1.symm.trans hd)
    rcases hst' with ⟨hst', -⟩ | hst' <;> cases hst.symm.trans hst'
    rwa [Nat.le_antisymm hle hle'] at ht
  · rintro (hb | ht)
    · have hworks : w.WorksUntil i w.now := by
        rw [World.hasBegun, hc, Option.any_some] at hb
        cases hs : c.stage with
        | working us => exact ⟨c, a, us, hf, .inl ⟨hs, rfl⟩⟩
        | _ => simp [Call.hasBegun, Call.isOver, hs] at hb hover
      obtain ⟨d, us, hd, hst⟩ := (hworks.play hw henv hcan hms).ended hlt
      exact ⟨d, us, _, hd, hst, Nat.le_refl _⟩
    · obtain ⟨d, us, hd, hst⟩ := (hturn _ ht).2.ended hlt
      exact ⟨d, us, _, hd, hst, Nat.le_refl _⟩

/-- A call that is cancelled in the middle of its registration. -/
theorem ends_with_its_turn_registering :
    let env : Collaborators String ResourceReference :=
      { Collaborators.prompt with
        create := fun _ _ _ r _ =>
          ⟨r.name, .sleep (some 1000) (some none) (.spawn r.name .forever (.finish none))⟩ }
    let policies := [("widgets", Policy.default)]
    let w := (ofActivators policies).play env [.submit [.plain 0 "v1" ["a"]], .join 0, .begin 0,
      .look 0 0, .advance 300, .cancel 0]
    ∃ c a, Reachable env policies w ∧ env.Watches ∧ w.find? 0 = some (c, a) ∧
      c.isOver = false ∧ w.isCancelled 0 ∧ ∃ ms, w.Attends env 0 ms ∧
        ∃ d us time, (w.play env ms).calls[0]? = some d ∧ d.stage = .ended us time ∧ time ≤ 300 := by
  intro env policies w
  have hreach : Reachable env policies w := ⟨_, rfl⟩
  have henv : env.Watches := fun _ _ _ _ _ => ⟨rfl, trivial⟩
  have hi : w.isCancelled 0 := by decide +kernel
  have hnow : w.now = 300 := by decide +kernel
  have hcall : (w.find? 0).any fun p => p.1.isOver = false ∧ p.1.hasBegun := by decide +kernel
  clear_value w
  obtain ⟨⟨c, a⟩, hf, hkept⟩ := (Option.any_eq_true ..).1 hcall
  obtain ⟨hover, hb⟩ := of_decide_eq_true hkept
  have hbegun : w.hasBegun 0 := by rwa [hasBegun, (find?_eq_some.1 hf).1, Option.any_some]
  have hnil : w.Attends env 0 [] := trivial
  obtain ⟨-, -, hreaches⟩ := ends_with_its_turn hreach henv hf hover hi hnil
  obtain ⟨ms, hms, hlate⟩ := hreaches 301
  obtain ⟨hends, -⟩ := ends_with_its_turn hreach henv hf hover hi hms
  rw [hnow] at hends
  exact ⟨c, a, hreach, henv, hf, hover, hi, ms, hms, (hends hlate).2 (.inl hbegun)⟩

/-- Two calls, of which the first waits for a check that hangs until its deadline. The second
is cancelled from the start, and ends ten seconds later. -/
theorem cancellation_unnoticed_in_queue :
    let env : Collaborators String ResourceReference :=
      { Collaborators.prompt with check := fun _ _ _ => ⟨false, none, .ready⟩ }
    let call : Request String ResourceReference := .plain 0 "v1" ["a"]
    let w := (ofActivators [("widgets", Policy.default)]).play env
      [.submit [call, { call with cancelled := true }], .join 0, .join 1, .begin 0, .look 0 0]
    let ms := [.advance 10000, .look 0 0, .close 0, .begin 1, .look 1 0, .close 1]
    env.Watches ∧ w.now = 0 ∧ w.isCancelled 1 ∧ w.Attends env 0 ms ∧ w.Attends env 1 ms ∧
      ((w.play env ms).calls[1]?.bind Call.result?).map Prod.snd = some 10000 := by
  intro env call w ms
  have henv : env.Watches := fun _ _ _ _ _ => trivial
  have hnow : w.now = 0 := by decide +kernel
  have hi : w.isCancelled 1 ∧ w.isCancelled 0 = false := by decide +kernel
  have hends : ((w.play env ms).calls[1]?.bind Call.result?).map Prod.snd = some 10000 := by
    decide +kernel
  have hstages : (w.find? 0).map (fun p => p.1.stage) = some (.working [⟨.plain "a",
        .waiting ⟨200, 10000, .inFlight ⟨false, none, .ready⟩ 0⟩, 0, 0⟩]) ∧
      (w.find? 1).map (fun p => (p.1.stage, p.2.queue)) = some (.queued, [0, 1]) := by
    decide +kernel
  clear_value w
  have hstill : ∀ m ∈ ms.tail, (m ≠ .drop 0 ∧ m ≠ .drop 1) ∧ ∀ time, m ≠ .advance time := by
    simp [ms]
  refine ⟨henv, hnow, hi.1, ⟨⟨nofun, ?_⟩, attends_of_still fun m hm => ?_⟩,
    ⟨⟨nofun, ?_⟩, attends_of_still fun m hm => ?_⟩, hends⟩
  · rintro time ⟨⟩ - c a hf
    obtain ⟨hst, -⟩ := hstages
    rw [hf] at hst
    have hs : c.stage = _ := Option.some.inj hst
    rw [hs]
    refine ⟨rfl, fun u hu s _ hlt => ?_⟩
    rw [List.mem_singleton.1 hu]
    exact ⟨hi.2, hlt, rfl⟩
  · exact ⟨(hstill m hm).1.1, (hstill m hm).2⟩
  · rintro time ⟨⟩ - c a hf
    obtain ⟨-, hst⟩ := hstages
    rw [hf] at hst
    obtain ⟨hs, hq⟩ := Prod.mk.inj (Option.some.inj hst)
    rw [hs, hq]
    simp
  · exact ⟨(hstill m hm).1.2, (hstill m hm).2⟩

end World

end Lifecycle
