import Lifecycle.Proofs.Orderly

/-!
# Registrations come to an end

A world can go on for ever without ever looking at an attempt, so nothing ends in
every run. In a fair run, one in which the attempt is looked at again and again
while time passes, a registration does end, or comes to a sleep that has no end:
`Fair.registration`. How the other moves are mixed in does not matter.

A look brings a registration onward unless it is at a sleep that is not over yet
(`Has.onward`), and what is then left of it is shorter; between the looks nothing
happens to it. A run is given by its moves, one for each natural number.
-/

namespace Lifecycle

variable {C T : Type}

namespace Registration

/-- A bound on the steps that a registration takes. -/
def steps : Registration → Nat
  | finish _ => 0
  | spawn _ _ next | cancel _ next | synced next | sleep _ _ next => next.steps + 1
  | spawnOr _ _ next refused => max next.steps refused.steps + 1

/-- What a registration that does not end when it is looked at waits for: for the
end of a sleep, the one that it was at or one further on. -/
structure Waits (x : Context C) (s : Site C T) (rest : Registration) (since : Nat)
    (rest' : Registration) (since' : Nat) : Prop where
  sleeps : ∃ millis interrupted next, rest' = .sleep millis interrupted next ∧
    ¬ (s.cancelled x ∧ interrupted.isSome) ∧ ∀ d, millis = some d → s.now < since' + d
  moved : rest' = rest ∧ since' = since ∨ rest'.steps < rest.steps

/-- What comes after a step is shorter by that step. -/
theorem Waits.of_next {x : Context C} {s : Site C T} {next rest rest' : Registration}
    {t since since' : Nat} (h : Waits x s next t rest' since') (hlt : next.steps < rest.steps) :
    Waits x s rest since rest' since' := by
  refine ⟨h.sleeps, .inr ?_⟩
  rcases h.moved with ⟨rfl, -⟩ | hlt'
  · exact hlt
  · exact Nat.lt_trans hlt' hlt

theorem waits_of_run {x : Context C} {c : String} {r : ResourceReference} (rest : Registration) :
    ∀ {since : Option Nat} {s s' : Site C T} {rest' : Registration} {since' : Nat},
      rest.run x c r since s = (.pending rest' since', s') →
      Waits x s' rest (since.getD s.now) rest' since' := by
  induction rest with
  | finish fault =>
      intro since s s' rest' since' h
      cases h
  | spawn name body next ih =>
      intro since s s' rest' since' h
      rw [run] at h
      split at h
      · cases h
      · exact (ih h).of_next (Nat.lt_succ_self _)
  | spawnOr name body next refused ih ihr =>
      intro since s s' rest' since' h
      rw [run] at h
      split at h
      · exact (ihr h).of_next (Nat.lt_succ_of_le (Nat.le_max_right ..))
      · exact (ih h).of_next (Nat.lt_succ_of_le (Nat.le_max_left ..))
  | cancel _ next ih | synced next ih =>
      intro since s s' rest' since' h
      rw [run] at h
      exact (ih h).of_next (Nat.lt_succ_self _)
  | sleep millis interrupted next ih =>
      intro since s s' rest' since' h
      rw [run.eq_def] at h
      dsimp only at h
      split at h
      · cases h
      · next hc =>
          cases millis with
          | none =>
              cases h
              refine ⟨⟨_, _, _, rfl, hc, ?_⟩, .inl ⟨rfl, rfl⟩⟩
              rintro _ ⟨⟩
          | some d =>
              dsimp only at h
              split at h
              · exact (ih h).of_next (Nat.lt_succ_self _)
              · next hd =>
                  cases h
                  refine ⟨⟨_, _, _, rfl, hc, ?_⟩, .inl ⟨rfl, rfl⟩⟩
                  rintro _ ⟨⟩
                  exact Nat.lt_of_not_le hd

end Registration

variable [Targeted T]

namespace Attempt

/-- A look is what polling does, but for tickets. -/
theorem look_eq (env : Collaborators C T) (x : Context C) (a : Attempt T) (s : Site C T) :
    ∃ ticket checkTicket tickets, look env x a s =
      ({ (poll env x a s).1 with ticket, checkTicket }, { (poll env x a s).2 with tickets }) := by
  rw [look]
  dsimp only
  split
  · exact ⟨_, _, _, rfl⟩
  · exact ⟨_, _, _, rfl⟩

@[simp] theorem look_stage (env : Collaborators C T) (x : Context C) (a : Attempt T)
    (s : Site C T) : (look env x a s).1.stage = (poll env x a s).1.stage := by
  rw [look]
  dsimp only
  split <;> rfl

theorem settle_isDone (x : Context C) (a : Attempt T) (c : String) (free : Bool)
    (fault : Option Fault) (s : Site C T) : (settle x a c free fault s).1.isDone := by
  unfold settle
  dsimp only
  split
  · rfl
  · split <;> rfl

omit [Targeted T] in
theorem isDone_iff {a : Attempt T} : a.isDone ↔ ∃ cause time, a.stage = .done cause time := by
  cases h : a.stage <;> simp [isDone, h]

/-- A look at a registration ends it, or leaves it waiting. -/
theorem look_registering (env : Collaborators C T) {x : Context C} {a : Attempt T} {s : Site C T}
    {c : String} {free : Bool} {rest : Registration} {since : Nat}
    (hr : a.stage = .registering c free rest since) :
    (look env x a s).1.isDone ∨ ∃ rest' since',
      (look env x a s).1.stage = .registering c free rest' since' ∧
        Registration.Waits x (poll env x a s).2 rest since rest' since' := by
  have hpoll : poll env x a s = register x a c free rest (some since) s := by rw [poll, hr]
  rw [isDone_iff, look_stage, hpoll, register]
  cases hrun : rest.run x c a.reference (some since) s with
  | mk p s' =>
      cases p with
      | pending rest' since' => exact .inr ⟨rest', since', rfl, Registration.waits_of_run rest hrun⟩
      | ended fault => exact .inl (isDone_iff.1 (settle_isDone ..))

/-- Whether an attempt registers its controller, and the registration is at a sleep
that has no end. -/
def IsStuck (a : Attempt T) : Prop :=
  ∃ c free interrupted next since, a.stage = .registering c free (.sleep none interrupted next) since

end Attempt

namespace World

/-! ## An attempt and the moves of others -/

/-- A call at work has an attempt in a place. -/
def Has (w : World C T) (i j : Nat) (t : Attempt T) : Prop :=
  ∃ c a as, w.find? i = some (c, a) ∧ c.stage = .working as ∧ as[j]? = some t

/-- As long as an attempt is not done it stays as it is, but for looks at it, unless
its call is dropped. -/
theorem Has.step {env : Collaborators C T} {m : Move C T} {w w' : World C T}
    (h : Step env m w w') {i j : Nat} {t : Attempt T} (ht : w.Has i j t) (hd : t.isDone = false)
    (hm : m ≠ .look i j) (hdrop : m ≠ .drop i) : w'.Has i j t := by
  obtain ⟨c, a, as, hf, hs, hj⟩ := ht
  have hback := h.background
  have hmap : ∀ {f : Call C T × Activator → Call C T × Activator},
      w'.find? i = (w.find? i).map f → (f (c, a)).1.stage = c.stage → w'.Has i j t := by
    intro f hf' hs'
    rw [hf] at hf'
    exact ⟨_, _, as, hf', hs'.trans hs, hj⟩
  cases h with
  | submit =>
      obtain ⟨hc, ha⟩ := find?_eq_some.1 hf
      refine ⟨c, a, as, find?_eq_some.2 ⟨?_, ha⟩, hs, hj⟩
      exact (List.getElem?_append_left (List.getElem?_eq_some_iff.1 hc).1).trans hc
  | @join _ i' c' a' hf' hs' =>
      have hne : i' ≠ i := by
        rintro rfl
        rw [hf] at hf'
        cases hf'
        rw [hs] at hs'
        cases hs'
      refine hmap (by rw [find?_setStage, find?_setQueue, Option.map_map]) ?_
      simp [hne]
  | @begin _ i' c' a' hf' hs' hh =>
      have hne : i' ≠ i := by
        rintro rfl
        rw [hf] at hf'
        cases hf'
        rw [hs] at hs'
        cases hs'
      refine hmap (find?_begun ..) ?_
      simp [hne]
  | @look _ i' j' c' a' as' t' p hf' hs' ht' hp =>
      by_cases hi : i' = i
      · subst hi
        rw [hf] at hf'
        cases hf'
        rw [hs] at hs'
        cases hs'
        have hne : j' ≠ j := fun hj => hm (by rw [hj])
        exact ⟨_, _, _, find?_put hf, rfl, by rw [List.getElem?_set_ne hne, hj]⟩
      · refine hmap (by rw [put, find?_setStage, find?_withSite, Option.map_map]) ?_
        simp [hi]
  | @close _ i' c' a' as' hf' hs' hall =>
      have hne : i' ≠ i := by
        rintro rfl
        rw [hf] at hf'
        cases hf'
        rw [hs] at hs'
        cases hs'
        have := List.all_eq_true.1 hall t (List.mem_of_getElem? hj)
        rw [hd] at this
        cases this
      refine hmap (find?_closed ..) ?_
      simp [hne]
  | @cancel _ i' =>
      refine hmap (find?_cancel ..) ?_
      dsimp only
      split <;> rfl
  | @drop _ i' c' hc' ho =>
      have hne : i' ≠ i := fun hi => hdrop (by rw [hi])
      refine hmap (find?_leave ..) ?_
      simp [hne]
  | _ =>
      obtain ⟨hcs, has, -⟩ := hback rfl
      exact ⟨c, a, as, (find?_congr hcs has i).trans hf, hs, hj⟩

theorem look_eq_put {env : Collaborators C T} {w : World C T} {i j : Nat} {c : Call C T}
    {a : Activator} {as : List (Attempt T)} {t : Attempt T} (hf : w.find? i = some (c, a))
    (hs : c.stage = .working as) (ht : as[j]? = some t) :
    w.look env i j = w.put i c as j (t.look env (context a i c) (w.site a)) := by
  simp only [look, hf, hs, ht]
  rfl

/-- What a look makes of an attempt. -/
theorem Has.look (env : Collaborators C T) {w : World C T} {i j : Nat} {t : Attempt T}
    (ht : w.Has i j t) : ∃ c a, w.find? i = some (c, a) ∧
      (w.look env i j).Has i j (t.look env (context a i c) (w.site a)).1 := by
  obtain ⟨c, a, as, hf, hs, hj⟩ := ht
  refine ⟨c, a, hf, ?_⟩
  rw [look_eq_put hf hs hj]
  exact ⟨_, _, _, find?_put hf, rfl, by simp [(List.getElem?_eq_some_iff.1 hj).1]⟩

theorem Has.move {env : Collaborators C T} {m : Move C T} {w : World C T} {i j : Nat}
    {t : Attempt T} (ht : w.Has i j t) (hd : t.isDone = false) (hm : m ≠ .look i j)
    (hdrop : m ≠ .drop i) : (w.move env m).Has i j t :=
  invariant_of_move (P := fun w => w.Has i j t) (fun h ht => ht.step h hd hm hdrop) ht

theorem Step.now_le {env : Collaborators C T} {m : Move C T} {w w' : World C T}
    (h : Step env m w w') : w.now ≤ w'.now := by
  cases h with
  | advance => exact Nat.le_max_left ..
  | close =>
      unfold closed
      dsimp only
      split <;> exact Nat.le_refl _
  | turnShutdown => exact Nat.le_of_eq (by rw [foldl_noteLoop])
  | turnLoops => exact Nat.le_of_eq (by rw [turnLoops_eq])
  | spawn | abort =>
      rw [turnLoops_eq]
      exact Nat.le_refl w.now
  | _ => exact Nat.le_refl _

theorem now_le_play (env : Collaborators C T) (w : World C T) (ms : List (Move C T)) :
    w.now ≤ (w.play env ms).now :=
  invariant_of_play (P := fun v => w.now ≤ v.now) (A := fun _ => True)
    (fun _ h hv => Nat.le_trans hv h.now_le) (fun _ _ => trivial) (Nat.le_refl _)

/-! ## Endless runs -/

/-- The worlds of an endless run. -/
def along (env : Collaborators C T) (w : World C T) (ms : Nat → Move C T) (n : Nat) : World C T :=
  w.play env ((List.range n).map ms)

/-- A run in which an attempt is looked at again and again, while time passes. -/
structure Fair (env : Collaborators C T) (i j : Nat) (w : World C T) (ms : Nat → Move C T) :
    Prop where
  looks : ∀ n, ∃ m, n ≤ m ∧ ms m = .look i j
  time : ∀ n t, ∃ m, n ≤ m ∧ t ≤ (w.along env ms m).now
  kept : ∀ n, ms n ≠ .drop i

theorem along_succ (env : Collaborators C T) (w : World C T) (ms : Nat → Move C T) (n : Nat) :
    w.along env ms (n + 1) = (w.along env ms n).move env (ms n) := by
  rw [along, List.range_succ, List.map_append, play_append]
  rfl

theorem now_along_le (env : Collaborators C T) (w : World C T) (ms : Nat → Move C T) {n m : Nat}
    (h : n ≤ m) : (w.along env ms n).now ≤ (w.along env ms m).now := by
  induction h with
  | refl => exact Nat.le_refl _
  | step _ ih =>
      rw [along_succ]
      exact invariant_of_move (P := fun v => (w.along env ms n).now ≤ v.now)
        (fun h hv => Nat.le_trans hv h.now_le) ih

section Fair

variable {env : Collaborators C T} {i j : Nat} {w : World C T} {ms : Nat → Move C T}
  (hfair : w.Fair env i j ms)

include hfair

/-- An attempt is where it was until it is looked at. -/
theorem Fair.next {n : Nat} {t : Attempt T} (ht : (w.along env ms n).Has i j t)
    (hd : t.isDone = false) :
    ∃ m, n ≤ m ∧ ms m = .look i j ∧ (w.along env ms m).Has i j t := by
  obtain ⟨m, hm, hlook⟩ := hfair.looks n
  induction hk : m - n generalizing n with
  | zero =>
      have hnm : n = m := by omega
      subst hnm
      exact ⟨n, Nat.le_refl n, hlook, ht⟩
  | succ k ih =>
      by_cases hn : ms n = .look i j
      · exact ⟨n, Nat.le_refl n, hn, ht⟩
      · have hnext : (w.along env ms (n + 1)).Has i j t := by
          rw [along_succ]
          exact ht.move hd hn (hfair.kept n)
        obtain ⟨l, hl, h⟩ := ih hnext (by omega) (by omega)
        exact ⟨l, by omega, h⟩

/-- How a registration has got on by some time: it has ended, or has come to a sleep
without an end, or to a rest that is shorter. -/
def Onward (i j : Nat) (c : String) (free : Bool) (rest : Registration) (w : World C T) : Prop :=
  ∃ t, w.Has i j t ∧ (t.isDone ∨ t.IsStuck ∨ ∃ rest' since', rest'.steps < rest.steps ∧
    t.stage = .registering c free rest' since')

omit hfair in
/-- A look at a registration brings it onward, or its sleep has not ended yet. -/
theorem Has.onward {t : Attempt T} {c : String} {free : Bool} {rest : Registration}
    {since : Nat} (ht : w.Has i j t) (hr : t.stage = .registering c free rest since) :
    (w.look env i j).Onward i j c free rest ∨
      ∃ t' d interrupted next, (w.look env i j).Has i j t' ∧
        t'.stage = .registering c free rest since ∧ rest = .sleep (some d) interrupted next ∧
        w.now < since + d := by
  obtain ⟨call, a, -, hlook⟩ := ht.look env
  rcases Attempt.look_registering env hr with hdone | ⟨rest', since', hstage, hwaits⟩
  · exact .inl ⟨_, hlook, .inl hdone⟩
  · obtain ⟨millis, interrupted, next, rfl, -, hlt⟩ := hwaits.sleeps
    rcases hwaits.moved with ⟨rfl, rfl⟩ | hsteps
    · cases millis with
      | none => exact .inl ⟨_, hlook, .inr (.inl ⟨_, _, _, _, _, hstage⟩)⟩
      | some d =>
          have hnow := Attempt.Steps.now_eq (Attempt.poll_steps env (context a i call) t (w.site a))
          have hlt := hlt d rfl
          rw [hnow] at hlt
          exact .inr ⟨_, d, interrupted, next, hlook, hstage, rfl, hlt⟩
    · exact .inl ⟨_, hlook, .inr (.inr ⟨_, _, hsteps, hstage⟩)⟩

/-- As long as a registration has not come onward it is where it was. -/
theorem Fair.onward_or_same {n : Nat} {t : Attempt T} {c : String} {free : Bool}
    {rest : Registration} {since : Nat} (ht : (w.along env ms n).Has i j t)
    (hr : t.stage = .registering c free rest since) {m : Nat} (hm : n ≤ m) :
    (∃ l, n ≤ l ∧ (w.along env ms l).Onward i j c free rest) ∨
      ∃ t', (w.along env ms m).Has i j t' ∧ t'.stage = .registering c free rest since := by
  induction hm with
  | refl => exact .inr ⟨t, ht, hr⟩
  | @step m hm ih =>
      rcases ih with h | ⟨t', ht', hr'⟩
      · exact .inl h
      · by_cases hlook : ms m = .look i j
        · have hsucc : w.along env ms (m + 1) = (w.along env ms m).look env i j := by
            rw [along_succ, hlook, World.move]
          rcases ht'.onward hr'  with h | ⟨u, -, -, -, hu, hru, -, -⟩
          · exact .inl ⟨m + 1, Nat.le_succ_of_le hm, hsucc ▸ h⟩
          · exact .inr ⟨u, hsucc ▸ hu, hru⟩
        · refine .inr ⟨t', ?_, hr'⟩
          rw [along_succ]
          exact ht'.move (by simp [Attempt.isDone, hr']) hlook (hfair.kept m)

theorem Fair.onward {n : Nat} {t : Attempt T} {c : String} {free : Bool}
    {rest : Registration} {since : Nat} (ht : (w.along env ms n).Has i j t)
    (hr : t.stage = .registering c free rest since) :
    ∃ l, n ≤ l ∧ (w.along env ms l).Onward i j c free rest := by
  -- By then a sleep that has an end is over.
  obtain ⟨time, hover⟩ : ∃ time, ∀ d interrupted next,
      rest = .sleep (some d) interrupted next → since + d ≤ time := by
    by_cases hsleep : ∃ d interrupted next, rest = .sleep (some d) interrupted next
    · obtain ⟨d, interrupted, next, rfl⟩ := hsleep
      exact ⟨since + d, by rintro _ _ _ ⟨⟩; exact Nat.le_refl _⟩
    · exact ⟨0, fun d interrupted next h => absurd ⟨d, interrupted, next, h⟩ hsleep⟩
  obtain ⟨m, hm, htime⟩ := hfair.time n time
  rcases hfair.onward_or_same ht hr hm with h | ⟨t', ht', hr'⟩
  · exact h
  obtain ⟨l, hl, hlook, ht'⟩ := hfair.next ht' (by simp [Attempt.isDone, hr'])
  have hsucc : w.along env ms (l + 1) = (w.along env ms l).look env i j := by
    rw [along_succ, hlook, World.move]
  rcases ht'.onward hr'  with h | ⟨u, d, interrupted, next, -, -, rfl, hlt⟩
  · exact ⟨l + 1, by omega, hsucc ▸ h⟩
  · have hnow := now_along_le env w ms hl
    have hends := hover d interrupted next rfl
    omega

/-- In a fair run a registration ends, or comes to a sleep that has no end. -/
theorem Fair.registration {n : Nat} {t : Attempt T} {c : String} {free : Bool}
    {rest : Registration} {since : Nat} (ht : (w.along env ms n).Has i j t)
    (hr : t.stage = .registering c free rest since) :
    ∃ m, n ≤ m ∧ ∃ t', (w.along env ms m).Has i j t' ∧ (t'.isDone ∨ t'.IsStuck) := by
  induction hk : rest.steps using Nat.strongRecOn generalizing n t rest since with
  | ind k ih =>
      obtain ⟨m, hm, t', ht', hdone | hstuck | ⟨rest', since', hlt, hr'⟩⟩ := hfair.onward ht hr
      · exact ⟨m, hm, t', ht', .inl hdone⟩
      · exact ⟨m, hm, t', ht', .inr hstuck⟩
      · obtain ⟨l, hl, h⟩ := ih _ (hk ▸ hlt) ht' hr' rfl
        exact ⟨l, by omega, h⟩

end Fair

end World

end Lifecycle
