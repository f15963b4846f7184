import Lifecycle.Proofs.Cancellation
import Lifecycle.Proofs.Errand

/-!
# Attempts that are favoured

An attempt that finds no controller, whose schema is served in time and whose
registration goes well of itself, comes to its end without a cause; by then the new
controller is active and its loop holds its name (`Favours.stays`, `Favours.obtained`).
`World.Favours` says what the rest of the run may not do.

Most of the run has to be shown not to matter: other attempts take and free names of
their own only, and everybody else takes names that no controller bears. That the
attempt ends follows from its invariant: it can wait no longer than to its deadline,
and a registration that succeeds does not hang.
-/

namespace Lifecycle

variable {C T : Type} [Targeted T]

/-! ## The world around it -/

/-- Whether a move neither drops a call nor has to do with aborts and shutdowns. -/
def Move.isOrdinary : Move C T → Bool
  | .beginShutdown => false
  | m => m.isPeaceful

omit [Targeted T] in
theorem Move.isPeaceful_of_isOrdinary {m : Move C T} (h : m.isOrdinary) : m.isPeaceful := by
  cases m with
  | beginShutdown => rfl
  | _ => exact h

theorem Registry.closed_of_spawn {g g' : Registry} {name : String} {body : LoopBody}
    (h : g.spawn name body = .ok g') : g'.closed = g.closed := by
  unfold spawn at h
  split at h
  · cases h
  · split at h
    · cases h
    · cases h
      rfl

theorem Attempt.Step.closed_eq {env : Collaborators C T} {x : Context C}
    {p q : Attempt T × Site C T} (h : Attempt.Step env x p q) :
    q.2.registry.closed = p.2.registry.closed := by
  have hrelease : ∀ (r : ResourceReference) (c : String) (free : Bool) (s : Site C T),
      (release x r c free s).registry.closed = s.registry.closed := by
    intro r c free s
    rcases release_cases x r c free s with h | ⟨g, hg, h⟩ <;> rw [h]
    obtain ⟨l, -, rfl⟩ := Option.map_eq_some_iff.1 hg
    rfl
  cases h with
  | create _ _ _ _ _ _ hs =>
      subst hs
      rfl
  | register _ hs =>
      cases hs with
      | spawn h | spawnOr h => exact Registry.closed_of_spawn h
      | _ => rfl
  | refuse | revoke => exact hrelease ..
  | _ => rfl

namespace World

section Step

variable {env : Collaborators C T} {m : Move C T} {w w' : World C T}

theorem Step.closed_eq (h : Step env m w w') (hm : m.isOrdinary) :
    w'.registry.closed = w.registry.closed := by
  cases h with
  | begin =>
      rw [begun, beginWork_eq]
      rfl
  | look _ _ _ hp => exact hp.closed_eq
  | close =>
      unfold closed
      dsimp only
      split <;> rfl
  | turnLoops =>
      rw [turnLoops_eq]
      rfl
  | spawn h =>
      have hclosed := Registry.closed_of_spawn h
      rw [turnLoops_eq]
      exact hclosed
  | abort | beginShutdown | turnShutdown => cases hm
  | _ => rfl

theorem Step.now_eq (h : Step env m w w') (hm : ∀ time, m ≠ .advance time) : w'.now = w.now := by
  cases h with
  | advance => exact absurd rfl (hm _)
  | close =>
      unfold closed
      dsimp only
      split <;> rfl
  | turnShutdown => rw [foldl_noteLoop]
  | turnLoops => rw [turnLoops_eq]
  | spawn | abort =>
      rw [turnLoops_eq]
      rfl
  | _ => rfl

/-- An activator keeps its name and its policy. -/
theorem Step.activator (h : Step env m w w') {k : Nat} {a : Activator}
    (ha : w.activators[k]? = some a) : ∃ a', w'.activators[k]? = some a' ∧
      a'.capability = a.capability ∧ a'.policy = a.policy := by
  have hback := h.background
  have hmodify : ∀ {l : Nat} {f : Activator → Activator},
      w'.activators = w.activators.modify l f →
      (∀ b, (f b).capability = b.capability ∧ (f b).policy = b.policy) →
      ∃ a', w'.activators[k]? = some a' ∧ a'.capability = a.capability ∧ a'.policy = a.policy := by
    intro l f hf hkept
    refine ⟨if l = k then f a else a, ?_, ?_⟩
    · rw [hf, List.getElem?_modify, ha]
      split <;> rfl
    · split
      · exact hkept a
      · exact ⟨rfl, rfl⟩
  cases h with
  | submit | cancel => exact ⟨a, ha, rfl, rfl⟩
  | join | begin | look | drop => exact hmodify rfl fun _ => ⟨rfl, rfl⟩
  | @close _ i c b as =>
      have hact : (w.closed i c b as).activators =
          w.activators.modify c.activator fun a => { a with queue := a.queue.erase i } := by
        unfold closed
        dsimp only
        split <;> rfl
      exact hmodify hact fun _ => ⟨rfl, rfl⟩
  | _ =>
      obtain ⟨-, hact, -⟩ := hback rfl
      exact ⟨a, by rw [hact, ha], rfl, rfl⟩

end Step

/-- What stays the same about an errand as long as nobody drops its call or shuts the
loops down. -/
structure Ground (e : Errand C T) (w : World C T) : Prop where
  orderly : w.Orderly
  inUse : Trace.Apart w.trace → w.InUse
  isOpen : w.registry.closed = false
  history : e.before <:+ w.trace
  begun : w.hasBegun e.call
  call : ∃ c, w.calls[e.call]? = some c ∧ c.activator = e.activator ∧ c.config = e.config ∧
    (distinctTargets c.targets)[e.place]? = some e.target
  activator : ∃ a, w.activators[e.activator]? = some a ∧ a.capability = e.capability ∧
    a.policy = e.policy

section Ground

variable {env : Collaborators C T} {e : Errand C T} {misses : Nat} {m : Move C T}
  {w w' : World C T}

theorem Ground.step (hd : env.KeepsNames) (h : Step env m w w') (hm : m.isOrdinary)
    (hw : w.Ground e) : w'.Ground e := by
  refine ⟨orderly_step h hw.orderly, fun hapart => ?_, ?_, hw.history.trans h.trace_suffix,
    h.hasBegun hw.begun, ?_, ?_⟩
  · exact inUse_step hd h (Move.isPeaceful_of_isOrdinary hm) hw.orderly hapart
      (hw.inUse (hapart.of_suffix h.trace_suffix))
  · rw [h.closed_eq hm]
    exact hw.isOpen
  · obtain ⟨c, hc, hk, hconfig, hplace⟩ := hw.call
    obtain ⟨c', hc', hl⟩ := h.later hc
    exact ⟨c', hc', hl.activator.trans hk, hl.config.trans hconfig, by rw [hl.targets, hplace]⟩
  · obtain ⟨a, ha, hcap, hpolicy⟩ := hw.activator
    obtain ⟨a', ha', hcap', hpolicy'⟩ := h.activator ha
    exact ⟨a', ha', hcap'.trans hcap, hpolicy'.trans hpolicy⟩

/-- At the place of an errand its call has an attempt for its target. -/
theorem Ground.attempt_at (hw : w.Ground e) {c : Call C T} (hc : w.calls[e.call]? = some c)
    {as : List (Attempt T)} (hs : c.stage = .working as) :
    ∃ a, as[e.place]? = some a ∧ a.target = e.target := by
  obtain ⟨c', hc', -, -, hplace⟩ := hw.call
  rw [hc] at hc'
  cases hc'
  rw [← hw.orderly.covers c (List.mem_of_getElem? hc) as (.inl hs), List.getElem?_map] at hplace
  exact Option.map_eq_some_iff.1 hplace

theorem Ground.target_eq (hw : w.Ground e) {a : Attempt T} (h : w.Has e.call e.place a) :
    a.target = e.target := by
  obtain ⟨c, b, as, hf, hs, hj⟩ := h
  obtain ⟨a', ha', ht⟩ := hw.attempt_at (find?_eq_some.1 hf).1 hs
  rw [hj] at ha'
  cases ha'
  exact ht

theorem Ground.exists_has (hw : w.Ground e) {c : Call C T} {b : Activator}
    {as : List (Attempt T)} (hf : w.find? e.call = some (c, b)) (hs : c.stage = .working as) :
    ∃ a, w.Has e.call e.place a := by
  obtain ⟨a, ha, -⟩ := hw.attempt_at (find?_eq_some.1 hf).1 hs
  exact ⟨a, c, b, as, hf, hs, ha⟩

/-- The attempt of an errand, by its place and by its reference. -/
theorem Ground.has_iff (hw : w.Ground e) {a : Attempt T} :
    w.Has e.call e.place a ↔ (w.standing e.activator e.reference).call = some e.call ∧
      (w.standing e.activator e.reference).attempt = some a := by
  have hstanding : ∀ {u : Attempt T}, w.Has e.call e.place u →
      (w.standing e.activator e.reference).call = some e.call ∧
        (w.standing e.activator e.reference).attempt = some u := by
    intro u hu
    have hr : u.reference = e.reference := congrArg Targeted.reference (hw.target_eq hu)
    obtain ⟨c, hc, hk, -⟩ := hw.call
    obtain ⟨c', b, as, hf, hs, hj⟩ := hu
    have hc' := (find?_eq_some.1 hf).1
    rw [hc] at hc'
    cases hc'
    have h := standing_of_working hw.orderly hf hs (List.mem_of_getElem? hj)
    rw [hk, hr] at h
    rw [h]
    exact ⟨rfl, rfl⟩
  refine ⟨hstanding, ?_⟩
  rintro ⟨hcall, hattempt⟩
  obtain ⟨⟨i, as⟩, hwork, rfl⟩ := Option.map_eq_some_iff.1 hcall
  obtain ⟨c, b, hf, -, hs⟩ := (atWork_eq_some_iff hw.orderly).1 hwork
  obtain ⟨u, hu⟩ := hw.exists_has hf hs
  have h := (hstanding hu).2
  rw [hattempt] at h
  cases h
  exact hu

omit [Targeted T] in
theorem Has.isQuiet_eq {i j : Nat} {a : Attempt T} (h : w.Has i j a) : w.isQuiet = false := by
  obtain ⟨c, b, as, hf, hs, -⟩ := h
  rw [isQuiet, List.all_eq_false]
  exact ⟨c, List.mem_of_getElem? (find?_eq_some.1 hf).1, by simp [Call.isOver, hs]⟩

/-- The attempt of an errand fits it, as long as its call is not cancelled. -/
theorem Ground.fits (hw : w.Ground e) {c : Call C T} {b : Activator} {a : Attempt T}
    (hfind : w.find? e.call = some (c, b)) (ha : w.Has e.call e.place a)
    (hcan : w.isCancelled e.call = false) : e.Fits (context b e.call c) a (w.site b) := by
  obtain ⟨hc, hb⟩ := find?_eq_some.1 hfind
  obtain ⟨c', hc', hk, hconfig, -⟩ := hw.call
  rw [hc] at hc'
  cases hc'
  obtain ⟨b', hb', hcapability, hpolicy⟩ := hw.activator
  rw [hk, hb'] at hb
  cases hb
  rw [isCancelled, hc, Bool.or_comm] at hcan
  exact ⟨hw.target_eq ha, hk, rfl, hcapability, hconfig, hpolicy, hw.history, hcan, hw.isOpen⟩

/-- Nothing has gone wrong with the attempt of an errand, as long as its call is not
cancelled and names are kept apart. -/
def Fares (env : Collaborators C T) (e : Errand C T) (misses : Nat) (w : World C T) : Prop :=
  w.isCancelled e.call = false → Trace.Apart w.trace → ∀ a, w.Has e.call e.place a →
    a.Fares env e misses w.now w.registry (w.holding? e.activator e.reference)
      (Trace.acts w.trace e.activator e.reference)

/-- The clock does not pass by an instant at which an attempt can go on. -/
def Awaits (w : World C T) (i j : Nat) (m : Move C T) : Prop :=
  ∀ time, m = .advance time → ∀ a, w.Has i j a → ∀ s, w.now ≤ s → s < time →
    a.dueTicket? s = none

/-- How the attempt fared before a step after which its call is not cancelled. -/
theorem Fares.before (hf : w.Fares env e misses) (h : Step env m w w')
    (hcan : w'.isCancelled e.call = false) (hapart : Trace.Apart w'.trace) {u : Attempt T}
    (hu : w.Has e.call e.place u) : w.isCancelled e.call = false ∧
      u.Fares env e misses w.now w.registry (w.holding? e.activator e.reference)
        (Trace.acts w.trace e.activator e.reference) := by
  have hcan₀ : w.isCancelled e.call = false := by
    by_contra hne
    rw [h.isCancelled (Bool.of_not_eq_false hne) hu.isQuiet_eq] at hcan
    cases hcan
  exact ⟨hcan₀, hf hcan₀ (hapart.of_suffix h.trace_suffix) u hu⟩

section Look

variable {i j : Nat} {c : Call C T} {b : Activator} {as : List (Attempt T)} {u : Attempt T}
  {p : Attempt T × Site C T} (henv : env.Welcomes e misses) (hd : env.KeepsNames)
  (hw : w.Ground e) (hf : w.Fares env e misses) (hfind : w.find? i = some (c, b))
  (hs : c.stage = .working as) (hj : as[j]? = some u)
  (hp : Attempt.Step env (context b i c) (u, w.site b) p)

include hd hw hf hfind hs hj hp

include henv in
/-- A look at the attempt itself. -/
theorem Fares.look_own (hk : c.activator = e.activator) (hr : u.reference = e.reference) :
    (w.put i c as j p).Fares env e misses := by
  obtain ⟨u', s'⟩ := p
  have hstep : Step env (.look i j) w (w.put i c as j (u', s')) := .look hfind hs hj hp
  have hw' := hw.step hd hstep rfl
  intro hcan hapart a' ha'
  obtain ⟨hcall', hattempt'⟩ := hw'.has_iff.1 ha'
  have hput := standing_put hw'.orderly hfind hj (.single hp)
  rw [hk, hr] at hput
  rw [hput] at hcall' hattempt'
  cases hcall'
  cases hattempt'
  have hstanding := standing_of_working hw.orderly hfind hs (List.mem_of_getElem? hj)
  rw [hk, hr] at hstanding
  have hhas : w.Has e.call e.place u := hw.has_iff.2 (by rw [hstanding]; exact ⟨rfl, rfl⟩)
  obtain ⟨hcan₀, hu⟩ := hf.before hstep hcan hapart hhas
  have hb := (find?_eq_some.1 hfind).2
  rw [hk] at hb
  rw [holding?_eq hb] at hu
  have hfree : ∀ n, (e.call, .created n) ∈ Trace.acts s'.trace e.activator e.reference →
      b.store.get? e.reference = none → u.name? = none → w.registry.isRegistered n = false := by
    intro n hn hnone hname
    refine (hw.inUse (hapart.of_suffix hstep.trace_suffix)).isRegistered_eq_false
      hstep.trace_suffix hapart hn ?_
    rw [hstanding]
    rintro (h | h)
    · rw [hnone] at h
      cases h
    · rw [Option.bind_some, hname] at h
      cases h
  have hnext := hp.fares henv hd (hw.fits hfind hhas hcan₀) hfree hu
  rw [Attempt.FaresAt, Attempt.Step.now_eq hp] at hnext
  have hholding : (w.put e.call c as j (u', s')).holding? e.activator e.reference =
      s'.store.get? e.reference := by rw [holding?_put (find?_eq_some.1 hfind).2, if_pos hk]
  rw [hholding]
  exact hnext

/-- A look at another attempt. -/
theorem Fares.look_other (hown : ¬ (c.activator = e.activator ∧ u.reference = e.reference)) :
    (w.put i c as j p).Fares env e misses := by
  obtain ⟨u', s'⟩ := p
  have hstep : Step env (.look i j) w (w.put i c as j (u', s')) := .look hfind hs hj hp
  have hw' := hw.step hd hstep rfl
  intro hcan hapart a' ha'
  have hapart₀ := hapart.of_suffix hstep.trace_suffix
  have hsame : (w.put i c as j (u', s')).standing e.activator e.reference =
      w.standing e.activator e.reference :=
    standing_put_of_ne hw.orderly hw'.orderly hfind hs hj (.single hp) fun hk hr => hown ⟨hk, hr⟩
  have hhas := hw'.has_iff.1 ha'
  rw [hsame, ← hw.has_iff] at hhas
  obtain ⟨-, hu⟩ := hf.before hstep hcan hapart hhas
  have hholding : (w.put i c as j (u', s')).holding? e.activator e.reference =
      w.holding? e.activator e.reference := congrArg Standing.holding hsame
  have hacts : Trace.acts (w.put i c as j (u', s')).trace e.activator e.reference =
      Trace.acts w.trace e.activator e.reference := congrArg Standing.acts hsame
  rw [hholding, hacts]
  -- The other attempt has other names in use.
  refine hu.of_names fun n hn => (hw.inUse hapart₀).isRegistered_put hw.orderly hfind hs hj hp
    fun hother => ?_
  obtain ⟨l, hl⟩ := ((hw.inUse hapart₀).units ..).known n hother
  exact hown (hapart₀.unit_eq hl hn)

end Look

theorem Fares.step (henv : env.Welcomes e misses) (hd : env.KeepsNames) (h : Step env m w w')
    (hm : m.isOrdinary) (hclock : w.Awaits e.call e.place m) (hw : w.Ground e)
    (hf : w.Fares env e misses) : w'.Fares env e misses := by
  by_cases hlook : ∃ i j, m = .look i j
  · obtain ⟨i, j, rfl⟩ := hlook
    cases h with
    | @look _ _ _ c b as u p hfind hs hj hp =>
        by_cases hown : c.activator = e.activator ∧ u.reference = e.reference
        · exact hf.look_own henv hd hw hfind hs hj hp hown.1 hown.2
        · exact hf.look_other hd hw hfind hs hj hp hown
  · have hlook : ∀ i j, m ≠ .look i j := fun i j h => hlook ⟨i, j, h⟩
    have hw' := hw.step hd h hm
    intro hcan hapart a' ha'
    obtain ⟨hcall', hattempt'⟩ := hw'.has_iff.1 ha'
    cases h.effect hw.orderly e.activator e.reference with
    | begin hc hq _ _ heq =>
        rw [heq] at hcall'
        cases hcall'
        have hbegun := hw.begun
        simp [hasBegun, hc, Call.hasBegun, hq] at hbegun
    | look => exact absurd rfl (hlook _ _)
    | close _ _ heq =>
        rw [heq] at hcall'
        cases hcall'
    | drop => cases hm
    | same heq =>
        rw [heq] at hcall' hattempt'
        have hhas := hw.has_iff.2 ⟨hcall', hattempt'⟩
        obtain ⟨-, hu⟩ := hf.before h hcan hapart hhas
        have hholding : w'.holding? e.activator e.reference =
            w.holding? e.activator e.reference := congrArg Standing.holding heq
        have hacts : Trace.acts w'.trace e.activator e.reference =
            Trace.acts w.trace e.activator e.reference := congrArg Standing.acts heq
        rw [hholding, hacts]
        have hnow : a'.Fares env e misses w'.now w.registry (w.holding? e.activator e.reference)
            (Trace.acts w.trace e.activator e.reference) := by
          by_cases htime : ∃ time, m = .advance time
          · obtain ⟨time, rfl⟩ := htime
            cases h
            exact hu.advance (hclock time rfl a' hhas)
          · rw [h.now_eq fun time h => htime ⟨time, h⟩]
            exact hu
        refine hnow.of_names fun n hn => ?_
        exact h.loopEffect.isRegistered (Move.isPeaceful_of_isOrdinary hm) hlook
          (hapart.not_mem_foreign (hacts ▸ hn))

end Ground

/-! ## Runs -/

/-- An attempt that is done stays so, unless its call is dropped. -/
theorem Step.attempt?_of_isDone {env : Collaborators C T} {m : Move C T} {w w' : World C T}
    (h : Step env m w w') (hm : ∀ i, m ≠ .drop i) {i j : Nat} {u : Attempt T}
    (hu : w.attempt? i j = some u) (hd : u.isDone) :
    ∃ u', w'.attempt? i j = some u' ∧ u'.target = u.target ∧ u'.stage = u.stage := by
  have hback := h.background
  rw [attempt?_eq] at hu
  obtain ⟨c, hc, hj⟩ := Option.bind_eq_some_iff.1 hu
  have hmodify : ∀ {l : Nat} {f : Call C T → Call C T}, w'.calls = w.calls.modify l f →
      (l = i → ∃ u', (f c).attempts[j]? = some u' ∧ u'.target = u.target ∧ u'.stage = u.stage) →
      ∃ u', w'.attempt? i j = some u' ∧ u'.target = u.target ∧ u'.stage = u.stage := by
    intro l f hf hl
    rw [attempt?_eq, hf, List.getElem?_modify, hc]
    by_cases hli : l = i
    · simpa [hli] using hl hli
    · exact ⟨u, by simpa [hli] using hj, rfl, rfl⟩
  -- A call that begins only now had no attempts.
  have hnone : ∀ {c' : Call C T} {b : Activator} {l : Nat}, w.find? l = some (c', b) → l = i →
      c'.attempts = [] → ∀ {P : Prop}, P := by
    rintro c' b l hf rfl hnil P
    rw [(find?_eq_some.1 hf).1] at hc
    cases hc
    rw [hnil] at hj
    cases hj
  cases h with
  | submit =>
      refine ⟨u, ?_, rfl, rfl⟩
      rw [attempt?_eq]
      show (w.calls ++ _)[i]?.bind _ = _
      rw [List.getElem?_append_left (List.getElem?_eq_some_iff.1 hc).1, hc]
      exact hj
  | join hf hs | begin hf hs =>
      exact hmodify rfl fun hl => hnone hf hl (by simp [Call.attempts, hs])
  | @look _ l l' c' b as t p hf hs ht hp =>
      refine hmodify rfl fun hl => ?_
      subst hl
      rw [(find?_eq_some.1 hf).1] at hc
      cases hc
      rw [Call.attempts, hs] at hj
      show ∃ u', (as.set l' p.1)[j]? = some u' ∧ _
      by_cases hlj : l' = j
      · subst hlj
        rw [ht] at hj
        cases hj
        have hlt := (List.getElem?_eq_some_iff.1 ht).1
        exact ⟨p.1, List.getElem?_set_self hlt, hp.target_eq, (hp.of_isDone hd).1⟩
      · exact ⟨u, (List.getElem?_set_ne hlj).trans hj, rfl, rfl⟩
  | @close _ l c' b as hf hs =>
      refine hmodify (closed_calls ..) fun hl => ?_
      subst hl
      rw [(find?_eq_some.1 hf).1] at hc
      cases hc
      rw [Call.attempts, hs] at hj
      exact ⟨u, hj, rfl, rfl⟩
  | cancel => exact hmodify rfl fun _ => ⟨u, hj, rfl, rfl⟩
  | drop => exact absurd rfl (hm _)
  | _ =>
      obtain ⟨hcs, -, -⟩ := hback rfl
      exact ⟨u, by rw [attempt?_eq, hcs, hc]; exact hj, rfl, rfl⟩

omit [Targeted T] in
theorem ne_drop_of_isOrdinary {m : Move C T} (h : m.isOrdinary) (i : Nat) : m ≠ .drop i := by
  rintro rfl
  cases h

/-- An endless run that is favourable to an attempt: it is looked at again and again, and
whenever it can go on; its call is not cancelled, and nobody interferes with the loops. -/
structure Favours (env : Collaborators C T) (i j : Nat) (w : World C T) (ms : Nat → Move C T) :
    Prop where
  fair : w.Fair env i j ms
  awaits : ∀ n, (w.along env ms n).Awaits i j (ms n)
  ordinary : ∀ n, (ms n).isOrdinary
  apart : ∀ n, Trace.Apart (w.along env ms n).trace
  unfired : ∀ n c, (w.along env ms n).calls[i]? = some c → c.isOver = false →
    (w.along env ms n).isCancelled i = false

/-- The attempt of an errand has ended without a cause. -/
def EndsWell (e : Errand C T) (w : World C T) : Prop :=
  ∃ u, w.attempt? e.call e.place = some u ∧ u.target = e.target ∧ u.isDone ∧ u.cause? = none

theorem EndsWell.step {env : Collaborators C T} {e : Errand C T} {m : Move C T}
    {w w' : World C T} (hw : w.EndsWell e) (h : Step env m w w') (hm : ∀ i, m ≠ .drop i) :
    w'.EndsWell e := by
  obtain ⟨u, hu, ht, hd, hcause⟩ := hw
  obtain ⟨u', hu', ht', hst⟩ := h.attempt?_of_isDone hm hu hd
  exact ⟨u', hu', ht'.trans ht, by rwa [Attempt.isDone, hst], by rwa [Attempt.cause?, hst]⟩

/-- An attempt that has ended well has so from then on. -/
theorem endsWell_along {env : Collaborators C T} {e : Errand C T} {w : World C T}
    {ms : Nat → Move C T} (hms : ∀ n, (ms n).isOrdinary) {n m : Nat} (hle : n ≤ m)
    (hn : (w.along env ms n).EndsWell e) : (w.along env ms m).EndsWell e := by
  induction hle with
  | refl => exact hn
  | @step m _ ih =>
      rw [along_succ]
      exact invariant_of_move (P := fun v => v.EndsWell e)
        (fun h hv => hv.step h (ne_drop_of_isOrdinary (hms m))) ih

/-- An errand has got what it was about. All that its call did about the reference is
what brings a controller into being, which is active and has its loop. -/
structure Obtained (e : Errand C T) (misses : Nat) (name : String) (w : World C T) : Prop where
  ended : w.EndsWell e
  acts : Trace.acts w.trace e.activator e.reference =
    e.acts (made e.reference.groupVersion misses name)
  active : w.holding? e.activator e.reference = some ⟨e.reference, name, true⟩
  registered : w.registry.isRegistered name

section Favours

variable {env : Collaborators C T} {e : Errand C T} {misses : Nat} {w : World C T}
  {ms : Nat → Move C T}
  (henv : env.Welcomes e misses) (hd : env.KeepsNames) (hw : w.Ground e) (hf : w.Fares env e misses)
  (hms : w.Favours env e.call e.place ms)

include henv hd hw hf hms

theorem Favours.fares_along (n : Nat) :
    (w.along env ms n).Ground e ∧ (w.along env ms n).Fares env e misses := by
  induction n with
  | zero => exact ⟨hw, hf⟩
  | succ n ih =>
      rw [along_succ]
      have hm := hms.ordinary n
      have hawaits := hms.awaits n
      generalize w.along env ms n = v at ih hawaits ⊢
      by_cases htime : ∃ time, ms n = .advance time
      · obtain ⟨time, htime⟩ := htime
        rw [htime] at hm hawaits ⊢
        exact ⟨ih.1.step hd .advance hm, Fares.step henv hd .advance hm hawaits ih.1 ih.2⟩
      · refine invariant_of_move (P := fun v => v.Ground e ∧ v.Fares env e misses) (fun h hv => ?_) ih
        exact ⟨hv.1.step hd h hm,
          Fares.step henv hd h hm (fun time h => absurd ⟨time, h⟩ htime) hv.1 hv.2⟩

/-- Nothing goes wrong with the attempt of an errand. -/
theorem Favours.fares {n : Nat} {a : Attempt T}
    (ha : (w.along env ms n).Has e.call e.place a) :
    a.Fares env e misses (w.along env ms n).now (w.along env ms n).registry
      ((w.along env ms n).holding? e.activator e.reference)
      (Trace.acts (w.along env ms n).trace e.activator e.reference) := by
  refine (hms.fares_along henv hd hw hf n).2 ?_ (hms.apart n) a ha
  obtain ⟨c, b, as, hfind, hs, -⟩ := ha
  exact hms.unfired n c (find?_eq_some.1 hfind).1 (by simp [Call.isOver, hs])

omit henv hd hw hf in
theorem Favours.has_or_done {a : Attempt T} (ha : w.Has e.call e.place a) (n : Nat) :
    (∃ m a, (w.along env ms m).Has e.call e.place a ∧ a.isDone) ∨
      ∃ a, (w.along env ms n).Has e.call e.place a := by
  induction n with
  | zero => exact .inr ⟨a, ha⟩
  | succ n ih =>
      rcases ih with h | ⟨a, ha⟩
      · exact .inl h
      · cases hdone : a.isDone with
        | true => exact .inl ⟨n, a, ha, hdone⟩
        | false =>
            rw [along_succ]
            by_cases hlook : ms n = .look e.call e.place
            · obtain ⟨_, _, -, hnext⟩ := ha.look env
              rw [hlook]
              exact .inr ⟨_, hnext⟩
            · exact .inr ⟨a, ha.move hdone hlook (hms.fair.kept n)⟩

/-- The attempt comes to its end. -/
theorem Favours.ends {a : Attempt T} (ha : w.Has e.call e.place a) :
    ∃ n a, (w.along env ms n).Has e.call e.place a ∧ a.isDone := by
  -- By then it can neither be fresh nor wait any more.
  obtain ⟨n, -, htime⟩ := hms.fair.time 0 e.deadline
  rcases hms.has_or_done ha n with h | ⟨a, ha⟩
  · exact h
  · have hfares := hms.fares henv hd hw hf ha
    cases hst : a.stage with
    | fresh =>
        simp only [Attempt.Fares, hst] at hfares
        have hlt := henv.ready.lt_deadline
        omega
    | waiting w =>
        simp only [Attempt.Fares, hst] at hfares
        obtain ⟨-, -, hdeadline, _, _, -, -, htimely⟩ := hfares
        have hlt := htimely.lt_deadline fun l n hn => by rw [hdeadline]; exact hn.lt_deadline
        omega
    | done => exact ⟨n, a, ha, by simp [Attempt.isDone, hst]⟩
    | registering c free rest since =>
        obtain ⟨m, -, a', ha', hdone | ⟨c', free', interrupted, next, since', hst'⟩⟩ :=
          hms.fair.registration ha hst
        · exact ⟨m, a', ha', hdone⟩
        · have hfares' := hms.fares henv hd hw hf ha'
          simp [Attempt.Fares, hst', Registration.succeeds] at hfares'

/-- As long as its call goes on, the attempt that has ended has obtained a controller. -/
theorem Favours.obtained {n : Nat} {u : Attempt T}
    (hu : (w.along env ms n).Has e.call e.place u) (hdone : u.isDone) :
    ∃ name, (w.along env ms n).Obtained e misses name := by
  have hfares := hms.fares henv hd hw hf hu
  obtain ⟨cause, time, hst⟩ := Attempt.isDone_iff.1 hdone
  simp only [Attempt.Fares, hst] at hfares
  obtain ⟨rfl, name, hholding, hacts, hreg⟩ := hfares
  have ht := (hms.fares_along henv hd hw hf n).1.target_eq hu
  obtain ⟨c, b, as, hfind, hs, hj⟩ := hu
  exact ⟨name, ⟨u, (attempt?_of_working hfind hs _).trans hj, ht, hdone,
    by simp [Attempt.cause?, hst]⟩, hacts, hholding, hreg⟩

/-- From then on the attempt has ended without a cause. -/
theorem Favours.stays {a : Attempt T} (ha : w.Has e.call e.place a) :
    ∃ n, ∀ m, n ≤ m → (w.along env ms m).EndsWell e := by
  obtain ⟨n, a, ha, hdone⟩ := hms.ends henv hd hw hf ha
  obtain ⟨name, hobtained⟩ := hms.obtained henv hd hw hf ha hdone
  exact ⟨n, fun m hm => endsWell_along hms.ordinary hm hobtained.ended⟩

/-- The end of the call changes nothing about it. -/
theorem Favours.obtained_close {n : Nat} (hsettled : (w.along env ms n).isSettled e.call) :
    ∃ name, ((w.along env ms n).close e.call).Obtained e misses name := by
  obtain ⟨hground, -⟩ := hms.fares_along henv hd hw hf n
  obtain ⟨c, b, as, hfind, hs, hall⟩ := isSettled_iff.1 hsettled
  obtain ⟨a, ha⟩ := hground.exists_has hfind hs
  have hdone : a.isDone := by
    obtain ⟨c', b', as', hfind', hs', hj⟩ := ha
    rw [hfind] at hfind'
    cases hfind'
    rw [hs] at hs'
    cases hs'
    exact List.all_eq_true.1 hall a (List.mem_of_getElem? hj)
  obtain ⟨name, hended, hacts, hholding, hreg⟩ := hms.obtained henv hd hw hf ha hdone
  have hapart := hms.apart n
  generalize w.along env ms n = v at *
  have hstep : Step env (.close e.call) v (v.close e.call) := by
    rw [close_eq_closed hfind hs hall]
    exact .close hfind hs hall
  have hkept : (v.close e.call).holding? e.activator e.reference =
        v.holding? e.activator e.reference ∧
      Trace.acts (v.close e.call).trace e.activator e.reference =
        Trace.acts v.trace e.activator e.reference := by
    cases hstep.effect hground.orderly e.activator e.reference with
    | same heq => exact ⟨congrArg Standing.holding heq, congrArg Standing.acts heq⟩
    | close _ _ heq => exact ⟨congrArg Standing.holding heq, congrArg Standing.acts heq⟩
  have hforeign : Trace.foreign (v.close e.call).trace = Trace.foreign v.trace := by
    cases hstep.loopEffect with
    | still _ _ _ ht => rw [Trace.foreign, ht, Trace.foreign]
    | free hm => cases hm
  have hcreated : (e.call, .created name) ∈ Trace.acts v.trace e.activator e.reference := by
    rw [hacts]
    exact Errand.mem_acts (by simp [made, admitted])
  refine ⟨name, hended.step hstep (by simp), hkept.2.trans hacts, hkept.1.trans hholding, ?_⟩
  rw [hstep.loopEffect.isRegistered rfl (by simp)]
  · exact hreg
  · rw [hforeign]
    exact hapart.not_mem_foreign hcreated

end Favours

end World

end Lifecycle
