import Lifecycle.Proofs.Favoured

/-!
# What a call does about one of its targets

The attempts of a call are looked at in any order, and what they do is written into
one trace. `Trace.story` is what the trace has for one call and one reference, from
the first check to the word that is said at the end. A statement about every attempt
of every call is then one about stories, and `Step.fate` is what it takes to prove
it: to an attempt that a call has after a step, the step was nothing, or the turn of
its call, or one step of the attempt itself. Only in the last case its story goes on.

That the other attempts of a call have other stories is due to their references,
and that other calls have, to the numbers under which they are written down.
-/

namespace Lifecycle

variable {C T : Type} [Targeted T]

/-- The reference about which something was done. What becomes of loops is told of
their names, and a remark that a reference is repeated is about the list of targets. -/
def Happening.subject? : Happening C T → Option ResourceReference
  | .probed _ r | .answered _ r _ => r
  | .created _ t _ => some (reference t)
  | .registering _ r | .returned _ r _ _ | .setupFailed r _ _ | .installed r _ | .updated r _ _
  | .deactivated r _ | .timedOut r _ | .probeFailed r _ => some r
  | _ => none

/-- What was done about a reference for a call, in the order of time. -/
def Trace.story (t : Trace C T) (i : Nat) (r : ResourceReference) : List (Happening C T) :=
  ((Trace.ofCall t i).map Entry.what).filter fun h => h.subject? = some r

section Story

variable {i : Nat} {r : ResourceReference}

theorem story_append (t t' : Trace C T) :
    Trace.story (t' ++ t) i r = Trace.story t i r ++ Trace.story t' i r := by
  rw [Trace.story, Trace.ofCall_append, List.map_append, List.filter_append]
  rfl

/-- What is about other references, or for other calls, does not belong to a story. -/
theorem story_append_quiet {t : Trace C T} (new : Trace C T)
    (h : ∀ e ∈ new, ∀ x, e.scope = some x → x.call = i → e.what.subject? ≠ some r) :
    Trace.story (new ++ t) i r = Trace.story t i r := by
  have hnil : Trace.story new i r = [] := by
    rw [Trace.story, List.filter_eq_nil_iff]
    intro what hwhat
    obtain ⟨e, he, rfl⟩ := List.mem_map.1 hwhat
    obtain ⟨he, hi⟩ := List.mem_filter.1 he
    obtain ⟨x, hx, hi⟩ := (Option.any_eq_true ..).1 hi
    simpa using h e (List.mem_reverse.1 he) x hx (by simpa using hi)
  rw [story_append, hnil, List.append_nil]

variable {s : Site C T} {x : Context C} {h : Happening C T}

theorem story_note_self (hi : x.scope.call = i) (hr : h.subject? = some r) :
    Trace.story (s.note x h).trace i r = Trace.story s.trace i r ++ [h] := by
  refine (story_append s.trace [⟨s.now, some x.scope, h⟩]).trans ?_
  simp [Trace.story, Trace.ofCall, hi, hr]

/-- Two notes one after another; the second may be of a site that has changed otherwise. -/
theorem story_note_note {v : Site C T} {g : Happening C T} (ht : v.trace = (s.note x h).trace)
    (hi : x.scope.call = i) (hh : h.subject? = some r) (hg : g.subject? = some r) :
    Trace.story (v.note x g).trace i r = Trace.story s.trace i r ++ [h, g] := by
  rw [story_note_self hi hg, ht, story_note_self hi hh, List.append_assoc]
  rfl

theorem story_note_quiet (hr : h.subject? ≠ some r) :
    Trace.story (s.note x h).trace i r = Trace.story s.trace i r := by
  refine story_append_quiet [_] fun e he _ _ _ => ?_
  rw [List.mem_singleton.1 he]
  exact hr

/-- The end of a name is nobody's story. -/
theorem story_release (q : ResourceReference) (c : String) (free : Bool) :
    Trace.story (Attempt.release x q c free s).trace i r = Trace.story s.trace i r := by
  rcases Attempt.release_cases x q c free s with h | ⟨g, -, h⟩ <;> rw [h]
  exact (story_note_quiet (by simp [Happening.subject?])).trans
    (story_note_quiet (by simp [Happening.subject?]))

/-- What is done about an attempt belongs to the story of its reference. -/
theorem Attempt.Step.story_of_ne {env : Collaborators C T} {p q : Attempt T × Site C T}
    (h : Attempt.Step env x p q) (hne : p.1.reference ≠ r) :
    Trace.story q.2.trace i r = Trace.story p.2.trace i r := by
  have hother : ∀ {s : Site C T} {h : Happening C T}, h.subject? = some p.1.reference →
      Trace.story (s.note x h).trace i r = Trace.story s.trace i r :=
    fun hs => story_note_quiet (by rw [hs]; simpa using hne)
  have hquiet : ∀ {s : Site C T} {h : Happening C T}, h.subject? = none →
      Trace.story (s.note x h).trace i r = Trace.story s.trace i r :=
    fun hs => story_note_quiet (by simp [hs])
  cases h with
  | draw | wait | ask | giveUp => rfl
  | update | unaskable | expire | miss => exact hother rfl
  | @probe a s w => exact hother (s := { s with fired := _ }) rfl
  | fail => exact (hother rfl).trans (hother rfl)
  | create _ _ _ _ _ _ hs =>
      subst hs
      exact ((hother rfl).trans (hother rfl)).trans (hother rfl)
  | register _ hs =>
      cases hs with
      | refused | cancel | wake => rfl
      | spawn | spawnOr => exact hquiet rfl
      | synced => exact hquiet rfl
  | install => exact (hother rfl).trans (hother rfl)
  | refuse => exact ((hother rfl).trans (story_release ..)).trans (hother rfl)
  | revoke => exact (story_release ..).trans (hother rfl)

end Story

namespace World

/-- What a step was to an attempt that a call has after it. -/
inductive Fate (env : Collaborators C T) (w w' : World C T) (i j : Nat) (u' : Attempt T) :
    Prop where
  | kept (hu : w.attempt? i j = some u')
      (hs : Trace.story w'.trace i u'.reference = Trace.story w.trace i u'.reference)
  | begun {c : Call C T} {t : T} (hc : w.calls[i]? = some c) (hb : c.hasBegun = false)
      (ht : (distinctTargets c.targets)[j]? = some t) (hu : u' = .begin t)
      (hs : Trace.story w'.trace i u'.reference = Trace.story w.trace i u'.reference)
  | looked {c : Call C T} {a : Activator} {as : List (Attempt T)} {u : Attempt T}
      {s' : Site C T} (hf : w.find? i = some (c, a)) (hst : c.stage = .working as)
      (hu : as[j]? = some u) (hp : Attempt.Step env (context a i c) (u, w.site a) (u', s'))
      (hw : w' = w.put i c as j (u', s'))

section Fate

variable {env : Collaborators C T} {m : Move C T} {w w' : World C T} {i j : Nat}
  {r : ResourceReference}

/-- The story of a call goes on when the call begins and when it is looked at. -/
theorem Step.story_eq (h : Step env m w w') (hlook : ∀ j, m ≠ .look i j) (hbegin : m ≠ .begin i) :
    Trace.story w'.trace i r = Trace.story w.trace i r := by
  have hback := h.background
  -- What is noted for one call does not belong to the story of another.
  have hother : ∀ {l : Nat} {c : Call C T} {a : Activator} {s : Site C T}, l ≠ i →
      (w.site a).Noted (context a l c) s →
      Trace.story s.trace i r = Trace.story w.trace i r := by
    rintro l c a s hl ⟨new, ht, hnew, -⟩
    rw [ht]
    refine story_append_quiet _ fun e he x hx hi => ?_
    rw [hnew e he] at hx
    cases hx
    exact absurd hi hl
  cases h with
  | submit | join | cancel | drop => rfl
  | @begin _ l => exact hother (fun hl => hbegin (by rw [hl])) (beginWork_noted ..)
  | @look _ l j' _ _ _ _ _ _ _ _ hp => exact hother (fun hl => hlook j' (by rw [hl])) hp.noted
  | close =>
      unfold closed
      dsimp only
      split
      · rfl
      · refine story_append_quiet [_] fun e he _ _ _ => ?_
        rw [List.mem_singleton.1 he]
        simp [Happening.subject?]
  | _ =>
      obtain ⟨-, -, ns, ht⟩ := hback rfl
      refine (congrArg (Trace.story · i r) ht).trans (story_append_quiet _ fun e he x hx _ => ?_)
      obtain ⟨n, -, rfl⟩ := List.mem_map.1 he
      cases hx

/-- As a call begins it does nothing about what it wants. -/
theorem story_begun {w : World C T} {c : Call C T} {a : Activator}
    (hr : r ∈ c.targets.map reference) :
    Trace.story (w.begun i c a).trace i r = Trace.story w.trace i r := by
  rw [begun, beginWork_eq]
  dsimp only [setStage, withSite]
  rw [← List.append_assoc]
  refine story_append_quiet _ fun e he _ _ _ => ?_
  rcases List.mem_append.1 he with he | he
  · obtain ⟨q, -, rfl⟩ := List.mem_map.1 (List.mem_reverse.1 he)
    simp [Happening.subject?]
  · obtain ⟨h, hh, rfl⟩ := List.mem_map.1 (List.mem_reverse.1 he)
    intro heq
    have hstale := (List.mem_filter.1 hh).2
    simp only [Happening.subject?, Option.some.injEq] at heq
    simp [heq, hr] at hstale

omit [Targeted T] in
/-- A call that has not begun has no attempts. -/
theorem hasBegun_of_attempts {c : Call C T} {u : Attempt T} (hc : w.calls[i]? = some c)
    (hu : c.attempts[j]? = some u) : w.hasBegun i := by
  rw [World.hasBegun, hc, Option.any_some]
  cases hs : c.stage <;> simp [Call.attempts, Call.hasBegun, hs] at hu ⊢

/-- Only its turn gives attempts to a call that has not begun. -/
theorem Step.fate_of_not_begun (h : Step env m w w') (hb : w.hasBegun i = false)
    {u' : Attempt T} (hu : w'.attempt? i j = some u') : Fate env w w' i j u' := by
  rw [attempt?_eq] at hu
  obtain ⟨c', hc', hu'⟩ := Option.bind_eq_some_iff.1 hu
  have hnone : ∀ {c : Call C T}, w.calls[i]? = some c → c.attempts[j]? = some u' → False := by
    intro c hc hu
    rw [hasBegun_of_attempts hc hu] at hb
    cases hb
  have hmodify : ∀ {l : Nat} {f : Call C T → Call C T}, w'.calls = w.calls.modify l f →
      (∀ c, l = i → w.calls[i]? = some c → (f c).attempts[j]? = some u' →
        Fate env w w' i j u') → Fate env w w' i j u' := by
    intro l f hf hl
    rw [hf, List.getElem?_modify] at hc'
    obtain ⟨c, hc, rfl⟩ := Option.map_eq_some_iff.1 hc'
    by_cases hli : l = i
    · exact hl c hli hc (by simpa [hli] using hu')
    · exact (hnone hc (by simpa [hli] using hu')).elim
  have hworking : ∀ {l : Nat} {c : Call C T} {a : Activator} {as : List (Attempt T)},
      w.find? l = some (c, a) → c.stage = .working as → l ≠ i := by
    rintro l c a as hf hs rfl
    simp [World.hasBegun, (find?_eq_some.1 hf).1, Call.hasBegun, hs] at hb
  have hback := h.background
  cases h with
  | submit =>
      have hc' : (w.calls ++ _)[i]? = some c' := hc'
      rw [List.getElem?_append] at hc'
      split at hc'
      · exact (hnone hc' hu').elim
      · obtain ⟨q, -, rfl⟩ := List.mem_map.1 (List.mem_of_getElem? hc')
        simp [Call.attempts, Request.call] at hu'
  | join => exact hmodify rfl fun c _ _ hu => by simp [Call.attempts] at hu
  | @begin _ l c a hf hs hh =>
      refine hmodify (f := fun d => { d with stage := _ }) rfl fun c₀ hl hc hu => ?_
      subst hl
      obtain ⟨hc₁, -⟩ := find?_eq_some.1 hf
      rw [hc] at hc₁
      cases hc₁
      simp only [Call.attempts, beginWork_eq, List.getElem?_map] at hu
      obtain ⟨t, ht, rfl⟩ := Option.map_eq_some_iff.1 hu
      refine .begun hc (by simp [Call.hasBegun, hs]) ht rfl (story_begun ?_)
      exact List.mem_map.2 ⟨t, (distinctBy_sublist ..).subset (List.mem_of_getElem? ht), rfl⟩
  | look hf hs => exact hmodify rfl fun _ hl => absurd hl (hworking hf hs)
  | close hf hs => exact hmodify (closed_calls ..) fun _ hl => absurd hl (hworking hf hs)
  | cancel =>
      exact hmodify (f := fun c => { c with cancelled := true }) rfl
        fun c _ hc hu => (hnone hc hu).elim
  | drop => exact hmodify rfl fun c _ _ hu => by simp [Call.attempts] at hu
  | _ =>
      obtain ⟨hcs, -, -⟩ := hback rfl
      rw [hcs] at hc'
      exact (hnone hc' hu').elim

theorem Step.fate (h : Step env m w w') (hw : w.Orderly) {u' : Attempt T}
    (hu : w'.attempt? i j = some u') : Fate env w w' i j u' := by
  by_cases hlook : ∃ l, m = .look i l
  · obtain ⟨l, rfl⟩ := hlook
    cases h with
    | @look _ _ _ c a as u p hf hst hl hp =>
        have hget : (as.set l p.1)[j]? = some u' := by
          rw [← attempt?_of_working (find?_put hf) rfl]
          exact hu
        by_cases hjl : l = j
        · subst hjl
          rw [List.getElem?_set_self (List.getElem?_eq_some_iff.1 hl).1] at hget
          cases hget
          exact .looked hf hst hl hp rfl
        · rw [List.getElem?_set_ne hjl] at hget
          refine .kept (by rw [attempt?_of_working hf hst, hget]) ?_
          refine hp.story_of_ne fun heq => hjl ?_
          have hnd := nodup_references hw (find?_eq_some.1 hf).1 hst
          refine (List.getElem?_inj (by simpa using (List.getElem?_eq_some_iff.1 hl).1) hnd).1 ?_
          rw [List.getElem?_map, List.getElem?_map, hl, hget]
          exact congrArg some heq
  · have hlook : ∀ l, m ≠ .look i l := fun l hl => hlook ⟨l, hl⟩
    cases hb : w.hasBegun i with
    | false => exact h.fate_of_not_begun hb hu
    | true =>
        refine .kept (h.attempt? hb hlook hu) (h.story_eq hlook ?_)
        rintro rfl
        rw [h.hasBegun_begin.2.1] at hb
        cases hb

end Fate

section Course

variable {env : Collaborators C T} {m : Move C T} {w w' : World C T} {i : Nat} {c c' : Call C T}

/-- After a step a call is there with the same scope, and its activator with the same policy. -/
theorem Step.find?_kept {a : Activator} (h : Step env m w w') (hf : w.find? i = some (c, a)) :
    ∃ c' a', w'.find? i = some (c', a') ∧ (context a' i c').scope = (context a i c).scope ∧
      a'.policy = a.policy := by
  obtain ⟨hc, ha⟩ := find?_eq_some.1 hf
  obtain ⟨c', hc', hlater⟩ := h.later hc
  obtain ⟨a', ha', hcap, hpol⟩ := h.activator ha
  rw [← hlater.activator] at ha'
  exact ⟨c', a', find?_eq_some.2 ⟨hc', ha'⟩,
    by simp [context, hlater.activator, hlater.config, hlater.targets, hcap], hpol⟩

/-- An activator was there before a step, with the same name and the same policy. -/
theorem Step.exists_activator (h : Step env m w w') {k : Nat} {a' : Activator}
    (ha' : w'.activators[k]? = some a') : ∃ a, w.activators[k]? = some a ∧
      a'.capability = a.capability ∧ a'.policy = a.policy := by
  obtain ⟨new, y, hnoted⟩ := h.noted
  obtain ⟨a, ha, -⟩ := hnoted.store k a' ha'
  obtain ⟨b, hb, hkept⟩ := h.activator ha
  rw [ha'] at hb
  cases hb
  exact ⟨a, ha, hkept⟩

/-- A call was there before a step with the same scope, and its activator with the same policy. -/
theorem Step.exists_find? (h : Step env m w w') {a' : Activator} (hc : w.calls[i]? = some c)
    (hf : w'.find? i = some (c', a')) :
    ∃ a, w.find? i = some (c, a) ∧ (context a' i c').scope = (context a i c).scope ∧
      a'.policy = a.policy := by
  obtain ⟨hc', ha'⟩ := find?_eq_some.1 hf
  obtain ⟨d, hd, hlater⟩ := h.later hc
  rw [hc'] at hd
  cases hd
  obtain ⟨a, ha, hcap, hpol⟩ := h.exists_activator ha'
  rw [hlater.activator] at ha
  exact ⟨a, find?_eq_some.2 ⟨hc, ha⟩,
    by simp [context, hlater.activator, hlater.config, hlater.targets, hcap], hpol⟩

/-- What a step does to a call that has had its turn: one of its attempts makes a step, it ends
or is dropped, or it stays at its stage. -/
theorem Step.stage_cases (h : Step env m w w') (hc : w.calls[i]? = some c) (hb : c.hasBegun)
    (hc' : w'.calls[i]? = some c') :
    c'.stage = c.stage ∨ m = .drop i ∨
      (∃ a as j u p, w.find? i = some (c, a) ∧ c.stage = .working as ∧ as[j]? = some u ∧
        Attempt.Step env (context a i c) (u, w.site a) p ∧
        c'.stage = .working (as.set j p.1)) ∨
      ∃ as, c.stage = .working as ∧ as.all Attempt.isDone ∧ c'.stage = .ended as w.now := by
  have hmodify : ∀ {l : Nat} {f : Call C T → Call C T}, w'.calls = w.calls.modify l f →
      c' = if l = i then f c else c := by
    intro l f hf
    rw [hf, List.getElem?_modify, hc] at hc'
    split at hc' <;> simp_all
  have hback := h.background
  cases h with
  | submit =>
      have hc' : (w.calls ++ _)[i]? = some c' := hc'
      rw [List.getElem?_append_left (List.getElem?_eq_some_iff.1 hc).1, hc] at hc'
      cases hc'
      exact .inl rfl
  | @join _ l d b hf hs =>
      have heq := hmodify (f := fun d => { d with stage := .queued }) rfl
      split at heq
      · next hl =>
          subst hl
          rw [(find?_eq_some.1 hf).1] at hc
          cases hc
          simp [Call.hasBegun, hs] at hb
      · exact .inl (by rw [heq])
  | @begin _ l d b hf hs hh =>
      have heq := hmodify (f := fun d => { d with stage := _ }) rfl
      split at heq
      · next hl =>
          subst hl
          rw [(find?_eq_some.1 hf).1] at hc
          cases hc
          simp [Call.hasBegun, hs] at hb
      · exact .inl (by rw [heq])
  | @look _ l j d b as u p hf hs ht hp =>
      have heq := hmodify (f := fun d => { d with stage := .working (as.set j p.1) }) rfl
      split at heq
      · next hl =>
          subst hl
          obtain rfl : d = c := Option.some.inj ((find?_eq_some.1 hf).1.symm.trans hc)
          exact .inr (.inr (.inl ⟨b, as, j, u, p, hf, hs, ht, hp, by rw [heq]⟩))
      · exact .inl (by rw [heq])
  | @close _ l d b as hf hs hd =>
      have heq := hmodify (closed_calls ..)
      split at heq
      · next hl =>
          subst hl
          obtain rfl : d = c := Option.some.inj ((find?_eq_some.1 hf).1.symm.trans hc)
          exact .inr (.inr (.inr ⟨as, hs, hd, by rw [heq]⟩))
      · exact .inl (by rw [heq])
  | @cancel _ l =>
      have heq := hmodify (l := l) (f := fun d => { d with cancelled := true }) rfl
      split at heq <;> exact .inl (by rw [heq])
  | @drop _ l =>
      have heq := hmodify (l := l) (f := fun d => { d with stage := _ }) rfl
      split at heq
      · next hl => exact .inr (.inl (by rw [hl]))
      · exact .inl (by rw [heq])
  | _ =>
      rw [(hback rfl).1, hc] at hc'
      cases hc'
      exact .inl rfl

end Course

/-- A call ends only when all its attempts have. -/
theorem Reachable.all_isDone {env : Collaborators C T} {policies : List (String × Policy)}
    {w : World C T} (hw : Reachable env policies w) :
    ∀ c ∈ w.calls, ∀ us time, c.stage = .ended us time → us.all Attempt.isDone := by
  obtain ⟨ms, rfl⟩ := hw
  refine invariant_of_play (A := fun _ => True) (P := fun w => ∀ c ∈ w.calls, ∀ us time,
    c.stage = .ended us time → us.all Attempt.isDone) (fun _ h hw => ?_) (fun _ _ => trivial)
    (fun _ hc => by cases hc)
  have hback := h.background
  cases h with
  | submit =>
      intro c hc us time hs
      rcases List.mem_append.1 hc with hc | hc
      · exact hw c hc us time hs
      · obtain ⟨q, -, rfl⟩ := List.mem_map.1 hc
        cases hs
  | join | begin | look | drop =>
      refine forall_mem_modify hw fun _ _ us time hs => ?_
      cases hs
  | close _ _ hd =>
      rw [closed_calls]
      refine forall_mem_modify hw fun _ _ us time hs => ?_
      cases hs
      exact hd
  | cancel => exact forall_mem_modify hw fun c hc => hw c (List.mem_of_getElem? hc)
  | _ =>
      rw [(hback rfl).1]
      exact hw

end World

end Lifecycle
