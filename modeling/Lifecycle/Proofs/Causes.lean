import Lifecycle.Proofs.Story

/-!
# What a call reports

A call that has ended reports its causes in the order of its targets, although its
attempts come to their ends in any order. `causes_attributed` reads them off the
trace: every distinct target has its story, the story is one of few, and the last
thing in it decides whether there is a cause and which one it is.

A cause speaks of somebody else: of what a check found, of what a registration came
to. `EndsAs` has the stories together with what they rest on, that the check which
failed was started after all the others and what it was to find then, and that the
controller was made for this very target and could fail like this. So the invariant
has to remember both from the instant at which they come into being; `Attempt.Told`
does, and needs one case for each step of an attempt.
-/

namespace Lifecycle

variable {C T : Type}

/-- How a registration can end. -/
def Registration.CanReturn : Registration → Option Fault → Prop
  | finish fault, f => f = fault
  | spawn name body next, f =>
    (∃ (g : Registry) (e : Fault), g.spawn name body = .error e ∧ f = some e) ∨ next.CanReturn f
  | spawnOr _ _ next refused, f => next.CanReturn f ∨ refused.CanReturn f
  | cancel _ next, f | synced next, f => next.CanReturn f
  | sleep _ interrupted next, f => interrupted = some f ∨ next.CanReturn f

namespace Registration

variable {x : Context C} {c : String} {r : ResourceReference} {rest rest' : Registration}
  {since : Nat} {s s' : Site C T} {fault : Option Fault}

/-- What is left of a registration ends as the whole can. -/
theorem Step.canReturn (h : Step x c r rest since s rest' s') (hf : rest'.CanReturn fault) :
    rest.CanReturn fault := by
  cases h with
  | spawn | wake => exact .inr hf
  | spawnOr => exact .inl hf
  | refused => exact .inr hf
  | cancel | synced => exact hf

theorem Returns.canReturn (h : Returns x rest s fault) : rest.CanReturn fault := by
  cases h with
  | finish => rfl
  | refused h => exact .inl ⟨_, _, h, rfl⟩
  | interrupted => exact .inl rfl

end Registration

variable [Targeted T]

/-! ## Stories -/

section Stories

variable (r : ResourceReference)

/-- Checks that were answered with "not yet". -/
def awaited (n : Nat) : List (Happening C T) :=
  (List.replicate n [.probed r.groupVersion (some r),
    .answered r.groupVersion (some r) .notYet]).flatten

/-- A wait that has not come to an answer; a last check may not have ended. -/
def Unanswered (told : List (Happening C T)) : Prop :=
  ∃ n, told = awaited r n ∨ told = awaited r n ++ [.probed r.groupVersion (some r)]

/-- A wait that was answered, and the controller that was made then. -/
def readied (n : Nat) (c : String) (t : T) (config : C) : List (Happening C T) :=
  awaited r n ++ [.probed r.groupVersion (some r), .answered r.groupVersion (some r) .ready,
    .created c t config, .registering c r]

omit [Targeted T] in
theorem awaited_succ (n : Nat) : (awaited r (n + 1) : List (Happening C T)) =
    awaited r n ++ [.probed r.groupVersion (some r)] ++
      [.answered r.groupVersion (some r) .notYet] := by
  rw [awaited, List.replicate_succ', List.flatten_append, ← awaited, List.append_assoc]
  rfl

omit [Targeted T] in
theorem getLast?_awaited {n : Nat} {h : Happening C T} (hl : (awaited r n).getLast? = some h) :
    h = .answered r.groupVersion (some r) .notYet := by
  cases n with
  | zero => cases hl
  | succ n =>
      rw [awaited_succ, List.getLast?_concat] at hl
      exact (Option.some.inj hl).symm

/-- The cause that a story ends with: its last word, if it has one. An attempt that is given up
leaves no word, or only what its registration came to. -/
def verdict (told : List (Happening C T)) : Option Cause :=
  match told.getLast? with
  | some (.updated ..) | some (.installed ..) => none
  | some (.probeFailed _ f) => some (.probe r.gvk f)
  | some (.timedOut _ d) => some (.readinessTimeout r.gvk d)
  | some (.setupFailed _ c f) => some (.setup c f)
  | _ => some (.cancelled r.gvk)

omit [Targeted T] in
theorem verdict_unanswered {told : List (Happening C T)} (h : Unanswered r told) :
    verdict r told = some (.cancelled r.gvk) := by
  obtain ⟨n, rfl | rfl⟩ := h
  · unfold verdict
    cases hl : (awaited r n : List (Happening C T)).getLast? with
    | none => rfl
    | some h => rw [getLast?_awaited r hl]
  · rw [verdict, List.getLast?_concat]

end Stories

/-- How an attempt for a target ends: its story, what it rests on, and the cause. -/
inductive EndsAs (env : Collaborators C T) (x : Scope C) (timeout : Duration) (t : T)
    (tr : Trace C T) (cancelled : Prop) : List (Happening C T) → Option Cause → Prop where
  | updated {c} : EndsAs env x timeout t tr cancelled [.updated (reference t) c x.config] none
  | installed {n c} :
      EndsAs env x timeout t tr cancelled
        (readied (reference t) n c t x.config ++
          [.returned c (reference t) none false, .installed (reference t) c]) none
  | unaskable {n f} (hf : env.refusal? (reference t).groupVersion = some f) :
      EndsAs env x timeout t tr cancelled
        (awaited (reference t) n ++ [.probeFailed (reference t) f])
        (some (.probe (reference t).gvk f))
  /-- The check that failed is the last one. -/
  | failed {n f before now}
      (he : ⟨now, some x, .probed (reference t).groupVersion (some (reference t))⟩ :: before <:+ tr)
      (hs : Trace.story before x.call (reference t) = awaited (reference t) n)
      (hf : (env.check before now (reference t).groupVersion).finding = .failed f) :
      EndsAs env x timeout t tr cancelled
        (awaited (reference t) n ++
          [.probed (reference t).groupVersion (some (reference t)),
            .answered (reference t).groupVersion (some (reference t)) (.failed f),
            .probeFailed (reference t) f])
        (some (.probe (reference t).gvk f))
  | expired {told} (h : Unanswered (reference t) told) :
      EndsAs env x timeout t tr cancelled (told ++ [.timedOut (reference t) timeout])
        (some (.readinessTimeout (reference t).gvk timeout))
  | gaveUp {told} (h : Unanswered (reference t) told) (hc : cancelled) :
      EndsAs env x timeout t tr cancelled told (some (.cancelled (reference t).gvk))
  | revoked {n c fault} (hc : cancelled) :
      EndsAs env x timeout t tr cancelled
        (readied (reference t) n c t x.config ++ [.returned c (reference t) fault true])
        (some (.cancelled (reference t).gvk))
  /-- The controller is the one that was made, and its registration can fail like this. -/
  | refused {n k f before now}
      (he : ⟨now, some x, .created (Controller.name k) t x.config⟩ :: before <:+ tr)
      (hk : k = env.create before now x.capability t x.config)
      (hf : k.registration.CanReturn (some f)) :
      EndsAs env x timeout t tr cancelled
        (readied (reference t) n k.name t x.config ++
          [.returned k.name (reference t) (some f) false,
            .setupFailed (reference t) k.name f])
        (some (.setup k.name f))

namespace EndsAs

variable {env : Collaborators C T} {x : Scope C} {timeout : Duration} {t : T}
  {tr tr' : Trace C T} {d d' : Prop} {told : List (Happening C T)} {cause : Option Cause}

theorem mono (h : EndsAs env x timeout t tr d told cause) (htr : tr <:+ tr') (hd : d → d') :
    EndsAs env x timeout t tr' d' told cause := by
  cases h with
  | updated => exact .updated
  | installed => exact .installed
  | unaskable hf => exact .unaskable hf
  | failed he hs hf => exact .failed (he.trans htr) hs hf
  | expired hu => exact .expired hu
  | gaveUp hu hc => exact .gaveUp hu (hd hc)
  | revoked hc => exact .revoked (hd hc)
  | refused he hk hf => exact .refused (he.trans htr) hk hf

/-- A story has no more than one end. -/
theorem eq_verdict (h : EndsAs env x timeout t tr d told cause) :
    cause = verdict (reference t) told := by
  cases h with
  | gaveUp hu => exact (verdict_unanswered _ hu).symm
  | _ => simp [verdict]

end EndsAs

/-! ## Stories under way -/

/-- A check of an attempt was started when nothing but others had been answered. -/
def Checked (env : Collaborators C T) (x : Scope C) (r : ResourceReference) (tr : Trace C T)
    (n : Nat) (check : Check Fault) : Prop :=
  ∃ before now, ⟨now, some x, .probed r.groupVersion (some r)⟩ :: before <:+ tr ∧
    Trace.story before x.call r = awaited r n ∧ check = env.check before now r.groupVersion

/-- A controller was made for a target, and `rest` is what is left of its registration. -/
def Made (env : Collaborators C T) (x : Scope C) (t : T) (tr : Trace C T) (c : String)
    (rest : Registration) : Prop :=
  ∃ before now, ∃ k : Controller, c = k.name ∧
    ⟨now, some x, .created k.name t x.config⟩ :: before <:+ tr ∧
    k = env.create before now x.capability t x.config ∧
    ∀ fault, rest.CanReturn fault → k.registration.CanReturn fault

/-- What has been done about an attempt by the time it is at its stage. -/
def Attempt.Told (env : Collaborators C T) (x : Scope C) (timeout : Duration) (tr : Trace C T)
    (cancelled : Prop) (a : Attempt T) : Prop :=
  match a.stage with
  | .fresh => Trace.story tr x.call a.reference = []
  | .waiting w => ∃ n,
    match w.phase with
    | .inFlight check _ =>
      Trace.story tr x.call a.reference =
          awaited a.reference n ++ [.probed a.reference.groupVersion (some a.reference)] ∧
        Checked env x a.reference tr n check
    | _ => Trace.story tr x.call a.reference = awaited a.reference n
  | .registering c _ rest _ =>
    (∃ n, Trace.story tr x.call a.reference = readied a.reference n c a.target x.config) ∧
      Made env x a.target tr c rest
  | .done cause _ =>
    EndsAs env x timeout a.target tr cancelled (Trace.story tr x.call a.reference) cause

namespace Attempt

variable {env : Collaborators C T} {timeout : Duration} {a b : Attempt T} {d d' : Prop}

theorem Told.mono {x : Scope C} {tr tr' : Trace C T} (h : a.Told env x timeout tr d)
    (htr : tr <:+ tr') (hd : d → d')
    (hs : Trace.story tr' x.call a.reference = Trace.story tr x.call a.reference) :
    a.Told env x timeout tr' d' := by
  unfold Told at h ⊢
  rw [hs]
  split at h
  · exact h
  · obtain ⟨n, h⟩ := h
    refine ⟨n, ?_⟩
    split at h
    · obtain ⟨htold, before, now, he, hbefore⟩ := h
      exact ⟨htold, before, now, he.trans htr, hbefore⟩
    · exact h
  · obtain ⟨htold, before, now, k, hc, he, hk⟩ := h
    exact ⟨htold, before, now, k, hc, he.trans htr, hk⟩
  · exact h.mono htr hd

variable {x : Context C} {s s' : Site C T}

/-- The story of an attempt that waits. -/
theorem Told.unanswered {tr : Trace C T} {y : Scope C} (h : a.Told env y timeout tr d)
    {w : Wait Fault} (hw : a.stage = .waiting w) :
    Unanswered a.reference (Trace.story tr y.call a.reference) := by
  unfold Told at h
  rw [hw] at h
  obtain ⟨n, h⟩ := h
  split at h
  · exact ⟨n, .inr h.1⟩
  · exact ⟨n, .inl h⟩

/-- A wait that wants a check has none running. -/
theorem Told.of_ask {tr : Trace C T} {y : Scope C} (h : a.Told env y timeout tr d)
    {w : Wait Fault} (hw : a.stage = .waiting w) {c : Bool} {now : Nat}
    (ht : w.turn c now = .ask) :
    ∃ n, Trace.story tr y.call a.reference = awaited a.reference n := by
  unfold Told at h
  rw [hw] at h
  obtain ⟨n, h⟩ := h
  split at h
  · next check since hp => exact absurd hp (phase_of_turn_eq_ask ht check since)
  · exact ⟨n, h⟩

theorem Told.checked {tr : Trace C T} {y : Scope C} (h : a.Told env y timeout tr d)
    {w : Wait Fault} (hw : a.stage = .waiting w) {check : Check Fault} {since : Nat}
    (hp : w.phase = .inFlight check since) :
    ∃ n, Trace.story tr y.call a.reference =
        awaited a.reference n ++
          [.probed a.reference.groupVersion (some a.reference)] ∧
      Checked env y a.reference tr n check := by
  unfold Told at h
  rw [hw] at h
  dsimp only at h
  rw [hp] at h
  exact h

/-- What an attempt that registers has done, and what is left to do. -/
theorem Told.registering {tr : Trace C T} {y : Scope C} (h : a.Told env y timeout tr d)
    {c : String} {free : Bool} {rest : Registration} {since : Nat}
    (hr : a.stage = .registering c free rest since) :
    (∃ n, Trace.story tr y.call a.reference = readied a.reference n c a.target y.config) ∧
      Made env y a.target tr c rest := by
  unfold Told at h
  rw [hr] at h
  exact h

/-- An attempt that has ended, by its story. -/
theorem Told.finish {tr : Trace C T} {y : Scope C} {told : List (Happening C T)}
    {cause : Option Cause} (hs : Trace.story tr y.call a.reference = told)
    (h : EndsAs env y timeout a.target tr d told cause) (time : Nat) :
    (a.finish cause time).Told env y timeout tr d := by
  subst hs
  exact h

/-! ## What a step adds -/

section Steps

variable {c : String} {free : Bool} {check : Check Fault} {rest rest' : Registration}
  {since : Nat} {w : Wait Fault} {f : Fault} (ha : a.Told env x.scope timeout s.trace d)

include ha

/-- A check that fails is the one that the attempt started. -/
theorem Told.fail (hw : a.stage = .waiting w) (hp : w.phase = .inFlight check since)
    (hf : check.finding = .failed f) :
    (a.finish (some (.probe a.reference.gvk f)) s.now).Told env x.scope timeout
      ((s.note x (.answered a.reference.groupVersion (some a.reference) (.failed f))).note x
        (.probeFailed a.reference f)).trace d := by
  obtain ⟨n, htold, before, now, he, hbefore, hcheck⟩ := ha.checked hw hp
  refine Told.finish (story_note_note rfl rfl rfl rfl) ?_ _
  rw [htold, List.append_assoc]
  refine .failed (he.trans ?_) hbefore (hcheck ▸ hf)
  exact (List.suffix_cons ..).trans (List.suffix_cons ..)

theorem Told.create (hw : a.stage = .waiting w) (hp : w.phase = .inFlight check since)
    (hs : s' = s.note x (.answered a.reference.groupVersion (some a.reference) .ready))
    {k : Controller}
    (hk : k = env.create s'.trace s.now x.scope.capability a.target x.scope.config) :
    (a.toStage (.registering k.name free k.registration s.now)).Told env x.scope timeout
      ((s'.note x (.created k.name a.target x.scope.config)).note x
        (.registering k.name a.reference)).trace d := by
  obtain ⟨n, htold, -⟩ := ha.checked hw hp
  subst hs
  refine ⟨⟨n, (story_note_note (r := a.reference) rfl rfl rfl rfl).trans ?_⟩, _, s.now, k, rfl,
    List.suffix_cons .., hk, fun _ => id⟩
  rw [story_note_self rfl rfl, htold]
  simp [readied, toStage, reference]

/-- What a registration does before it returns is told of nobody. -/
theorem Told.register (hr : a.stage = .registering c free rest since)
    (hs : Registration.Step x c a.reference rest since s rest' s') (htr : s.trace <:+ s'.trace) :
    (a.toStage (.registering c free rest' s'.now)).Told env x.scope timeout s'.trace d := by
  obtain ⟨⟨n, htold⟩, before, now, k, hk, he, hmade, hfault⟩ := ha.registering hr
  refine ⟨⟨n, Eq.trans ?_ htold⟩, before, now, k, hk, he.trans htr, hmade,
    fun f hf => hfault f (hs.canReturn hf)⟩
  cases hs with
  | refused | cancel | wake => rfl
  | spawn | spawnOr | synced => exact story_note_quiet (by simp [Happening.subject?])

theorem Told.install (hr : a.stage = .registering c free rest since) :
    (a.finish none s.now).Told env x.scope timeout
      ({ s.note x (.returned c a.reference none false) with
        store := s.store.install a.reference c }.note x (.installed a.reference c)).trace d := by
  obtain ⟨⟨n, htold⟩, -⟩ := ha.registering hr
  refine Told.finish
    (story_note_note (h := .returned c a.reference none false) (s := s) rfl rfl rfl rfl) ?_ _
  rw [htold]
  exact .installed

/-- A registration that fails does so with a fault that its controller can return. -/
theorem Told.refuse (hr : a.stage = .registering c free rest since)
    (hend : rest.Returns x s (some f)) :
    (a.finish (some (.setup c f)) s.now).Told env x.scope timeout
      ((release x a.reference c free (s.note x (.returned c a.reference (some f) false))).note x
        (.setupFailed a.reference c f)).trace d := by
  obtain ⟨⟨n, htold⟩, before, now, k, rfl, hbefore, hmade, hfault⟩ := ha.registering hr
  refine Told.finish ((story_note_self rfl rfl).trans
    (congrArg (· ++ _) ((story_release ..).trans (story_note_self rfl rfl)))) ?_ _
  rw [htold, List.append_assoc]
  have hnote : s.trace <:+ (s.note x (.returned k.name a.reference (some f) false)).trace :=
    List.suffix_cons ..
  have hrelease := hnote.trans (suffix_release x a.reference k.name free _)
  exact .refused (hbefore.trans (hrelease.trans (List.suffix_cons ..))) hmade
    (hfault _ hend.canReturn)

theorem Told.revoke (hr : a.stage = .registering c free rest since) (hd : d)
    {fault : Option Fault} :
    (a.finish (some (.cancelled a.reference.gvk)) s.now).Told env x.scope timeout
      (release x a.reference c free (s.note x (.returned c a.reference fault true))).trace d := by
  obtain ⟨⟨n, htold⟩, -⟩ := ha.registering hr
  refine Told.finish ((story_release ..).trans (story_note_self rfl rfl)) ?_ _
  rw [htold]
  exact .revoked hd

end Steps

theorem Step.told (h : Step env x (a, s) (b, s'))
    (ha : a.Told env x.scope x.policy.readinessTimeout s.trace d) (hc : s.cancelled x = true → d) :
    b.Told env x.scope x.policy.readinessTimeout s'.trace d := by
  have htrace := h.trace_suffix
  cases h with
  | draw => exact ha
  | update hf =>
      unfold Told at ha
      rw [hf] at ha
      refine Told.finish (story_note_self rfl rfl) ?_ _
      rw [show Trace.story s.trace x.scope.call a.reference = [] from ha]
      exact .updated
  | wait hf =>
      unfold Told at ha
      rw [hf] at ha
      exact ⟨0, ha⟩
  | ask hw ht => exact ha.of_ask hw ht
  | unaskable hw ht hr =>
      obtain ⟨n, htold⟩ := ha.of_ask hw ht
      refine Told.finish (story_note_self rfl rfl) ?_ _
      rw [htold]
      exact .unaskable hr
  | probe hw ht =>
      obtain ⟨n, htold⟩ := ha.of_ask hw ht
      refine ⟨n, (story_note_self (s := { s with fired := _ }) rfl rfl).trans ?_, s.trace, s.now,
        List.suffix_refl _, htold, rfl⟩
      exact congrArg (· ++ _) htold
  | giveUp hw hcan => exact Told.finish rfl (.gaveUp (ha.unanswered hw) (hc hcan)) _
  | expire hw => exact Told.finish (story_note_self rfl rfl) (.expired (ha.unanswered hw)) _
  | miss hw hp =>
      obtain ⟨n, htold, -⟩ := ha.checked hw hp
      refine ⟨n + 1, (story_note_self (r := a.reference) rfl rfl).trans ?_⟩
      rw [htold, awaited_succ]
      rfl
  | fail hw hp _ hf => exact ha.fail hw hp hf
  | create hw hp _ _ _ _ hs hk => exact ha.create hw hp hs hk
  | register hr hs => exact ha.register hr hs htrace
  | install hr => exact ha.install hr
  | refuse hr hend => exact ha.refuse hr hend
  | revoke hr _ hcan => exact ha.revoke hr (hc hcan)

end Attempt

/-! ## Every run -/

namespace World

variable {env : Collaborators C T} {m : Move C T} {w w' : World C T} {i : Nat}

/-- Whether a call is cancelled, as far as the round it was made in is still under way. -/
def WasCancelled (w : World C T) (i : Nat) : Prop := w.opened ≤ i → w.isCancelled i

theorem Step.wasCancelled (h : Step env m w w') (hi : i < w.calls.length)
    (hc : w.WasCancelled i) : w'.WasCancelled i := by
  intro hopened
  by_cases hm : ∃ rs, m = .submit rs
  · obtain ⟨rs, rfl⟩ := hm
    cases h
    exact absurd hi (Nat.not_lt.2 hopened)
  · have hsame : w'.opened = w.opened := by
      cases h with
      | submit => exact absurd ⟨_, rfl⟩ hm
      | close =>
          unfold closed
          dsimp only
          split <;> rfl
      | turnLoops => rw [turnLoops_eq]
      | spawn | abort =>
          rw [turnLoops_eq]
          rfl
      | turnShutdown => rw [foldl_noteLoop]
      | _ => rfl
    exact (h.isCancelled_or (hc (hsame ▸ hopened))).resolve_right fun hq => hm hq.2

/-- Every attempt has the story that its stage tells of, and what has not begun has none. -/
structure Telling (env : Collaborators C T) (w : World C T) : Prop where
  taken : ∃ order, Taken 0 order w
  told : ∀ i c a (j : Nat) (u : Attempt T), w.find? i = some (c, a) → c.attempts[j]? = some u →
    u.Told env (context a i c).scope a.policy.readinessTimeout w.trace (w.WasCancelled i)

theorem telling_step (h : Step env m w w') (hw : w.Orderly) (ht : w.Telling env) :
    w'.Telling env := by
  obtain ⟨order, htaken⟩ := ht.taken
  refine ⟨⟨_, taken_step h hw htaken⟩, fun i c' a' j u hf' hu => ?_⟩
  obtain ⟨hc', -⟩ := find?_eq_some.1 hf'
  have hat : w'.attempt? i j = some u := by rw [attempt?_eq, hc', Option.bind_some, hu]
  cases h.fate hw hat with
  | kept hu hs =>
      rw [attempt?_eq] at hu
      obtain ⟨c, hc, hu⟩ := Option.bind_eq_some_iff.1 hu
      obtain ⟨a, hf, hx, hp⟩ := h.exists_find? hc hf'
      rw [hx, hp]
      exact (ht.told i c a j u hf hu).mono h.trace_suffix
        (h.wasCancelled (List.getElem?_eq_some_iff.1 hc).1) hs
  | begun hc hb _ hu hs =>
      subst hu
      have hnone : w.hasBegun i = false := by rw [World.hasBegun, hc, Option.any_some, hb]
      refine hs.trans ?_
      rw [Trace.story, htaken.ofCall_eq_nil hnone]
      rfl
  | @looked c a as v s' hf hst hv hp hput =>
      subst hput
      rw [find?_put hf] at hf'
      cases hf'
      have hc := (find?_eq_some.1 hf).1
      have hlen := (List.getElem?_eq_some_iff.1 hc).1
      have hold : v.Told env (context a i c).scope a.policy.readinessTimeout w.trace
          ((w.put i c as j (u, s')).WasCancelled i) :=
        (ht.told i c a j v hf (by rw [Call.attempts, hst]; exact hv)).mono (List.suffix_refl _)
          (h.wasCancelled hlen) rfl
      refine hp.told hold fun hcan => h.wasCancelled hlen fun _ => ?_
      rw [isCancelled, hc, Bool.or_comm]
      exact hcan

theorem Reachable.telling {policies : List (String × Policy)} (hw : Reachable env policies w) :
    w.Telling env := by
  obtain ⟨ms, rfl⟩ := hw
  refine invariant_of_orderly (A := fun _ => True) (fun _ h hw ht => telling_step h hw ht)
    (fun _ _ => trivial) (orderly_ofActivators policies) ⟨⟨[], taken_ofActivators policies 0⟩, ?_⟩
  intro i c a j u hf
  cases (find?_eq_some.1 hf).1

/-- Whatever moves have brought a call to its end, its causes are the verdicts of the
stories of its targets: one for each distinct reference that failed, in the order of first
occurrence. And every story is of the kind that ends with its verdict. -/
theorem causes_attributed {policies : List (String × Policy)} (hw : Reachable env policies w)
    {c : Call C T} {a : Activator} {us : List (Attempt T)} {time : Nat}
    (hf : w.find? i = some (c, a)) (hs : c.stage = .ended us time) :
    let told (t : T) := Trace.story w.trace i (reference t)
    let causes := (distinctTargets c.targets).filterMap fun t => verdict (reference t) (told t)
    c.result? = some (if causes.isEmpty then .ok else .failed causes, time) ∧
      (distinctTargets c.targets).map reference = (c.targets.map reference).eraseDups ∧
      ∀ t ∈ distinctTargets c.targets,
        EndsAs env (context a i c).scope a.policy.readinessTimeout t w.trace (w.WasCancelled i)
          (told t) (verdict (reference t) (told t)) := by
  intro told causes
  have hmem := List.mem_of_getElem? (find?_eq_some.1 hf).1
  have hcov : us.map Attempt.target = distinctTargets c.targets :=
    hw.orderly.covers c hmem us (.inr ⟨time, hs⟩)
  have hdone := hw.all_isDone c hmem us time hs
  have hends : ∀ u ∈ us, EndsAs env (context a i c).scope a.policy.readinessTimeout u.target
      w.trace (w.WasCancelled i) (told u.target) u.cause? := by
    intro u hu
    obtain ⟨j, hj⟩ := List.getElem?_of_mem hu
    have htold := hw.telling.told i c a j u hf (by rw [Call.attempts, hs]; exact hj)
    obtain ⟨cause, d, hst⟩ := Attempt.isDone_iff.1 (List.all_eq_true.1 hdone u hu)
    unfold Attempt.Told at htold
    rw [hst] at htold
    rw [Attempt.cause?, hst]
    exact htold
  have hcauses : c.causes = causes := by
    rw [Call.causes, Call.attempts, hs]
    simp only [causes, ← hcov, List.filterMap_map]
    exact List.filterMap_congr fun u hu => (hends u hu).eq_verdict
  refine ⟨?_, ?_, fun t ht => ?_⟩
  · rw [Call.result?, hs, hcauses]
  · rw [distinctTargets, map_distinctBy]
    simp
  · rw [← hcov] at ht
    obtain ⟨u, hu, rfl⟩ := List.mem_map.1 ht
    rw [← (hends u hu).eq_verdict]
    exact hends u hu

/-- Four targets, one of them listed twice, of which three fail, each in its own way, and
come to their ends in the opposite order. -/
theorem causes_attributed_mixed :
    let target (version name : String) : ResourceReference :=
      ⟨"example.com", version, "Widget", name, some "default"⟩
    let env : Collaborators String ResourceReference :=
      { Collaborators.prompt with
        check := fun _ _ gv => ⟨false, if gv.version = "v1" then none else some 0,
          if gv.version = "v2" then .failed (.discovery "example.com/v2" "refused") else .ready⟩
        create := fun _ _ _ r _ => ⟨r.name, .spawn r.name .forever (.finish
          (if r.name = "c" then some (.registration "c" "full") else none))⟩ }
    let policies := [("widgets", Policy.default)]
    let w := (ofActivators policies).play env
      [.submit [⟨0, "s", [target "v1" "a", target "v2" "b", target "v3" "c", target "v2" "b",
          target "v3" "d"], false, none, none⟩], .join 0, .begin 0,
        .look 0 0, .look 0 3, .look 0 2, .look 0 1, .advance 10000, .look 0 0, .close 0]
    ∃ c a us time, Reachable env policies w ∧ w.find? 0 = some (c, a) ∧
      c.stage = .ended us time ∧
      c.causes = [.readinessTimeout (target "v1" "a").gvk Policy.default.readinessTimeout,
        .probe (target "v2" "b").gvk (.discovery "example.com/v2" "refused"),
        .setup "c" (.registration "c" "full")] ∧
      let told t := Trace.story w.trace 0 (reference t)
      let causes := (distinctTargets c.targets).filterMap fun t => verdict (reference t) (told t)
      c.result? = some (if causes.isEmpty then .ok else .failed causes, time) ∧
        (distinctTargets c.targets).map reference = (c.targets.map reference).eraseDups ∧
        ∀ t ∈ distinctTargets c.targets,
          EndsAs env (context a 0 c).scope a.policy.readinessTimeout t w.trace (w.WasCancelled 0)
            (told t) (verdict (reference t) (told t)) := by
  intro target env policies w
  have hreach : Reachable env policies w := ⟨_, rfl⟩
  obtain ⟨⟨c, a⟩, hf⟩ := Option.isSome_iff_exists.1 (by decide +kernel : (w.find? 0).isSome)
  have hended : (w.find? 0).any fun p => p.1.isOver ∧ p.1.attempts.length = 4 := by decide +kernel
  have hcauses : (w.find? 0).map (·.1.causes) = some
      [.readinessTimeout (target "v1" "a").gvk Policy.default.readinessTimeout,
        .probe (target "v2" "b").gvk (.discovery "example.com/v2" "refused"),
        .setup "c" (.registration "c" "full")] := by decide +kernel
  rw [hf] at hended hcauses
  obtain ⟨us, time, hs⟩ : ∃ us time, c.stage = .ended us time := by
    cases hs : c.stage <;> simp_all [Call.isOver, Call.attempts]
  exact ⟨c, a, us, time, hreach, hf, hs, Option.some.inj hcauses, causes_attributed hreach hf hs⟩

end World

end Lifecycle
