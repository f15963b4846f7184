import Lifecycle.Proofs.Names
import Lifecycle.Proofs.Progress
import Lifecycle.Proofs.Release
import Lifecycle.Proofs.Turns

/-!
# A cancellation comes before everything else

From the instant at which a call is cancelled nothing more is done to bring a
controller into being for it, whatever its attempts are doing then:
`cancellation_takes_precedence`. What was done before is kept, a known target is
still updated, and every other attempt ends with the cancellation as its cause,
even if its registration goes well.

The case that matters is a registration that does not watch its call. It runs on,
and only when it has come to its end is the call asked again; `poll_of_cancelled`
lists this among the few things a look can make of an attempt. That a cancellation
is not taken back in the meantime is `cancelled_step`: only a new round forgets
one, and there is no new round before the call is over.
-/

namespace Lifecycle

variable {C T : Type}

/-- Whether a happening is a part of bringing a new controller into being: of a
check, of making a controller, or of installing it. -/
def Happening.isWork : Happening C T → Bool
  | .probed .. | .answered .. | .created .. | .registering .. | .installed .. => true
  | _ => false

/-- Whether an entry belongs to a call. -/
def Entry.isOf (i : Nat) (e : Entry C T) : Bool := e.scope.any (·.call = i)

/-- Nothing that was noted between two sites is about bringing a controller into
being, and a cancellation was not taken back. -/
structure Site.Calm (s s' : Site C T) : Prop where
  trace : ∃ new, s'.trace = new ++ s.trace ∧ ∀ e ∈ new, e.what.isWork = false
  fired : ∀ i, s.fired.hits i → s'.fired.hits i

namespace Site.Calm

variable {s s' s'' : Site C T}

theorem of_eq (ht : s'.trace = s.trace) (hf : s'.fired = s.fired) : s.Calm s' :=
  ⟨⟨[], ht, by simp⟩, fun _ h => hf ▸ h⟩

theorem note {x : Context C} {h : Happening C T} (hh : h.isWork = false)
    (ht : s'.trace = ⟨s.now, some x.scope, h⟩ :: s.trace) (hf : s'.fired = s.fired) : s.Calm s' :=
  ⟨⟨[_], ht, by simpa using hh⟩, fun _ h => hf ▸ h⟩

theorem trans (h : s.Calm s') (h' : s'.Calm s'') : s.Calm s'' := by
  obtain ⟨new, ht, hnew⟩ := h.trace
  obtain ⟨new', ht', hnew'⟩ := h'.trace
  exact ⟨⟨new' ++ new, by rw [ht', ht, List.append_assoc], List.forall_mem_append.2 ⟨hnew', hnew⟩⟩,
    fun i => h'.fired i ∘ h.fired i⟩

theorem cancelled (h : s.Calm s') {x : Context C} (hc : s.cancelled x = true) :
    s'.cancelled x = true := by
  rcases Bool.or_eq_true_iff.1 hc with hc | hc
  · exact Bool.or_eq_true_iff.2 (.inl hc)
  · exact Bool.or_eq_true_iff.2 (.inr (h.fired _ hc))

theorem release (x : Context C) (r : ResourceReference) (c : String) (free : Bool) :
    s.Calm (Attempt.release x r c free s) := by
  rcases Attempt.release_cases x r c free s with h | ⟨g, -, h⟩ <;> rw [h]
  · exact of_eq rfl rfl
  · have habort : s.Calm ({ s with registry := g }.note x (.loop (.aborted c) (some r))) :=
      note rfl rfl rfl
    exact habort.trans (note rfl rfl rfl)

end Site.Calm

/-- A registration brings nothing but loops into being. -/
theorem Registration.run_calm {x : Context C} {c : String} {r : ResourceReference}
    (rest : Registration) : ∀ (since : Option Nat) (s : Site C T),
      s.Calm (rest.run x c r since s).2 := by
  induction rest with
  | finish fault => exact fun _ _ => .of_eq rfl rfl
  | spawn name body next ih =>
      intro since s
      rw [run]
      split
      · exact .of_eq rfl rfl
      · refine .trans ?_ (ih none _)
        exact .note rfl rfl rfl
  | spawnOr name body next refused ih ihr =>
      intro since s
      rw [run]
      split
      · exact ihr none s
      · refine .trans ?_ (ih none _)
        exact .note rfl rfl rfl
  | cancel whole next ih =>
      intro since s
      rw [run]
      refine .trans ?_ (ih none _)
      exact ⟨⟨[], rfl, by simp⟩, fun i h => by simp [h]⟩
  | synced next ih =>
      intro since s
      rw [run]
      refine .trans ?_ (ih none _)
      exact .note rfl rfl rfl
  | sleep millis interrupted next ih =>
      intro since s
      rw [run.eq_def]
      dsimp only
      split
      · exact .of_eq rfl rfl
      · cases millis with
        | none => exact .of_eq rfl rfl
        | some d =>
            dsimp only
            split
            · exact ih none s
            · exact .of_eq rfl rfl

variable [Targeted T]

namespace Attempt

/-- What a look makes of an attempt whose call is cancelled. -/
inductive Stopped (x : Context C) (a : Attempt T) (s : Site C T) :
    Attempt T × Site C T → Prop where
  | done (hd : a.isDone) : Stopped x a s (a, s)
  | update {h} (hf : a.stage = .fresh) (hg : s.store.get? a.reference = some h) :
      Stopped x a s (a.finish none s.now, { s with store := s.store.activate a.reference }.note x
        (.updated a.reference h.controller x.scope.config))
  | giveUp (hw : (∃ w, a.stage = .waiting w) ∨
      a.stage = .fresh ∧ s.store.get? a.reference = none) :
      Stopped x a s (a.finish (some (.cancelled a.reference.gvk)) s.now, s)
  | wait {c free rest since rest' since' s'} (hr : a.stage = .registering c free rest since)
      (hrun : rest.run x c a.reference (some since) s = (.pending rest' since', s')) :
      Stopped x a s ({ a with stage := .registering c free rest' since' }, s')
  | revoke {c free rest since fault s' time} (hr : a.stage = .registering c free rest since)
      (hrun : rest.run x c a.reference (some since) s = (.ended fault, s')) :
      Stopped x a s (a.finish (some (.cancelled a.reference.gvk)) time,
        release x a.reference c free (s'.note x (.returned c a.reference fault true)))

theorem awaitSchema_of_cancelled (env : Collaborators C T) {x : Context C} {a : Attempt T}
    {s : Site C T} (w : Wait Fault) (hc : s.cancelled x = true) :
    awaitSchema env x a w s = (a.finish (some (.cancelled a.reference.gvk)) s.now, s) := by
  have hnone : w.findingAt? true s.now = none := by
    unfold Wait.findingAt?
    split <;> simp
  rw [awaitSchema, hc, Wait.turn_of_cancelled, hnone]
  rfl

theorem poll_of_cancelled (env : Collaborators C T) {x : Context C} {a : Attempt T} {s : Site C T}
    (hc : s.cancelled x = true) : Stopped x a s (poll env x a s) := by
  rw [poll]
  cases hs : a.stage with
  | done cause time => exact .done (by simp [isDone, hs])
  | waiting w =>
      dsimp only
      rw [awaitSchema_of_cancelled env w hc]
      exact .giveUp (.inl ⟨w, hs⟩)
  | fresh =>
      dsimp only
      split
      · next h hg => exact .update hs hg
      · next hg =>
          rw [awaitSchema_of_cancelled env _ hc]
          exact .giveUp (.inr ⟨hs, hg⟩)
  | registering c free rest since =>
      dsimp only
      rw [register]
      cases hrun : rest.run x c a.reference (some since) s with
      | mk p s' =>
          cases p with
          | pending rest' since' => exact .wait hs hrun
          | ended fault =>
              have hcalm := Registration.run_calm (x := x) (c := c) (r := a.reference) rest
                (some since) s
              rw [hrun] at hcalm
              have hc' := hcalm.cancelled hc
              simp only [settle, hc', or_true, if_true]
              exact .revoke hs hrun

theorem Stopped.calm {x : Context C} {a : Attempt T} {s : Site C T} {p : Attempt T × Site C T}
    (h : Stopped x a s p) : s.Calm p.2 := by
  cases h with
  | done | giveUp => exact .of_eq rfl rfl
  | update => exact .note rfl rfl rfl
  | @wait c _ rest since _ _ _ _ hrun =>
      have hcalm := Registration.run_calm (x := x) (c := c) (r := a.reference) rest (some since) s
      rw [hrun] at hcalm
      exact hcalm
  | @revoke c free rest since fault _ _ _ hrun =>
      have hcalm := Registration.run_calm (x := x) (c := c) (r := a.reference) rest (some since) s
      rw [hrun] at hcalm
      refine (hcalm.trans ?_).trans (.release ..)
      exact .note rfl rfl rfl

theorem look_calm (env : Collaborators C T) {x : Context C} {a : Attempt T} {s : Site C T}
    (hc : s.cancelled x = true) : s.Calm (look env x a s).2 := by
  have h := (poll_of_cancelled env (a := a) hc).calm
  obtain ⟨_, _, _, hlook⟩ := look_eq env x a s
  rw [hlook]
  exact ⟨h.trace, h.fired⟩

theorem Step.fired {env : Collaborators C T} {x : Context C} {p q : Attempt T × Site C T}
    (h : Step env x p q) {i : Nat} (hf : p.2.fired.hits i) : q.2.fired.hits i := by
  cases h with
  | probe =>
      show Fired.hits (if _ then _ else _) i
      split
      · rfl
      · exact hf
  | create _ _ _ _ _ _ hs =>
      subst hs
      exact hf
  | register _ hs =>
      cases hs with
      | cancel => simp [hf]
      | _ => exact hf
  | refuse | revoke =>
      dsimp only [Site.note]
      rw [release_fired]
      exact hf
  | _ => exact hf

theorem Steps.noted {env : Collaborators C T} {x : Context C} {p q : Attempt T × Site C T}
    (h : Steps env x p q) : p.2.Noted x q.2 := by
  induction h with
  | refl => exact .of_eq rfl rfl
  | tail _ hs ih => exact ih.trans hs.noted

/-- Whether a registration is at a sleep that neither time nor a cancellation ends. -/
def Hangs (a : Attempt T) : Prop :=
  ∃ c free next since, a.stage = .registering c free (.sleep none none next) since

end Attempt

namespace World

/-! ## A cancelled call -/

/-- A call that has been made is cancelled, unless it is over. -/
structure Cancelled (w : World C T) (i : Nat) : Prop where
  made : ∃ c, w.calls[i]? = some c
  cancelled : ∀ c, w.calls[i]? = some c → c.isOver = false → w.isCancelled i

omit [Targeted T] in
/-- A look at an attempt of a cancelled call sees that it is cancelled. -/
theorem Cancelled.site_cancelled {w : World C T} {i : Nat} (hi : w.Cancelled i) {c : Call C T}
    {a : Activator} (hf : w.find? i = some (c, a)) {as : List (Attempt T)}
    (hs : c.stage = .working as) : (w.site a).cancelled (context a i c) := by
  rw [← isCancelled_eq hf]
  exact hi.cancelled c (find?_eq_some.1 hf).1 (by simp [Call.isOver, hs])

omit [Targeted T] in
theorem cancelled_modify {w w' : World C T} {i j : Nat} {f : Call C T → Call C T}
    (hc : w'.calls = w.calls.modify j f) (hf : ∀ c, c.cancelled → (f c).cancelled)
    (hi : w.calls[i]?.any (·.cancelled)) : w'.calls[i]?.any (·.cancelled) := by
  obtain ⟨c, hci, hcan⟩ := (Option.any_eq_true ..).1 hi
  refine (Option.any_eq_true ..).2 ⟨if j = i then f c else c, ?_, ?_⟩
  · rw [hc, List.getElem?_modify, hci]
    split <;> rfl
  · split
    · exact hf c hcan
    · exact hcan

/-- Only a new round takes a cancellation back. -/
theorem Step.isCancelled_or {env : Collaborators C T} {m : Move C T} {w w' : World C T}
    (h : Step env m w w') {i : Nat} (hi : w.isCancelled i) :
    w'.isCancelled i ∨ w.isQuiet ∧ ∃ rs, m = .submit rs := by
  have hor : ∀ {v : World C T}, (w.fired.hits i → v.fired.hits i) →
      (w.calls[i]?.any (·.cancelled) → v.calls[i]?.any (·.cancelled)) → v.isCancelled i := by
    intro v hf hc
    rcases Bool.or_eq_true_iff.1 hi with h | h
    · exact Bool.or_eq_true_iff.2 (.inl (hf h))
    · exact Bool.or_eq_true_iff.2 (.inr (hc h))
  have hback := h.background
  have hfired := h.background_fired
  cases h with
  | submit hq => exact .inr ⟨hq, _, rfl⟩
  | join | drop => exact .inl (hor id (cancelled_modify rfl fun _ h => h))
  | begin =>
      refine .inl (hor (fun h => ?_) (cancelled_modify rfl fun _ h => h))
      rw [begun, beginWork_eq]
      exact h
  | look _ _ _ hp => exact .inl (hor hp.fired (cancelled_modify rfl fun _ h => h))
  | close =>
      refine .inl (hor (fun h => ?_) (cancelled_modify (closed_calls ..) fun _ h => h))
      unfold closed
      dsimp only
      split <;> exact h
  | cancel =>
      exact .inl (hor id (cancelled_modify (f := fun c => { c with cancelled := true }) rfl
        fun _ _ => rfl))
  | _ => exact .inl (hor (fun h => by rwa [hfired rfl]) fun h => by rwa [(hback rfl).1])

/-- As long as a call is not over there is no new round. -/
theorem Step.isCancelled {env : Collaborators C T} {m : Move C T} {w w' : World C T}
    (h : Step env m w w') {i : Nat} (hi : w.isCancelled i) (hq : w.isQuiet = false) :
    w'.isCancelled i :=
  (h.isCancelled_or hi).resolve_right fun hq' => by simp [hq] at hq'

theorem cancelled_step {env : Collaborators C T} {m : Move C T} {w w' : World C T}
    (h : Step env m w w') {i : Nat} (hi : w.Cancelled i) : w'.Cancelled i := by
  obtain ⟨c, hc⟩ := hi.made
  obtain ⟨c', hc', hl⟩ := h.later hc
  refine ⟨⟨c', hc'⟩, fun d hd ho => ?_⟩
  rw [hc'] at hd
  cases hd
  have hover : c.isOver = false := by
    cases hco : c.isOver with
    | false => rfl
    | true =>
        rw [Call.isOver, hl.ended hco, ← Call.isOver, hco] at ho
        cases ho
  refine h.isCancelled (hi.cancelled c hc hover) ?_
  cases hq : w.isQuiet with
  | false => rfl
  | true =>
      have := List.all_eq_true.1 hq c (List.mem_of_getElem? hc)
      rw [hover] at this
      cases this

/-- No step but those of attempts is about bringing a controller into being. -/
theorem Step.calm {env : Collaborators C T} {m : Move C T} {w w' : World C T}
    (h : Step env m w w') (hm : ∀ i j, m ≠ .look i j) :
    ∃ new, w'.trace = new ++ w.trace ∧ ∀ e ∈ new, e.what.isWork = false := by
  have hback := h.background
  cases h with
  | submit | join | cancel | drop => exact ⟨[], rfl, by simp⟩
  | look => exact absurd rfl (hm _ _)
  | begin =>
      rw [begun, beginWork_eq]
      refine ⟨_, (List.append_assoc ..).symm, fun e he => ?_⟩
      rcases List.mem_append.1 he with he | he <;>
      · obtain ⟨_, -, rfl⟩ := List.mem_map.1 (List.mem_reverse.1 he)
        rfl
  | close =>
      unfold closed
      dsimp only
      split
      · exact ⟨[], rfl, by simp⟩
      · exact ⟨[_], rfl, by simp [Happening.isWork]⟩
  | _ =>
      obtain ⟨-, -, ns, ht⟩ := hback rfl
      refine ⟨_, ht, fun e he => ?_⟩
      obtain ⟨n, -, rfl⟩ := List.mem_map.1 he
      rfl

/-- No move brings a controller into being for a call that is cancelled. -/
theorem calm_move (env : Collaborators C T) {w : World C T} {i : Nat} (hi : w.Cancelled i)
    (m : Move C T) : ∃ new, (w.move env m).trace = new ++ w.trace ∧
      ∀ e ∈ new, e.isOf i → e.what.isWork = false := by
  by_cases hm : ∃ l j, m = .look l j
  · obtain ⟨l, j, rfl⟩ := hm
    rcases look_cases env w l j with h | ⟨c, a, as, t, hf, hs, ht, h⟩
    · exact ⟨[], by rw [move, h]; rfl, by simp⟩
    · rw [move, h]
      by_cases hl : l = i
      · subst hl
        obtain ⟨new, htrace, hnew⟩ :=
          (Attempt.look_calm env (a := t) (hi.site_cancelled hf hs)).trace
        exact ⟨new, htrace, fun e he _ => hnew e he⟩
      · obtain ⟨new, htrace, hscope, -⟩ := Attempt.Steps.noted
          (Attempt.look_steps env (context a l c) t (w.site a))
        refine ⟨new, htrace, fun e he hof => ?_⟩
        rw [Entry.isOf, hscope e he] at hof
        exact absurd (of_decide_eq_true hof) hl
  · rcases move_cases env w (fun l j h => hm ⟨l, j, h⟩) with h | h
    · exact ⟨[], by rw [h]; rfl, by simp⟩
    · obtain ⟨new, htrace, hnew⟩ := h.calm fun l j h => hm ⟨l, j, h⟩
      exact ⟨new, htrace, fun e he _ => hnew e he⟩

theorem cancelled_play {env : Collaborators C T} {w : World C T} {i : Nat} (hi : w.Cancelled i)
    (ms : List (Move C T)) : (w.play env ms).Cancelled i :=
  invariant_of_play (P := fun w => w.Cancelled i) (A := fun _ => True)
    (fun _ h hi => cancelled_step h hi) (fun _ _ => trivial) hi

theorem calm_play (env : Collaborators C T) {w : World C T} {i : Nat} (hi : w.Cancelled i)
    (ms : List (Move C T)) : ∃ new, (w.play env ms).trace = new ++ w.trace ∧
      ∀ e ∈ new, e.isOf i → e.what.isWork = false := by
  induction ms generalizing w with
  | nil => exact ⟨[], rfl, by simp⟩
  | cons m ms ih =>
      obtain ⟨new, ht, hnew⟩ := calm_move env hi m
      have hi' : (w.move env m).Cancelled i :=
        invariant_of_move (P := fun w => w.Cancelled i) (fun h hi => cancelled_step h hi) hi
      obtain ⟨new', ht', hnew'⟩ := ih hi'
      refine ⟨new' ++ new, ?_, List.forall_mem_append.2 ⟨hnew', hnew⟩⟩
      rw [List.append_assoc, ← ht, ← ht']
      rfl

/-! ## How its attempts end -/

/-- Other moves leave the attempts of a call alone, or do away with all of them. -/
theorem Step.attempt? {env : Collaborators C T} {m : Move C T} {w w' : World C T}
    (h : Step env m w w') {i j : Nat} (hb : w.hasBegun i) (hm : ∀ j, m ≠ .look i j)
    {t : Attempt T} (ht : w'.attempt? i j = some t) : w.attempt? i j = some t := by
  obtain ⟨c, hc, hbc⟩ := (Option.any_eq_true ..).1 hb
  have hback := h.background
  rw [attempt?_eq] at ht ⊢
  have hmodify : ∀ {l : Nat} {f : Call C T → Call C T}, w'.calls = w.calls.modify l f →
      (l = i → (f c).attempts[j]? = some t → c.attempts[j]? = some t) →
      (w.calls[i]?.bind fun c => c.attempts[j]?) = some t := by
    intro l f hf hl
    rw [hf, List.getElem?_modify, hc] at ht
    rw [hc]
    by_cases hli : l = i
    · exact hl hli (by simpa [hli] using ht)
    · simpa [hli] using ht
  cases h with
  | submit =>
      have ht : (w.calls ++ _)[i]?.bind _ = some t := ht
      rwa [List.getElem?_append_left (List.getElem?_eq_some_iff.1 hc).1] at ht
  | join hf hs | begin hf hs =>
      refine hmodify rfl fun hl => ?_
      subst hl
      rw [(find?_eq_some.1 hf).1] at hc
      cases hc
      simp [Call.hasBegun, hs] at hbc
  | @look _ l j' => exact hmodify rfl fun hl => absurd (by rw [hl]) (hm j')
  | @close _ l d a as hf hs =>
      refine hmodify (closed_calls ..) fun hl hd => ?_
      subst hl
      rw [(find?_eq_some.1 hf).1] at hc
      cases hc
      simpa [Call.attempts, hs] using hd
  | cancel => exact hmodify (f := fun c => { c with cancelled := true }) rfl fun _ h => h
  | drop => exact hmodify rfl fun _ h => by simp [Call.attempts] at h
  | _ =>
      obtain ⟨hcs, -, -⟩ := hback rfl
      rwa [hcs] at ht

/-- A call at work keeps to what it found, whatever that was. -/
theorem Reachable.serving {env : Collaborators C T} {as : List (String × Policy)} {w : World C T}
    (hw : Reachable env as w) {k i : Nat} {ts : List (Attempt T)}
    (hi : w.atWork k = some (i, ts)) : ∃ found targets, w.Serving found i k targets := by
  obtain ⟨ms, rfl⟩ := hw
  refine invariant_of_orderly (P := fun w => ∀ i ts, w.atWork k = some (i, ts) →
    ∃ found targets, w.Serving found i k targets) (A := fun _ => True)
    (fun {m w w'} _ h hw hP i ts hi => ?_) (fun _ _ => trivial) (orderly_ofActivators as) ?_ i ts hi
  · rcases h.atWork hw hi with ⟨bs, hbs⟩ | ⟨rfl, hon⟩
    · obtain ⟨found, targets, hs⟩ := hP i bs hbs
      exact ⟨found, targets, serving_step h hs⟩
    · cases h with
      | @begin _ _ c a hf hs hh =>
          obtain ⟨c', hc', hk⟩ := isOn_iff.1 hon
          rw [(find?_eq_some.1 hf).1] at hc'
          cases hc'
          subst hk
          refine ⟨a.store.get?, c.targets, ?_⟩
          rw [← begin_eq_begun hf hs hh]
          exact serving_begin env hw hf hs hh
  · intro i ts hi
    have hcall : ((ofActivators as : World C T).standing k (.plain "")).call = some i := by
      rw [standing, hi]
      rfl
    rw [standing_ofActivators] at hcall
    cases hcall

end World

/-- What can become of an attempt once its call is cancelled: it stays as it is if it
is done, a known target is updated, and everything else is given up. -/
def Attempt.Yields (i : Nat) (found : Option Holding) (acts : List (Nat × Act))
    (a b : Attempt T) : Prop :=
  b.target = a.target ∧
  if a.isDone then b.stage = a.stage
  else
    match found with
    | some h => b.stage = .fresh ∨
      (∃ time, b.stage = .done none time) ∧ (i, .updated h.controller) ∈ acts
    | none => b.isDone = false ∨ ∃ time, b.stage = .done (some (.cancelled a.reference.gvk)) time

namespace Attempt.Yields

variable {i : Nat} {found : Option Holding} {acts acts' : List (Nat × Act)} {a b : Attempt T}

theorem refl (h : b.stage = .fresh ∨ b.isDone ∨ found = none) : b.Yields i found acts b := by
  refine ⟨rfl, ?_⟩
  split
  · rfl
  · next hd =>
      rcases h with h | h | h
      · cases found with
        | some h₀ => exact .inl h
        | none => exact .inl (by simpa using hd)
      · exact absurd h hd
      · subst h
        exact .inl (by simpa using hd)

theorem mono (h : a.Yields i found acts b) (hacts : ∀ p ∈ acts, p ∈ acts') :
    a.Yields i found acts' b := by
  obtain ⟨ht, h⟩ := h
  refine ⟨ht, ?_⟩
  split at h
  · next hd =>
      rw [if_pos hd]
      exact h
  · next hd =>
      rw [if_neg hd]
      cases found with
      | none => exact h
      | some h₀ => exact h.imp id fun h => ⟨h.1, hacts _ h.2⟩

theorem reference_eq (h : a.Yields i found acts b) : b.reference = a.reference :=
  congrArg Targeted.reference h.1

/-- What a look makes of what has become of an attempt. -/
theorem look (env : Collaborators C T) {x : Context C} {s : Site C T}
    (h : a.Yields x.scope.call found (Trace.acts s.trace x.scope.activator a.reference) b)
    (hc : s.cancelled x = true) (hkeeps : b.Keeps found (s.store.get? b.reference)) :
    a.Yields x.scope.call found
      (Trace.acts (b.look env x s).2.trace x.scope.activator a.reference) (b.look env x s).1 := by
  obtain ⟨_, _, _, hlook⟩ := look_eq env x b s
  rw [hlook]
  have href := h.reference_eq
  obtain ⟨ht, h⟩ := h
  -- An attempt that is looked at and is not done was not done before.
  have hopen : ∀ {st : Stage}, b.stage = st → ({ b with stage := st } : Attempt T).isDone = false →
      ¬ a.isDone := by
    intro st hst hb ha
    rw [if_pos ha] at h
    rw [isDone, ← hst, h, ← isDone, ha] at hb
    cases hb
  have hstopped := poll_of_cancelled env (a := b) hc
  generalize poll env x b s = p at hstopped ⊢
  cases hstopped with
  | done hd => exact ⟨ht, h⟩
  | @update h' hf hg =>
      refine ⟨ht, ?_⟩
      rw [if_neg (hopen hf rfl)]
      simp only [Keeps, hf] at hkeeps
      rw [← hkeeps, hg]
      refine .inr ⟨⟨_, rfl⟩, ?_⟩
      have hacts : Trace.acts ({ s with store := s.store.activate b.reference }.note x
          (.updated b.reference h'.controller x.scope.config)).trace x.scope.activator a.reference =
          Trace.acts s.trace x.scope.activator a.reference ++
            [(x.scope.call, .updated h'.controller)] :=
        acts_note_self (s := { s with store := _ }) rfl (by rw [← href]; rfl)
      dsimp only
      rw [hacts]
      simp
  | giveUp hw =>
      refine ⟨ht, ?_⟩
      have hna : ¬ a.isDone := by
        rcases hw with ⟨w, hw⟩ | ⟨hf, -⟩
        · exact hopen hw rfl
        · exact hopen hf rfl
      rw [if_neg hna] at h ⊢
      cases found with
      | none => exact .inr ⟨s.now, by rw [← href]; rfl⟩
      | some h₀ =>
          exfalso
          rcases hw with ⟨w, hw⟩ | ⟨hf, hn⟩
          · simp [Keeps, hw] at hkeeps
          · simp only [Keeps, hf, hn] at hkeeps
            cases hkeeps
  | wait hr =>
      refine ⟨ht, ?_⟩
      rw [if_neg (hopen hr rfl)]
      cases found with
      | none => exact .inl rfl
      | some h₀ => simp [Keeps, hr] at hkeeps
  | revoke hr =>
      refine ⟨ht, ?_⟩
      rw [if_neg (hopen hr rfl)]
      cases found with
      | none => exact .inr ⟨_, by rw [← href]; rfl⟩
      | some h₀ => simp [Keeps, hr] at hkeeps

end Attempt.Yields

namespace World

/-- A cancelled call, and what has become of its attempts since. -/
structure Stopping (found : ResourceReference → Option Holding) (i k : Nat) (targets : List T)
    (as : List (Attempt T)) (w : World C T) : Prop where
  serving : w.Serving found i k targets
  cancelled : w.Cancelled i
  yields : ∀ (j : Nat) a b, as[j]? = some a → w.attempt? i j = some b →
    a.Yields i (found a.reference) (Trace.acts w.trace k a.reference) b

/-- An attempt of a call at work keeps to what the call found. -/
theorem Serving.attempt_keeps {found : ResourceReference → Option Holding} {i k : Nat}
    {targets : List T} {w : World C T} (hw : w.Serving found i k targets) {c : Call C T}
    {a : Activator} {as : List (Attempt T)} (hf : w.find? i = some (c, a))
    (hs : c.stage = .working as) {t : Attempt T} (ht : t ∈ as) :
    t.Keeps (found t.reference) (a.store.get? t.reference) := by
  obtain ⟨c', hc', hk, -⟩ := hw.call
  rw [(find?_eq_some.1 hf).1] at hc'
  cases hc'
  have hstanding := standing_of_working hw.orderly hf hs ht
  rw [hk] at hstanding
  have h := hw.keeps t.reference (by rw [hstanding])
  rw [hstanding] at h
  exact h.2

theorem stopping_move (env : Collaborators C T) {found : ResourceReference → Option Holding}
    {i k : Nat} {targets : List T} {as : List (Attempt T)} {w : World C T}
    (hw : w.Stopping found i k targets as) (m : Move C T) :
    (w.move env m).Stopping found i k targets as := by
  refine ⟨invariant_of_move (P := fun w => w.Serving found i k targets)
    (fun h hs => serving_step h hs) hw.serving, invariant_of_move (P := fun w => w.Cancelled i)
    (fun h hi => cancelled_step h hi) hw.cancelled, fun j a b ha hb => ?_⟩
  have hacts : ∀ p ∈ Trace.acts w.trace k a.reference,
      p ∈ Trace.acts (w.move env m).trace k a.reference :=
    fun p hp => acts_subset (trace_suffix_move env w m) hp
  obtain ⟨c, hc, hk, -, hbegun⟩ := hw.serving.call
  by_cases hm : ∃ l, m = .look i l
  · obtain ⟨l, rfl⟩ := hm
    rcases look_cases env w i l with h | ⟨c', d, bs, t, hf, hs, ht, h⟩
    · rw [move, h] at hb
      exact (hw.yields j a b ha hb).mono hacts
    · rw [(find?_eq_some.1 hf).1] at hc
      cases hc
      have hat := attempt?_of_working hf hs
      rw [move, h] at hb hacts ⊢
      rw [attempt?_of_working (find?_put hf) rfl] at hb
      by_cases hlj : l = j
      · subst hlj
        have hlt := (List.getElem?_eq_some_iff.1 ht).1
        rw [List.getElem?_set_self hlt] at hb
        cases hb
        have hcan := hw.cancelled.site_cancelled hf hs
        have hy := hw.yields l a t ha (by rw [hat, ht])
        have hkeeps : t.Keeps (found a.reference) (d.store.get? t.reference) := by
          rw [← hy.reference_eq]
          exact hw.serving.attempt_keeps hf hs (List.mem_of_getElem? ht)
        subst hk
        exact Attempt.Yields.look (x := context d i c) (s := w.site d) env hy hcan hkeeps
      · rw [List.getElem?_set_ne hlj, ← hat] at hb
        exact (hw.yields j a b ha hb).mono hacts
  · have hold : w.attempt? i j = some b := by
      have h : (w.move env m).hasBegun i ∧
          ((w.move env m).attempt? i j = some b → w.attempt? i j = some b) :=
        invariant_of_move
          (P := fun v => v.hasBegun i ∧ (v.attempt? i j = some b → w.attempt? i j = some b))
          (fun h hv => ⟨h.hasBegun hv.1,
            fun hb => hv.2 (h.attempt? hv.1 (fun l hl => hm ⟨l, hl⟩) hb)⟩)
          ⟨(Option.any_eq_true ..).2 ⟨c, hc, hbegun⟩, id⟩
      exact h.2 hb
    exact (hw.yields j a b ha hold).mono hacts

theorem stopping_play (env : Collaborators C T) {found : ResourceReference → Option Holding}
    {i k : Nat} {targets : List T} {as : List (Attempt T)} (ms : List (Move C T)) {w : World C T}
    (hw : w.Stopping found i k targets as) : (w.play env ms).Stopping found i k targets as := by
  induction ms generalizing w with
  | nil => exact hw
  | cons m ms ih => exact ih (stopping_move env hw m)

/-- What becomes of a call at work that is cancelled: of the attempts that are not
done, those for known targets go well and all others are given up; what was done
before stays, and what is no longer wanted is off. -/
structure Overruled (env : Collaborators C T) (w : World C T) (i : Nat) (c : Call C T)
    (as : List (Attempt T)) : Prop where
  unknown : ∀ (j : Nat) t, as[j]? = some t → t.isDone = false →
    w.holding? c.activator t.reference = none → ∀ ms t', (w.play env ms).attempt? i j = some t' →
      t'.isDone → t'.cause? = some (.cancelled t.reference.gvk)
  known : ∀ (j : Nat) t h, as[j]? = some t → t.isDone = false →
    w.holding? c.activator t.reference = some h →
      ∀ ms t', (w.play env ms).attempt? i j = some t' → t'.isDone → t'.cause? = none ∧
        (i, .updated h.controller) ∈ Trace.acts (w.play env ms).trace c.activator t.reference
  settled : ∀ (j : Nat) t, as[j]? = some t → t.isDone →
    ∀ ms t', (w.play env ms).attempt? i j = some t' → t'.stage = t.stage
  /-- As long as the call is at work, and when its last attempt has ended too. -/
  absent : ∀ (j : Nat) t, as[j]? = some t → t.isDone = false →
    w.holding? c.activator t.reference = none →
      ∀ ms ts, (w.play env ms).atWork c.activator = some (i, ts) →
        (w.play env ms).holding? c.activator t.reference = none
  active : ∀ (j : Nat) t, as[j]? = some t → t.isDone → t.cause? = none →
    ∀ ms ts, (w.play env ms).atWork c.activator = some (i, ts) →
      ∃ h, (w.play env ms).holding? c.activator t.reference = some h ∧ h.active
  retired : ∀ r, r ∉ c.targets.map reference →
    ∀ ms ts, (w.play env ms).atWork c.activator = some (i, ts) →
      ∀ h, (w.play env ms).holding? c.activator r = some h → h.active = false
  /-- Every attempt comes to its end, unless its registration never does. -/
  ends : ∀ (j : Nat) t, as[j]? = some t → ∀ ms : Nat → Move C T, w.Fair env i j ms →
    (∀ n t', (w.along env ms n).Has i j t' → ¬ t'.Hangs) →
      ∃ n t', (w.along env ms n).Has i j t' ∧ t'.isDone

/-- What a look makes of an attempt of a cancelled call: it ends, unless it registers
and does not watch its call. -/
theorem Has.stopped (env : Collaborators C T) {w : World C T} {i j : Nat} {t : Attempt T}
    (ht : w.Has i j t) (hi : w.Cancelled i) : ∃ t', (w.look env i j).Has i j t' ∧
      (t'.isDone ∨ ∃ c free rest since, t.stage = .registering c free rest since ∧
        ∀ millis fault next, rest ≠ .sleep millis (some fault) next) := by
  obtain ⟨c, a, as, hf, hs, hj⟩ := ht
  have hsite := hi.site_cancelled hf hs
  have hlook : (w.look env i j).Has i j (t.look env (context a i c) (w.site a)).1 := by
    rw [look_eq_put hf hs hj]
    exact ⟨_, _, _, find?_put hf, rfl, by simp [(List.getElem?_eq_some_iff.1 hj).1]⟩
  refine ⟨_, hlook, ?_⟩
  rw [Attempt.isDone_iff, Attempt.look_stage]
  have hstopped := Attempt.poll_of_cancelled env (a := t) hsite
  generalize t.poll env (context a i c) (w.site a) = p at hstopped
  cases hstopped with
  | done hd => exact .inl (Attempt.isDone_iff.1 hd)
  | update | giveUp | revoke => exact .inl ⟨_, _, rfl⟩
  | wait hr hrun =>
      refine .inr ⟨_, _, _, _, hr, ?_⟩
      rintro millis fault next rfl
      rw [Registration.run.eq_def] at hrun
      simp [hsite] at hrun

theorem ends_of_fair {env : Collaborators C T} {w : World C T} {i j : Nat} (hi : w.Cancelled i)
    {t : Attempt T} (ht : w.Has i j t) {ms : Nat → Move C T} (hfair : w.Fair env i j ms)
    (hhangs : ∀ n t', (w.along env ms n).Has i j t' → ¬ t'.Hangs) :
    ∃ n t', (w.along env ms n).Has i j t' ∧ t'.isDone := by
  have hcan : ∀ n, (w.along env ms n).Cancelled i := fun n => cancelled_play hi _
  have hnext : ∀ n u, (w.along env ms n).Has i j u → u.isDone = false →
      ∃ m u', (w.along env ms m).Has i j u' ∧
        (u'.isDone ∨ ∃ c free rest since, u.stage = .registering c free rest since ∧
          ∀ millis fault next, rest ≠ .sleep millis (some fault) next) := by
    intro n u hu hd
    obtain ⟨m, -, hlook, hm⟩ := hfair.next hu hd
    obtain ⟨u', hu', h⟩ := hm.stopped env (hcan m)
    refine ⟨m + 1, u', ?_, h⟩
    rw [along_succ, hlook]
    exact hu'
  have ht₀ : (w.along env ms 0).Has i j t := ht
  cases hd : t.isDone with
  | true => exact ⟨0, t, ht₀, hd⟩
  | false =>
      obtain ⟨m, u, hu, hdone | ⟨c, free, rest, since, hr, -⟩⟩ := hnext 0 t ht₀ hd
      · exact ⟨m, u, hu, hdone⟩
      · obtain ⟨l, -, v, hv, hdone | ⟨c', free', interrupted, next, since', hst⟩⟩ :=
          hfair.registration ht₀ hr
        · exact ⟨l, v, hv, hdone⟩
        · cases interrupted with
          | none => exact absurd ⟨c', free', next, since', hst⟩ (hhangs l v hv)
          | some fault =>
              obtain ⟨m, u, hu, hdone | ⟨_, _, _, _, hr', hne⟩⟩ :=
                hnext l v hv (by simp [Attempt.isDone, hst])
              · exact ⟨m, u, hu, hdone⟩
              · rw [hst] at hr'
                cases hr'
                exact (hne _ _ _ rfl).elim

end World

omit [Targeted T] in
/-- As long as an attempt is not done, its reference has what the call found. -/
theorem Attempt.Keeps.found_eq {a : Attempt T} {found now : Option Holding}
    (h : a.Keeps found now) (hd : a.isDone = false) : now = found := by
  cases hs : a.stage with
  | fresh => simpa [Keeps, hs] using h
  | waiting | registering =>
      simp only [Keeps, hs] at h
      rw [h.1, h.2]
  | done => simp [isDone, hs] at hd

namespace World

theorem Serving.attempt? {found : ResourceReference → Option Holding} {i k : Nat}
    {targets : List T} {w w' : World C T} (hw : w.Serving found i k targets)
    (hw' : w'.Serving found i k targets) {as ts : List (Attempt T)}
    (has : w.atWork k = some (i, as)) (hts : w'.atWork k = some (i, ts)) {j : Nat}
    {t : Attempt T} (ht : as[j]? = some t) : ∃ t', w'.attempt? i j = some t' ∧
      t'.reference = t.reference ∧ t'.Keeps (found t.reference) (w'.holding? k t.reference) := by
  obtain ⟨c, a, hf, hk, hs⟩ := (atWork_eq_some_iff hw.orderly).1 has
  obtain ⟨c', a', hf', hk', hs'⟩ := (atWork_eq_some_iff hw'.orderly).1 hts
  have hget := hw.place hf hs ht
  rw [← (hw'.covers hf' hs').2, List.getElem?_map] at hget
  obtain ⟨t', ht', htarget⟩ := Option.map_eq_some_iff.1 hget
  have href : t'.reference = t.reference := congrArg Targeted.reference htarget
  have hkeeps := hw'.attempt_keeps hf' hs' (List.mem_of_getElem? ht')
  rw [← holding?_eq (find?_eq_some.1 hf').2, hk', href] at hkeeps
  exact ⟨t', (attempt?_of_working hf' hs' j).trans ht', href, hkeeps⟩

/-- Every call at work that is cancelled is stopping from then on. -/
theorem Serving.stopping {found : ResourceReference → Option Holding} {i k : Nat}
    {targets : List T} {w : World C T} (hw : w.Serving found i k targets) (hi : w.Cancelled i)
    {c : Call C T} {a : Activator} {as : List (Attempt T)} (hf : w.find? i = some (c, a))
    (hs : c.stage = .working as) : w.Stopping found i k targets as := by
  refine ⟨hw, hi, fun j t b ht hb => ?_⟩
  rw [attempt?_of_working hf hs, ht] at hb
  cases hb
  refine .refl ?_
  have h := hw.attempt_keeps hf hs (List.mem_of_getElem? ht)
  cases hst : t.stage with
  | fresh => exact .inl rfl
  | done => exact .inr (.inl (by simp [Attempt.isDone, hst]))
  | waiting | registering =>
      simp only [Attempt.Keeps, hst] at h
      exact .inr (.inr h.1)

theorem overruled_of_cancelled {env : Collaborators C T} {policies : List (String × Policy)}
    {w : World C T} (hw : Reachable env policies w) {i : Nat} (hi : w.Cancelled i) {c : Call C T}
    (hc : w.calls[i]? = some c) {as : List (Attempt T)}
    (has : w.atWork c.activator = some (i, as)) : w.Overruled env i c as := by
  obtain ⟨found, targets, hserving⟩ := hw.serving has
  obtain ⟨c', hc', -, rfl, -⟩ := hserving.call
  rw [hc] at hc'
  cases hc'
  obtain ⟨c', a, hf, -, hs⟩ := (atWork_eq_some_iff hserving.orderly).1 has
  rw [(find?_eq_some.1 hf).1] at hc
  cases hc
  have hkeeps : ∀ t ∈ as, t.Keeps (found t.reference) (w.holding? c.activator t.reference) := by
    intro t ht
    rw [holding?_eq (find?_eq_some.1 hf).2]
    exact hserving.attempt_keeps hf hs ht
  have hstopping : ∀ ms, (w.play env ms).Stopping found i c.activator c.targets as :=
    fun ms => stopping_play env ms (hserving.stopping hi hf hs)
  have hfound : ∀ t ∈ as, t.isDone = false → w.holding? c.activator t.reference = found t.reference :=
    fun t ht hd => (hkeeps t ht).found_eq hd
  have hunknown : ∀ (j : Nat) t, as[j]? = some t → t.isDone = false →
      w.holding? c.activator t.reference = none → ∀ ms t', (w.play env ms).attempt? i j = some t' →
        t'.isDone → ∃ time, t'.stage = .done (some (.cancelled t.reference.gvk)) time := by
    intro j t ht hd hn ms t' ht' hd'
    have hy := ((hstopping ms).yields j t t' ht ht').2
    rw [hd, ← hfound t (List.mem_of_getElem? ht) hd, hn] at hy
    rcases hy with h | h
    · rw [hd'] at h
      cases h
    · exact h
  have hsettled : ∀ (j : Nat) t, as[j]? = some t → t.isDone →
      ∀ ms t', (w.play env ms).attempt? i j = some t' → t'.stage = t.stage := by
    intro j t ht hd ms t' ht'
    have hy := ((hstopping ms).yields j t t' ht ht').2
    rwa [if_pos hd] at hy
  refine ⟨fun j t ht hd hn ms t' ht' hd' => ?_, fun j t h ht hd hh ms t' ht' hd' => ?_, hsettled,
    fun j t ht hd hn ms ts hts => ?_, fun j t ht hd hcause ms ts hts => ?_,
    fun r hr ms ts hts h hh => ?_, fun j t ht ms hfair hhangs => ?_⟩
  · obtain ⟨time, hstage⟩ := hunknown j t ht hd hn ms t' ht' hd'
    simp [Attempt.cause?, hstage]
  · have hy := ((hstopping ms).yields j t t' ht ht').2
    rw [hd, ← hfound t (List.mem_of_getElem? ht) hd, hh] at hy
    rcases hy with hfresh | ⟨⟨time, hstage⟩, hacts⟩
    · rw [Attempt.isDone, hfresh] at hd'
      cases hd'
    · exact ⟨by simp [Attempt.cause?, hstage], hacts⟩
  · obtain ⟨t', ht', -, hk⟩ := hserving.attempt? (hstopping ms).serving has hts ht
    rw [← hfound t (List.mem_of_getElem? ht) hd, hn] at hk
    cases hd' : t'.isDone with
    | false => exact hk.found_eq hd'
    | true =>
        obtain ⟨time, hstage⟩ := hunknown j t ht hd hn ms t' ht' hd'
        simp only [Attempt.Keeps, hstage] at hk
        exact hk.2
  · obtain ⟨t', ht', -, hk⟩ := hserving.attempt? (hstopping ms).serving has hts ht
    obtain ⟨cause, time, hstage⟩ := Attempt.isDone_iff.1 hd
    have hcause : cause = none := by simpa [Attempt.cause?, hstage] using hcause
    subst hcause
    simp only [Attempt.Keeps, hsettled j t ht hd ms t' ht', hstage] at hk
    obtain ⟨h, hh, ha, -⟩ := hk
    exact ⟨h, hh, ha⟩
  · have hk := (hstopping ms).serving.keeps r (by rw [standing, hts]; rfl)
    rw [Standing.Keeps] at hk
    split at hk
    · have hholding : (w.play env ms).holding? c.activator r = (found r).map _ := hk.2
      rw [hh] at hholding
      obtain ⟨h₀, -, rfl⟩ := Option.map_eq_some_iff.1 hholding.symm
      rfl
    · exact absurd hk.1 hr
  · exact ends_of_fair hi ⟨c, a, as, hf, hs, ht⟩ hfair hhangs

theorem Overruled.of_call {env : Collaborators C T} {w : World C T} {i : Nat} {c c' : Call C T}
    {as : List (Attempt T)} (h : w.Overruled env i c as) (hk : c'.activator = c.activator)
    (ht : c'.targets = c.targets) : w.Overruled env i c' as := by
  constructor
  · rw [hk]; exact h.unknown
  · rw [hk]; exact h.known
  · exact h.settled
  · rw [hk]; exact h.absent
  · rw [hk]; exact h.active
  · rw [hk, ht]; exact h.retired
  · exact h.ends

/-! ## Whenever it comes -/

/-- Once a call is cancelled, nothing more is done to bring controllers into being for
it, and nothing ever was if it has not begun its work by then; from the instant of the
cancellation on, or from the beginning of its work if that is later, its attempts end
as those of a cancelled call do. -/
theorem cancellation_takes_precedence {env : Collaborators C T}
    {policies : List (String × Policy)} {w : World C T} (hw : Reachable env policies w) {i : Nat}
    {c : Call C T} (hc : w.calls[i]? = some c) (hi : w.isCancelled i) :
    (∀ ms, ∃ new, (w.play env ms).trace = new ++ w.trace ∧
      ∀ e ∈ new, e.isOf i → e.what.isWork = false) ∧
    (w.hasBegun i = false → ∀ ms, ∀ e ∈ (w.play env ms).trace, e.isOf i → e.what.isWork = false) ∧
    ∀ ms as, (w.play env ms).atWork c.activator = some (i, as) →
      (w.play env ms).Overruled env i c as := by
  have hcan : w.Cancelled i := ⟨⟨c, hc⟩, fun c' hc' _ => hi⟩
  refine ⟨calm_play env hcan, fun hb ms e he hof => ?_, fun ms as has => ?_⟩
  · obtain ⟨new, htrace, hnew⟩ := calm_play env hcan ms
    rw [htrace] at he
    rcases List.mem_append.1 he with he | he
    · exact hnew e he hof
    · obtain ⟨ns, rfl⟩ := hw
      have htaken : Taken c.activator _ ((ofActivators policies).play env ns) :=
        taken_play ns (orderly_ofActivators policies) (taken_ofActivators policies c.activator)
      have hnil := List.filter_eq_nil_iff.1 (htaken.ofCall_eq_nil hb) e (List.mem_reverse.2 he)
      exact absurd hof hnil
  · obtain ⟨c', hc', hl⟩ := later_play env hc ms
    have hreach : Reachable env policies (w.play env ms) := by
      obtain ⟨ns, rfl⟩ := hw
      exact ⟨ns ++ ms, (play_append ..).symm⟩
    have hover := overruled_of_cancelled hreach (cancelled_play hcan ms) hc' (by rwa [hl.activator])
    exact hover.of_call hl.activator.symm hl.targets.symm

/-- A call that is cancelled when one of its two targets is active and nothing has been
done for the other one. -/
theorem cancellation_takes_precedence_between :
    let policies := [("widgets", Policy.default)]
    let w := (ofActivators policies).play .prompt
      [.submit [.plain 0 "v1" ["a", "b"]], .join 0, .begin 0, .look 0 0, .cancel 0]
    ∃ c, Reachable .prompt policies w ∧ w.calls[0]? = some c ∧ w.isCancelled 0 ∧
      (∀ ms, ∃ new, (w.play .prompt ms).trace = new ++ w.trace ∧
        ∀ e ∈ new, e.isOf 0 → e.what.isWork = false) ∧
      ∀ ms as, (w.play .prompt ms).atWork c.activator = some (0, as) →
        (w.play .prompt ms).Overruled .prompt 0 c as := by
  intro policies w
  have hreach : Reachable .prompt policies w := ⟨_, rfl⟩
  have hi : w.isCancelled 0 := by decide +kernel
  obtain ⟨c, hc⟩ := Option.isSome_iff_exists.1 (by decide +kernel : w.calls[0]?.isSome)
  obtain ⟨hcalm, -, hover⟩ := cancellation_takes_precedence hreach hc hi
  exact ⟨c, hreach, hc, hi, hcalm, hover⟩

end World

end Lifecycle
