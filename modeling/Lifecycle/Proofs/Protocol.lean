import Lifecycle.Proofs.Standing

/-!
# The protocol of a controller

What an activator does about one reference, over all its calls, is a word of a
small language: failed attempts, one attempt that succeeds, and from then on
updates and deactivations of the one controller, no two deactivations in a row.
`lifecycle_protocol` says so for every run, and that the word alone tells what
the store has for the reference.

While an attempt is under way the word is not in the language, since the attempt
may still become either kind. The invariant `Standing.Follows` cuts the word in
two: a past that is in the language and agrees with the store, and the present,
which the stage of the attempt describes. What makes the cut possible is that an
attempt that waits or registers has nothing in the store, so nothing but its own
end can move the cut.
-/

namespace Lifecycle

variable {C T : Type}

/-! ## The language -/

section Language

variable (gv : GroupVersion)

/-- Checks that were answered with "not yet". -/
inductive Misses : List Act → Prop where
  | nil : Misses []
  | snoc {u} (h : Misses u) : Misses (u ++ [.probed gv, .answered gv .notYet])

/-- A check that finds its schema served, and a controller told to register. -/
def admitted (c : String) : List Act :=
  [.probed gv, .answered gv .ready, .created c, .registering c]

/-- Everything an attempt does that fails. Registrations are cut short only when
the call is given up by its caller. -/
inductive FailedAttempt (dropped : Prop) : List Act → Prop where
  /-- The time was up, or the call was cancelled, or no check could be started. -/
  | unanswered {u} (h : Misses gv u) : FailedAttempt dropped u
  | unfinished {u} (h : Misses gv u) : FailedAttempt dropped (u ++ [.probed gv])
  | refused {u f} (h : Misses gv u) :
      FailedAttempt dropped (u ++ [.probed gv, .answered gv (.failed f)])
  | rejected {u c fault cancelled} (h : Misses gv u) (hf : fault.isSome ∨ cancelled = true) :
      FailedAttempt dropped (u ++ admitted gv c ++ [.returned c fault cancelled])
  | forsaken {u c} (h : Misses gv u) (hd : dropped) : FailedAttempt dropped (u ++ admitted gv c)

/-- Any number of failed attempts. -/
inductive Failures (dropped : Prop) : List Act → Prop where
  | nil : Failures dropped []
  | snoc {u v} (hu : Failures dropped u) (hv : FailedAttempt gv dropped v) :
      Failures dropped (u ++ v)

/-- Updates and deactivations of a controller that is active at first; says
whether it is active at the end. -/
inductive Maintained (c : String) : Bool → List Act → Prop where
  | nil : Maintained c true []
  | update {b u} (h : Maintained c b u) : Maintained c true (u ++ [.updated c])
  | deactivate {u} (h : Maintained c true u) : Maintained c false (u ++ [.deactivated c])

/-- Words between attempts, with what the store has after them. -/
inductive Protocol (dropped : Prop) : Option Holding → List Act → Prop where
  | unknown {u} (h : Failures gv dropped u) : Protocol dropped none u
  | known {u v m h} (hu : Failures gv dropped u) (hv : Misses gv v)
      (hm : Maintained h.controller h.active m) :
      Protocol dropped (some h)
        (u ++ (v ++ admitted gv h.controller ++ [.returned h.controller none false]) ++ m)

end Language

variable {gv : GroupVersion} {d d' : Prop} {u v : List Act} {h? : Option Holding}

theorem FailedAttempt.mono (hd : d → d') (h : FailedAttempt gv d u) : FailedAttempt gv d' u := by
  cases h with
  | unanswered h => exact .unanswered h
  | unfinished h => exact .unfinished h
  | refused h => exact .refused h
  | rejected h hf => exact .rejected h hf
  | forsaken h hf => exact .forsaken h (hd hf)

theorem Failures.mono (hd : d → d') (h : Failures gv d u) : Failures gv d' u := by
  induction h with
  | nil => exact .nil
  | snoc _ hv ih => exact .snoc ih (hv.mono hd)

namespace Protocol

theorem mono (hd : d → d') (h : Protocol gv d h? u) : Protocol gv d' h? u := by
  cases h with
  | unknown h => exact .unknown (h.mono hd)
  | known hu hv hm => exact .known (hu.mono hd) hv hm

theorem nil : Protocol gv d none [] := .unknown .nil

theorem failures (h : Protocol gv d none u) : Failures gv d u := by
  cases h with
  | unknown h => exact h

theorem fail (h : Protocol gv d none u) (hv : FailedAttempt gv d v) :
    Protocol gv d none (u ++ v) := .unknown (.snoc h.failures hv)

theorem succeed {r : ResourceReference} {c : String} (h : Protocol gv d none u)
    (hv : Misses gv v) : Protocol gv d (some ⟨r, c, true⟩)
      (u ++ (v ++ admitted gv c ++ [.returned c none false])) := by
  have hk := Protocol.known (h := ⟨r, c, true⟩) h.failures hv .nil
  rwa [List.append_nil] at hk

theorem update {h : Holding} (hp : Protocol gv d (some h) u) :
    Protocol gv d (some { h with active := true }) (u ++ [.updated h.controller]) := by
  cases hp with
  | known hu hv hm =>
      rw [List.append_assoc]
      exact .known (h := { h with active := true }) hu hv hm.update

theorem deactivate {h : Holding} (hp : Protocol gv d (some h) u) (ha : h.active) :
    Protocol gv d (some { h with active := false }) (u ++ [.deactivated h.controller]) := by
  cases hp with
  | known hu hv hm =>
      rw [ha] at hm
      rw [List.append_assoc]
      exact .known (h := { h with active := false }) hu hv hm.deactivate

end Protocol

/-! ## Reading a word

What the store has for a reference can be read off its word: whether there was
a success, and whether the last act is a deactivation. -/

/-- Whether an act is about a controller that is there already. -/
def Act.isUpkeep : Act → Bool
  | .updated _ | .deactivated _ => true
  | _ => false

/-- Whether an act is the end of a registration after which the controller is kept. -/
def Act.isSuccess : Act → Bool
  | .returned _ none false => true
  | _ => false

theorem Misses.barren (h : Misses gv u) : ∀ a ∈ u, a.isUpkeep = false ∧ a.isSuccess = false := by
  induction h with
  | nil => simp
  | snoc _ ih =>
      intro a ha
      simp only [List.mem_append, List.mem_cons, List.not_mem_nil, or_false] at ha
      rcases ha with ha | rfl | rfl
      · exact ih a ha
      · exact ⟨rfl, rfl⟩
      · exact ⟨rfl, rfl⟩

theorem barren_admitted (gv : GroupVersion) (c : String) :
    ∀ a ∈ admitted gv c, a.isUpkeep = false ∧ a.isSuccess = false := by
  simp [admitted, Act.isUpkeep, Act.isSuccess]

theorem FailedAttempt.barren (h : FailedAttempt gv d u) :
    ∀ a ∈ u, a.isUpkeep = false ∧ a.isSuccess = false := by
  cases h with
  | unanswered h => exact h.barren
  | unfinished h | refused h =>
      rw [List.forall_mem_append]
      exact ⟨h.barren, by simp [Act.isUpkeep, Act.isSuccess]⟩
  | @rejected _ c fault cancelled h hf =>
      rw [List.forall_mem_append, List.forall_mem_append]
      refine ⟨⟨h.barren, barren_admitted gv c⟩, ?_⟩
      simp only [List.mem_singleton, forall_eq, Act.isUpkeep, true_and]
      cases fault with
      | some f => rfl
      | none =>
          rw [hf.resolve_left Bool.false_ne_true]
          rfl
  | forsaken h _ =>
      rw [List.forall_mem_append]
      exact ⟨h.barren, barren_admitted gv _⟩

theorem Failures.barren (h : Failures gv d u) :
    ∀ a ∈ u, a.isUpkeep = false ∧ a.isSuccess = false := by
  induction h with
  | nil => simp
  | snoc _ hv ih =>
      rw [List.forall_mem_append]
      exact ⟨ih, hv.barren⟩

/-- There is no controller exactly when no attempt has succeeded. -/
theorem Protocol.eq_none_iff (h : Protocol gv d h? u) :
    h? = none ↔ ∀ a ∈ u, a.isSuccess = false := by
  cases h with
  | unknown h => exact ⟨fun _ a ha => (h.barren a ha).2, fun _ => rfl⟩
  | @known _ _ _ h =>
      refine ⟨nofun, fun hn => ?_⟩
      have hs := hn (.returned h.controller none false) (by simp)
      cases hs

/-- A controller is inactive exactly when the last act is its deactivation. -/
theorem Protocol.inactive_iff (h : Protocol gv d h? u) :
    (∃ h, h? = some h ∧ h.active = false) ↔ ∃ c, u.getLast? = some (.deactivated c) := by
  cases h with
  | unknown h =>
      refine ⟨nofun, fun ⟨c, hc⟩ => ?_⟩
      have hu := (h.barren _ (List.mem_of_getLast? hc)).1
      cases hu
  | @known _ _ _ h hu hv hm =>
      generalize hb : h.active = b at hm
      simp only [Option.some.injEq, exists_eq_left', hb]
      cases hm with
      | nil => simp
      | update =>
          rw [← List.append_assoc, List.getLast?_concat]
          simp
      | deactivate =>
          rw [← List.append_assoc, List.getLast?_concat]
          simp

/-! ## Words under way -/

/-- What an attempt has done so far, and that as long as it is under way its
reference has no controller. -/
def Stage.Doing (gv : GroupVersion) (h? : Option Holding) (u : List Act) : Stage → Prop
  | .fresh | .done .. => u = []
  | .waiting w => h? = none ∧
    match w.phase with
    | .inFlight .. => ∃ v, Misses gv v ∧ u = v ++ [.probed gv]
    | _ => Misses gv u
  | .registering c .. => h? = none ∧ ∃ v, Misses gv v ∧ u = v ++ admitted gv c

theorem Stage.Doing.of_ask {w : Wait Fault} {c : Bool} {now : Nat}
    (h : (Stage.waiting w).Doing gv h? u) (ht : w.turn c now = .ask) :
    h? = none ∧ Misses gv u := by
  refine ⟨h.1, ?_⟩
  have h := h.2
  split at h
  · next check since hp => exact absurd hp (Attempt.phase_of_turn_eq_ask ht check since)
  · exact h

/-- A wait that ends without an answer was a failed attempt. -/
theorem Stage.Doing.failed_waiting {w : Wait Fault} (h : (Stage.waiting w).Doing gv h? u) :
    h? = none ∧ FailedAttempt gv d u := by
  refine ⟨h.1, ?_⟩
  have h := h.2
  split at h
  · obtain ⟨v, hv, rfl⟩ := h
    exact .unfinished hv
  · exact .unanswered h

/-- An attempt that is given up was a failed attempt, or has not done anything. -/
theorem Stage.Doing.dropped {st : Stage} (h : st.Doing gv h? u) :
    u = [] ∨ (h? = none ∧ FailedAttempt gv True u) := by
  cases st with
  | fresh | done => exact .inl h
  | waiting w => exact .inr h.failed_waiting
  | registering c free rest since =>
      obtain ⟨hn, v, hv, rfl⟩ := h
      exact .inr ⟨hn, .forsaken hv trivial⟩

/-- A history is a past that is a word of the protocol, and what the attempt at
work has done so far. -/
def Standing.Follows (gv : GroupVersion) (d : Prop) (u : Standing T) : Prop :=
  ∃ past now, u.acts.map Prod.snd = past ++ now ∧ Protocol gv d u.holding past ∧
    match u.attempt with
    | none => now = []
    | some a => a.stage.Doing gv u.holding now

/-! ### What the steps make of a word -/

namespace Standing.Follows

variable {call : Option Nat} {a : Attempt T} {acts acts' : List (Nat × Act)} {w : Wait Fault}
  {check : Check Fault} {since time i : Nat} {cause : Option Cause} {c : String} {free : Bool}
  {rest rest' : Registration}

/-- A history is cut where its attempt began, and the stage says what came after. -/
theorem cut {st : Stage} (hf : Follows gv d ⟨h?, call, some a, acts⟩) (hs : a.stage = st) :
    ∃ past now, acts.map Prod.snd = past ++ now ∧ Protocol gv d h? past ∧
      st.Doing gv h? now := by
  subst hs
  exact hf

/-- When an attempt fails, what it has done becomes the end of the past. -/
theorem failed {past now : List Act} (hn : h? = none) (hacts : acts.map Prod.snd = past ++ now)
    (hp : Protocol gv d h? past) (hv : FailedAttempt gv d now) :
    Follows gv d ⟨h?, call, some (a.finish cause time), acts⟩ := by
  subst hn
  exact ⟨past ++ now, [], by rw [List.append_nil, hacts], hp.fail hv, rfl⟩

theorem update {h : Holding} (hf : Follows gv d ⟨some h, call, some a, acts⟩)
    (hs : a.stage = .fresh) (hacts : acts' = acts ++ [(i, .updated h.controller)]) :
    Follows gv d ⟨some { h with active := true }, call, some (a.finish none time), acts'⟩ := by
  obtain ⟨past, now, hpast, hp, hd⟩ := hf.cut hs
  cases hd
  refine ⟨past ++ [.updated h.controller], [], ?_, hp.update, rfl⟩
  simp [hacts, hpast]

theorem wait (hf : Follows gv d ⟨none, call, some a, acts⟩) (hs : a.stage = .fresh)
    (hp : ∀ check since, w.phase ≠ .inFlight check since) :
    Follows gv d ⟨none, call, some (a.toStage (.waiting w)), acts⟩ := by
  obtain ⟨past, now, hpast, hprotocol, hd⟩ := hf.cut hs
  cases hd
  refine ⟨past, [], hpast, hprotocol, rfl, ?_⟩
  split
  · next check since h => exact absurd h (hp check since)
  · exact .nil

/-- A wait that has come to no answer is given up. -/
theorem giveUp (hf : Follows gv d ⟨h?, call, some a, acts⟩) (hw : a.stage = .waiting w)
    (hacts : acts' = acts) : Follows gv d ⟨h?, call, some (a.finish cause time), acts'⟩ := by
  obtain ⟨past, now, hpast, hp, hd⟩ := hf.cut hw
  obtain ⟨hn, hv⟩ := hd.failed_waiting
  exact failed hn (hacts ▸ hpast) hp hv

theorem ask {cancelled : Bool} {n : Nat} (hf : Follows gv d ⟨h?, call, some a, acts⟩)
    (hw : a.stage = .waiting w) (ht : w.turn cancelled n = .ask) :
    Follows gv d ⟨h?, call, some (a.toStage (.waiting { w with phase := .asked })), acts⟩ := by
  obtain ⟨past, now, hpast, hp, hd⟩ := hf.cut hw
  exact ⟨past, now, hpast, hp, hd.of_ask ht⟩

theorem probe {cancelled : Bool} {n : Nat} (hf : Follows gv d ⟨h?, call, some a, acts⟩)
    (hw : a.stage = .waiting w) (ht : w.turn cancelled n = .ask)
    (hacts : acts' = acts ++ [(i, .probed gv)]) :
    Follows gv d ⟨h?, call,
      some (a.toStage (.waiting { w with phase := .inFlight check since })), acts'⟩ := by
  obtain ⟨past, now, hpast, hp, hd⟩ := hf.cut hw
  obtain ⟨hn, hv⟩ := hd.of_ask ht
  refine ⟨past, now ++ [.probed gv], ?_, hp, hn, now, hv, rfl⟩
  simp [hacts, hpast]

/-- A check that is under way is the last act. -/
theorem of_inFlight (hf : Follows gv d ⟨h?, call, some a, acts⟩) (hw : a.stage = .waiting w)
    (hphase : w.phase = .inFlight check since) : h? = none ∧ ∃ past v,
      acts.map Prod.snd = past ++ (v ++ [.probed gv]) ∧ Protocol gv d h? past ∧ Misses gv v := by
  obtain ⟨past, now, hpast, hp, hd⟩ := hf.cut hw
  simp only [Stage.Doing, hphase] at hd
  obtain ⟨hn, v, hv, rfl⟩ := hd
  exact ⟨hn, past, v, hpast, hp, hv⟩

theorem miss (hf : Follows gv d ⟨h?, call, some a, acts⟩) (hw : a.stage = .waiting w)
    (hphase : w.phase = .inFlight check since)
    (hacts : acts' = acts ++ [(i, .answered gv .notYet)]) :
    Follows gv d ⟨h?, call, some (a.toStage (.waiting { w with phase := .resting time })),
      acts'⟩ := by
  obtain ⟨hn, past, v, hpast, hp, hv⟩ := hf.of_inFlight hw hphase
  refine ⟨past, v ++ [.probed gv, .answered gv .notYet], ?_, hp, hn, hv.snoc⟩
  simp [hacts, hpast]

theorem fail {f : Fault} (hf : Follows gv d ⟨h?, call, some a, acts⟩) (hw : a.stage = .waiting w)
    (hphase : w.phase = .inFlight check since)
    (hacts : acts' = acts ++ [(i, .answered gv (.failed f))]) :
    Follows gv d ⟨h?, call, some (a.finish cause time), acts'⟩ := by
  obtain ⟨hn, past, v, hpast, hp, hv⟩ := hf.of_inFlight hw hphase
  refine failed hn ?_ hp (.refused (f := f) hv)
  simp [hacts, hpast]

theorem create (hf : Follows gv d ⟨h?, call, some a, acts⟩) (hw : a.stage = .waiting w)
    (hphase : w.phase = .inFlight check since)
    (hacts : acts' = acts ++ [(i, .answered gv .ready), (i, .created c), (i, .registering c)]) :
    Follows gv d ⟨h?, call, some (a.toStage (.registering c free rest time)), acts'⟩ := by
  obtain ⟨hn, past, v, hpast, hp, hv⟩ := hf.of_inFlight hw hphase
  refine ⟨past, v ++ admitted gv c, ?_, hp, hn, v, hv, rfl⟩
  simp [hacts, hpast, admitted]

/-- A registration begins with what is noted when a controller is made; nothing is added as
long as it goes on. -/
theorem of_registering (hf : Follows gv d ⟨h?, call, some a, acts⟩)
    (hr : a.stage = .registering c free rest since) : h? = none ∧ ∃ past v,
      acts.map Prod.snd = past ++ (v ++ admitted gv c) ∧ Protocol gv d h? past ∧ Misses gv v := by
  obtain ⟨past, now, hpast, hp, hd⟩ := hf.cut hr
  obtain ⟨hn, v, hv, rfl⟩ := hd
  exact ⟨hn, past, v, hpast, hp, hv⟩

theorem register (hf : Follows gv d ⟨h?, call, some a, acts⟩)
    (hr : a.stage = .registering c free rest since) :
    Follows gv d ⟨h?, call, some (a.toStage (.registering c free rest' time)), acts⟩ := by
  obtain ⟨hn, past, v, hpast, hp, hv⟩ := hf.of_registering hr
  exact ⟨past, v ++ admitted gv c, hpast, hp, hn, v, hv, rfl⟩

theorem install {r : ResourceReference} (hf : Follows gv d ⟨h?, call, some a, acts⟩)
    (hr : a.stage = .registering c free rest since)
    (hacts : acts' = acts ++ [(i, .returned c none false)]) :
    Follows gv d ⟨some ⟨r, c, true⟩, call, some (a.finish none time), acts'⟩ := by
  obtain ⟨rfl, past, v, hpast, hp, hv⟩ := hf.of_registering hr
  refine ⟨past ++ (v ++ admitted gv c ++ [.returned c none false]), [], ?_, hp.succeed hv, rfl⟩
  simp [hacts, hpast]

/-- A registration that was refused, or that comes too late, was all for nothing. -/
theorem reject {fault : Option Fault} {cancelled : Bool}
    (hf : Follows gv d ⟨h?, call, some a, acts⟩) (hr : a.stage = .registering c free rest since)
    (hbad : fault.isSome ∨ cancelled = true)
    (hacts : acts' = acts ++ [(i, .returned c fault cancelled)]) :
    Follows gv d ⟨h?, call, some (a.finish cause time), acts'⟩ := by
  obtain ⟨hn, past, v, hpast, hp, hv⟩ := hf.of_registering hr
  refine failed hn ?_ hp (.rejected (c := c) hv hbad)
  simp [hacts, hpast]

end Standing.Follows

variable [Targeted T]

theorem Attempt.Step.follows {env : Collaborators C T} {x : Context C} {a b : Attempt T}
    {s s' : Site C T} (h : Attempt.Step env x (a, s) (b, s'))
    {k : Nat} {r : ResourceReference} (hk : x.scope.activator = k) (hr : a.reference = r)
    {call : Option Nat}
    (hf : Standing.Follows r.groupVersion d
      ⟨s.store.get? r, call, some a, Trace.acts s.trace k r⟩) :
    Standing.Follows r.groupVersion d
      ⟨s'.store.get? r, call, some b, Trace.acts s'.trace k r⟩ := by
  subst hr
  cases h with
  | draw => exact hf
  | @update _ _ h hs hg =>
      have hactive := Store.get?_activate s.store a.reference a.reference
      rw [hg, Option.map_some, if_pos rfl] at hactive
      rw [hg] at hf
      dsimp only [Site.note]
      rw [hactive]
      exact hf.update hs (acts_note_self hk rfl)
  | wait hs hg =>
      rw [hg] at hf ⊢
      exact hf.wait hs nofun
  | ask hw ht => exact hf.ask hw ht
  | unaskable hw | expire hw => exact hf.giveUp hw (acts_note_quiet rfl)
  | giveUp hw => exact hf.giveUp hw rfl
  | probe hw ht => exact hf.probe hw ht (acts_note_self (s := { s with fired := _ }) hk rfl)
  | miss hw hp => exact hf.miss hw hp (acts_note_self hk rfl)
  | fail hw hp => exact hf.fail hw hp ((acts_note_quiet rfl).trans (acts_note_self hk rfl))
  | create hw hp _ _ _ _ hs =>
      subst hs
      refine hf.create hw hp (i := x.scope.call) ?_
      rw [acts_note_self hk rfl, acts_note_self hk rfl, acts_note_self hk rfl]
      simp
  | register hr hs =>
      rw [hs.store_eq, hs.acts_eq]
      exact hf.register hr
  | install hr =>
      dsimp only [Site.note]
      rw [Store.get?_install, if_pos rfl]
      exact hf.install hr ((acts_note_quiet rfl).trans (acts_note_self hk rfl))
  | refuse hr =>
      dsimp only [Site.note]
      rw [Attempt.release_store]
      exact hf.reject hr (.inl rfl) ((acts_note_quiet rfl).trans
        ((acts_release ..).trans (acts_note_self hk rfl)))
  | revoke hr =>
      rw [Attempt.release_store]
      exact hf.reject hr (.inr rfl) ((acts_release ..).trans (acts_note_self hk rfl))

/-! ## Every run -/

/-- The part of a history that begins with a call: what it does at once. -/
theorem Standing.follows_begun {u : Standing T} {i : Nat} {targets : List T}
    {r : ResourceReference} (h : u.Follows r.groupVersion d) (ha : u.attempt = none) :
    (u.begun i targets r).Follows r.groupVersion d := by
  obtain ⟨past, now, hacts, hp, hd⟩ := h
  rw [ha] at hd
  cases hd
  rw [List.append_nil] at hacts
  have hfresh : ∀ holding, (match (u.begun i targets r).attempt with
      | none => [] = ([] : List Act)
      | some a => a.stage.Doing r.groupVersion holding []) := by
    intro holding
    rw [Standing.begun]
    cases (distinctTargets targets).find? fun t => reference t = r <;> rfl
  cases hh : u.holding with
  | none =>
      rw [hh] at hp
      refine ⟨past, [], ?_, ?_, hfresh _⟩
      · simpa [Standing.begun, hh] using hacts
      · simpa [Standing.begun, hh] using hp
  | some h =>
      rw [hh] at hp
      by_cases hr : r ∈ targets.map reference
      · refine ⟨past, [], ?_, ?_, hfresh _⟩
        · simpa [Standing.begun, hh, hr] using hacts
        · simpa [Standing.begun, hh, hr] using hp
      · cases hactive : h.active with
        | true =>
            refine ⟨past ++ [.deactivated h.controller], [], ?_, ?_, hfresh _⟩
            · simpa [Standing.begun, hh, hr, hactive] using hacts
            · simpa [Standing.begun, hh, hr] using hp.deactivate hactive
        | false =>
            have hsame : ({ h with active := false } : Holding) = h := by rw [← hactive]
            refine ⟨past, [], ?_, ?_, hfresh _⟩
            · simpa [Standing.begun, hh, hr, hactive] using hacts
            · simpa [Standing.begun, hh, hr, hsame] using hp

namespace World

/-- Some call on an activator was given up by its caller. -/
def DroppedOn (w : World C T) (k : Nat) : Prop :=
  ∃ (i : Nat) (c : Call C T) (t : Nat),
    w.calls[i]? = some c ∧ c.activator = k ∧ c.stage = .dropped t

theorem DroppedOn.step {env : Collaborators C T} {m : Move C T} {w w' : World C T}
    (h : Step env m w w') {k : Nat} (hd : w.DroppedOn k) : w'.DroppedOn k := by
  obtain ⟨i, c, t, hc, hk, hs⟩ := hd
  obtain ⟨c', hc', hl⟩ := h.later hc
  exact ⟨i, c', t, hc', hl.activator.trans hk, (hl.ended (by simp [Call.isOver, hs])).trans hs⟩

theorem follows_step {env : Collaborators C T} {m : Move C T} {w w' : World C T}
    (h : Step env m w w') (hw : w.Orderly) {k : Nat} {r : ResourceReference}
    (hf : (w.standing k r).Follows r.groupVersion (w.DroppedOn k)) :
    (w'.standing k r).Follows r.groupVersion (w'.DroppedOn k) := by
  have hf' : (w.standing k r).Follows r.groupVersion (w'.DroppedOn k) := by
    obtain ⟨past, now, hacts, hp, hd⟩ := hf
    exact ⟨past, now, hacts, hp.mono (DroppedOn.step h), hd⟩
  cases h.effect hw k r with
  | same heq => rwa [heq]
  | begin _ _ _ hn heq =>
      rw [heq]
      exact Standing.follows_begun hf' (by rw [standing, hn]; rfl)
  | look _ _ hk _ hr hp _ heq heq' =>
      rw [heq] at hf'
      rw [heq']
      exact hp.follows hk hr hf'
  | @close i as hwork hdone hleft =>
      obtain ⟨past, now, hacts, hp, hd⟩ := hf'
      have hnow : now = [] := by
        rw [standing, hwork] at hd
        dsimp only [Option.bind_some] at hd
        split at hd
        · exact hd
        · next a ha =>
            have hadone := List.all_eq_true.1 hdone a (List.mem_of_find?_eq_some ha)
            cases hs : a.stage with
            | done => rwa [hs] at hd
            | _ => simp [Attempt.isDone, hs] at hadone
      rw [hleft]
      exact ⟨past, now, hacts, hp, hnow⟩
  | @drop i c t as hwork hc hs hleft =>
      obtain ⟨c₀, a₀, hf₀, hk₀, -⟩ := (atWork_eq_some_iff hw).1 hwork
      obtain ⟨c', hc', hl⟩ := h.later (find?_eq_some.1 hf₀).1
      rw [hc] at hc'
      cases hc'
      have hdropped : w'.DroppedOn k := ⟨i, c, t, hc, hl.activator.trans hk₀, hs⟩
      obtain ⟨past, now, hacts, hp, hd⟩ := hf'
      rw [hleft]
      split at hd
      · exact ⟨past, now, hacts, hp, hd⟩
      · rcases hd.dropped with rfl | ⟨hn, hv⟩
        · exact ⟨past, [], hacts, hp, rfl⟩
        · rw [hn] at hp
          refine ⟨past ++ now, [], by rw [List.append_nil]; exact hacts, ?_, rfl⟩
          dsimp only [Standing.left]
          rw [hn]
          exact hp.fail (hv.mono fun _ => hdropped)

theorem follows_ofActivators (as : List (String × Policy)) (k : Nat) (r : ResourceReference) :
    ((ofActivators as : World C T).standing k r).Follows r.groupVersion
      ((ofActivators as : World C T).DroppedOn k) := by
  rw [standing_ofActivators]
  exact ⟨[], [], rfl, .nil, rfl⟩

end World

/-! ## One call -/

/-- The updates and deactivations of one call. -/
def upkeep (acts : List (Nat × Act)) (i : Nat) : List (Nat × Act) :=
  acts.filter fun p => p.1 = i && p.2.isUpkeep

theorem upkeep_append (acts acts' : List (Nat × Act)) (i : Nat) :
    upkeep (acts ++ acts') i = upkeep acts i ++ upkeep acts' i := List.filter_append ..

theorem upkeep_eq_nil {acts : List (Nat × Act)} {i : Nat}
    (h : ∀ p ∈ acts, p.1 = i → p.2.isUpkeep = false) : upkeep acts i = [] := by
  refine List.filter_eq_nil_iff.2 fun p hp => ?_
  simpa using h p hp

/-- An attempt tends a controller at most once, in its first step. -/
theorem Attempt.Step.acts_eq {env : Collaborators C T} {x : Context C} {a b : Attempt T}
    {s s' : Site C T} (h : Attempt.Step env x (a, s) (b, s')) {k : Nat}
    (hk : x.scope.activator = k) :
    (a.stage = .fresh ∧ b.stage ≠ .fresh ∧ ∃ c, Trace.acts s'.trace k a.reference =
      Trace.acts s.trace k a.reference ++ [(x.scope.call, .updated c)]) ∨
    ((b.stage = .fresh → a.stage = .fresh) ∧ ∃ new : List Act, (∀ v ∈ new, v.isUpkeep = false) ∧
      Trace.acts s'.trace k a.reference =
        Trace.acts s.trace k a.reference ++ new.map (x.scope.call, ·)) := by
  have hsame : ∀ {t : Trace C T}, Trace.acts t k a.reference = Trace.acts s.trace k a.reference →
      ∃ new : List Act, (∀ v ∈ new, v.isUpkeep = false) ∧ Trace.acts t k a.reference =
        Trace.acts s.trace k a.reference ++ new.map (x.scope.call, ·) :=
    fun h => ⟨[], by simp, by simpa using h⟩
  cases h with
  | draw => exact .inr ⟨id, hsame rfl⟩
  | update hf => exact .inl ⟨hf, nofun, _, acts_note_self hk rfl⟩
  | wait | ask | giveUp => exact .inr ⟨nofun, hsame rfl⟩
  | unaskable | expire => exact .inr ⟨nofun, hsame (acts_note_quiet rfl)⟩
  | probe =>
      refine .inr ⟨nofun, [.probed a.reference.groupVersion], by simp [Act.isUpkeep], ?_⟩
      exact acts_note_self (s := { s with fired := _ }) hk rfl
  | miss =>
      exact .inr ⟨nofun, [.answered a.reference.groupVersion .notYet], by simp [Act.isUpkeep],
        acts_note_self hk rfl⟩
  | @fail _ _ _ _ _ f =>
      exact .inr ⟨nofun, [.answered a.reference.groupVersion (.failed f)], by simp [Act.isUpkeep],
        (acts_note_quiet rfl).trans (acts_note_self hk rfl)⟩
  | @create _ _ _ _ _ _ c _ _ _ _ _ _ hs =>
      subst hs
      refine .inr ⟨nofun, [.answered a.reference.groupVersion .ready, .created c.name,
        .registering c.name], by simp [Act.isUpkeep], ?_⟩
      rw [acts_note_self hk rfl, acts_note_self hk rfl, acts_note_self hk rfl]
      simp
  | register _ hs => exact .inr ⟨nofun, hsame hs.acts_eq⟩
  | @install _ _ c =>
      exact .inr ⟨nofun, [.returned c none false], by simp [Act.isUpkeep],
        (acts_note_quiet rfl).trans (acts_note_self hk rfl)⟩
  | @refuse _ _ c _ _ _ f =>
      exact .inr ⟨nofun, [.returned c (some f) false], by simp [Act.isUpkeep],
        (acts_note_quiet rfl).trans ((acts_release ..).trans (acts_note_self hk rfl))⟩
  | @revoke _ _ c _ _ _ fault =>
      exact .inr ⟨nofun, [.returned c fault true], by simp [Act.isUpkeep],
        (acts_release ..).trans (acts_note_self hk rfl)⟩

/-- An attempt that finds a controller tends it and does nothing else. -/
theorem Attempt.Step.tended {env : Collaborators C T} {x : Context C}
    {a b : Attempt T} {s s' : Site C T} (h : Attempt.Step env x (a, s) (b, s')) {k : Nat}
    (hk : x.scope.activator = k) (hs : (s.store.get? a.reference).isSome)
    (ha : a.stage = .fresh ∨ a.isDone) :
    (s'.store.get? a.reference).isSome ∧ (b.stage = .fresh ∨ b.isDone) ∧
      ∃ new, Trace.acts s'.trace k a.reference = Trace.acts s.trace k a.reference ++ new ∧
        ∀ p ∈ new, p.2.isUpkeep := by
  cases h with
  | draw => exact ⟨hs, ha, [], by simp, by simp⟩
  | @update _ _ h _ hg =>
      refine ⟨?_, .inr rfl, [(x.scope.call, .updated h.controller)], acts_note_self hk rfl, by
        simp [Act.isUpkeep]⟩
      dsimp only [Site.note]
      rw [Store.get?_activate, Option.isSome_map]
      exact hs
  | wait _ hg =>
      rw [hg] at hs
      cases hs
  | ask hw | unaskable hw | probe hw | giveUp hw | expire hw | miss hw | fail hw | create hw
  | register hw | install hw | refuse hw | revoke hw => simp [Attempt.isDone, hw] at ha

/-- A call that has not tended may do so once. -/
theorem length_upkeep_append {acts new : List (Nat × Act)} {i : Nat}
    (h : ∀ j, (upkeep acts j).length ≤ 1) (hi : upkeep acts i = []) (hnew : ∀ p ∈ new, p.1 = i)
    (hlen : new.length ≤ 1) (j : Nat) : (upkeep (acts ++ new) j).length ≤ 1 := by
  rw [upkeep_append, List.length_append]
  by_cases hij : j = i
  · subst hij
    rw [hi, List.length_nil, Nat.zero_add]
    exact Nat.le_trans (List.length_filter_le ..) hlen
  · have hnil : upkeep new j = [] := upkeep_eq_nil fun p hp hpj => absurd (hpj ▸ hnew p hp) hij
    rw [hnil]
    exact h j

/-- What a call does at once about a reference is to deactivate its controller,
if it does anything. -/
theorem Standing.acts_begun (u : Standing T) (i : Nat) (targets : List T)
    (r : ResourceReference) :
    ∃ new, (u.begun i targets r).acts = u.acts ++ new ∧ new.length ≤ 1 ∧
      (r ∈ targets.map reference → new = []) ∧ ∀ p ∈ new, p.1 = i ∧ p.2.isUpkeep := by
  refine ⟨_, rfl, Option.length_toList_le, fun hr => ?_, fun p hp => ?_⟩
  · cases u.holding <;> simp [hr]
  · obtain ⟨h, -, hp⟩ := Option.bind_eq_some_iff.1 (Option.mem_toList.1 hp)
    split at hp <;> cases hp
    exact ⟨rfl, rfl⟩

namespace World

/-- No call tends a controller twice: the history is one of calls that have had
their turn, and an attempt that has not been looked at has not tended. -/
structure Sparing (w : World C T) (k : Nat) (r : ResourceReference) : Prop where
  once : ∀ i, (upkeep (w.standing k r).acts i).length ≤ 1
  begun : ∀ p ∈ (w.standing k r).acts, w.hasBegun p.1
  fresh : ∀ i a, (w.standing k r).call = some i → (w.standing k r).attempt = some a →
    a.stage = .fresh → upkeep (w.standing k r).acts i = []

theorem sparing_step {env : Collaborators C T} {m : Move C T} {w w' : World C T}
    (h : Step env m w w') (hw : w.Orderly) {k : Nat} {r : ResourceReference}
    (hs : w.Sparing k r) : w'.Sparing k r := by
  have hw' := orderly_step h hw
  have hbegun : ∀ p ∈ (w.standing k r).acts, w'.hasBegun p.1 :=
    fun p hp => h.hasBegun (hs.begun p hp)
  cases h.effect hw k r with
  | same heq =>
      refine ⟨?_, ?_, ?_⟩ <;> rw [heq]
      · exact hs.once
      · exact hbegun
      · exact hs.fresh
  | @begin i c hc hq hk hn heq =>
      have hi : upkeep (w.standing k r).acts i = [] := by
        refine upkeep_eq_nil fun p hp hpi => ?_
        have hb := hs.begun p hp
        rw [hpi] at hb
        simp [World.hasBegun, hc, Call.hasBegun, hq] at hb
      obtain ⟨new, hacts, hlen, hwanted, hnew⟩ := (w.standing k r).acts_begun i c.targets r
      refine ⟨?_, ?_, ?_⟩ <;> rw [heq, hacts]
      · exact length_upkeep_append hs.once hi (fun p hp => (hnew p hp).1) hlen
      · refine List.forall_mem_append.2 ⟨hbegun, fun p hp => ?_⟩
        rw [(hnew p hp).1]
        exact hasBegun_of_call hw' (by rw [heq]; rfl)
      · intro j a hj ha _
        cases hj
        have hr := (Standing.isSome_attempt_begun ..).1 (by rw [ha]; rfl)
        rw [hwanted hr, List.append_nil]
        exact hi
  | @look i j c a as t p hf hstage hk ht hr hp _ heq heq' =>
      obtain ⟨b, s⟩ := p
      rw [heq] at hbegun
      have honce := hs.once
      have hfresh := hs.fresh i t (by rw [heq]) (by rw [heq])
      rw [heq] at honce hfresh
      have hi : w'.hasBegun i := hasBegun_of_call hw' (by rw [heq'])
      subst hr
      rcases hp.acts_eq hk with ⟨hst, hst', c, hacts⟩ | ⟨hst, new, hnew, hacts⟩
      · refine ⟨?_, ?_, ?_⟩ <;> rw [heq'] <;> dsimp only <;> rw [hacts]
        · exact length_upkeep_append honce (hfresh hst) (by simp [context]) (by simp)
        · exact List.forall_mem_append.2 ⟨hbegun, by simpa [context] using hi⟩
        · intro j b' hj hb' hb
          cases hb'
          exact absurd hb hst'
      · have hnil : ∀ j, upkeep (new.map ((context a i c).scope.call, ·)) j = [] := by
          refine fun j => upkeep_eq_nil fun p hp _ => ?_
          obtain ⟨v, hv, rfl⟩ := List.mem_map.1 hp
          exact hnew v hv
        refine ⟨?_, ?_, ?_⟩ <;> rw [heq'] <;> dsimp only <;> rw [hacts]
        · intro j
          rw [upkeep_append, hnil, List.append_nil]
          exact honce j
        · refine List.forall_mem_append.2 ⟨hbegun, fun p hp => ?_⟩
          obtain ⟨v, -, rfl⟩ := List.mem_map.1 hp
          exact hi
        · intro j b' hj hb' hb
          cases hb'
          cases hj
          rw [upkeep_append, hnil, List.append_nil]
          exact hfresh (hst hb)
  | close _ _ heq | drop _ _ _ heq =>
      refine ⟨?_, ?_, ?_⟩ <;> rw [heq]
      · exact hs.once
      · exact hbegun
      · rintro _ _ _ ⟨⟩

theorem sparing_play {env : Collaborators C T} {as : List (String × Policy)}
    (ms : List (Move C T)) (k : Nat) (r : ResourceReference) :
    ((ofActivators as).play env ms).Sparing k r := by
  refine invariant_of_orderly (P := fun w => w.Sparing k r) (A := fun _ => True)
    (fun _ hs hw h => sparing_step hs hw h) (fun _ _ => trivial) (orderly_ofActivators as) ?_
  refine ⟨?_, ?_, ?_⟩ <;> rw [standing_ofActivators]
  · exact fun i => Nat.zero_le 1
  · exact nofun
  · exact nofun

/-! ## A stored controller -/

/-- A reference that has a controller keeps it, and since some history nothing
was done about it but tending. -/
structure Tended (since : List (Nat × Act)) (u : Standing T) : Prop where
  stored : u.holding.isSome
  still : ∀ a, u.attempt = some a → a.stage = .fresh ∨ a.isDone
  tending : ∃ new, u.acts = since ++ new ∧ ∀ p ∈ new, p.2.isUpkeep

omit [Targeted T] in
theorem tended_of_follows {gv : GroupVersion} {d : Prop} {u : Standing T}
    (h : u.Follows gv d) (hs : u.holding.isSome) : Tended u.acts u := by
  refine ⟨hs, fun a ha => ?_, [], by simp, by simp⟩
  obtain ⟨past, now, -, -, hd⟩ := h
  rw [ha] at hd
  dsimp only at hd
  cases hst : a.stage with
  | fresh => exact .inl rfl
  | done => exact .inr (by simp [Attempt.isDone, hst])
  | waiting w =>
      rw [hst] at hd
      rw [hd.1] at hs
      cases hs
  | registering =>
      rw [hst] at hd
      rw [hd.1] at hs
      cases hs

theorem tended_step {env : Collaborators C T} {m : Move C T} {w w' : World C T}
    (h : Step env m w w') (hw : w.Orderly) {k : Nat} {r : ResourceReference}
    {since : List (Nat × Act)} (ht : Tended since (w.standing k r)) :
    Tended since (w'.standing k r) := by
  obtain ⟨new, hacts, hnew⟩ := ht.tending
  cases h.effect hw k r with
  | same heq => rwa [heq]
  | @begin i c _ _ _ _ heq =>
      obtain ⟨more, hmore, -, -, hup⟩ := (w.standing k r).acts_begun i c.targets r
      rw [heq]
      refine ⟨?_, fun a ha => .inl (Standing.stage_begun ha), new ++ more, ?_,
        List.forall_mem_append.2 ⟨hnew, fun p hp => (hup p hp).2⟩⟩
      · rw [Standing.begun, Option.isSome_map]
        exact ht.stored
      · rw [hmore, hacts, List.append_assoc]
  | @look i j c a as t p hf hstage hk _ hr hp _ heq heq' =>
      obtain ⟨b, s⟩ := p
      have hstored := ht.stored
      have hstill := ht.still t (by rw [heq])
      rw [heq] at hacts hstored
      subst hr
      obtain ⟨hs, hb, more, hmore, hup⟩ := hp.tended hk hstored hstill
      rw [heq']
      refine ⟨hs, ?_, new ++ more, ?_, List.forall_mem_append.2 ⟨hnew, hup⟩⟩
      · rintro _ ⟨⟩
        exact hb
      · dsimp only at hacts ⊢
        rw [hmore, ← List.append_assoc, ← hacts]
        rfl
  | close _ _ heq | drop _ _ _ heq =>
      rw [heq]
      refine ⟨ht.stored, ?_, new, hacts, hnew⟩
      rintro _ ⟨⟩

/-! ## The whole protocol -/

/-- What the history of a reference says, whatever has happened. All but the last
are about a world in which no call of the activator is at work. -/
structure Lawful (w : World C T) (k : Nat) (r : ResourceReference) : Prop where
  word : w.atWork k = none → Protocol r.groupVersion (w.DroppedOn k) (w.holding? k r)
    ((Trace.acts w.trace k r).map Prod.snd)
  absent_iff : w.atWork k = none → (w.holding? k r = none ↔
    ∀ p ∈ Trace.acts w.trace k r, p.2.isSuccess = false)
  inactive_iff : w.atWork k = none → ((∃ h, w.holding? k r = some h ∧ h.active = false) ↔
    ∃ i c, (Trace.acts w.trace k r).getLast? = some (i, .deactivated c))
  active_iff : w.atWork k = none → ((∃ h, w.holding? k r = some h ∧ h.active = true) ↔
    (∃ p ∈ Trace.acts w.trace k r, p.2.isSuccess = true) ∧
      ¬ ∃ i c, (Trace.acts w.trace k r).getLast? = some (i, .deactivated c))
  once : ∀ i, (upkeep (Trace.acts w.trace k r) i).length ≤ 1

theorem Reachable.follows {env : Collaborators C T} {as : List (String × Policy)}
    {w : World C T} (hw : Reachable env as w) (k : Nat) (r : ResourceReference) :
    (w.standing k r).Follows r.groupVersion (w.DroppedOn k) := by
  obtain ⟨ms, rfl⟩ := hw
  exact invariant_of_orderly
    (P := fun w => (w.standing k r).Follows r.groupVersion (w.DroppedOn k)) (A := fun _ => True)
    (fun _ hs hw h => follows_step hs hw h) (fun _ _ => trivial) (orderly_ofActivators as)
    (follows_ofActivators as k r)

theorem tended_play {env : Collaborators C T} {w : World C T} (hw : w.Orderly) {k : Nat}
    {r : ResourceReference} {since : List (Nat × Act)} (ht : Tended since (w.standing k r))
    (ms : List (Move C T)) : Tended since ((w.play env ms).standing k r) :=
  invariant_of_orderly (P := fun w => Tended since (w.standing k r)) (A := fun _ => True)
    (fun _ hs hw h => tended_step hs hw h) (fun _ _ => trivial) hw ht

/-- Whatever calls are made on an activator, and whatever becomes of them, what
is done about a reference is a word of the protocol; and once a reference has a
controller, nothing is done about it any more but to tend that controller. -/
theorem lifecycle_protocol {env : Collaborators C T} {as : List (String × Policy)}
    {w : World C T} (hw : Reachable env as w) (k : Nat) (r : ResourceReference) :
    w.Lawful k r ∧ ∀ ms, (w.holding? k r).isSome → ∃ new,
      Trace.acts (w.play env ms).trace k r = Trace.acts w.trace k r ++ new ∧
        ∀ p ∈ new, p.2.isUpkeep := by
  have hfollows := hw.follows k r
  have hword : w.atWork k = none → Protocol r.groupVersion (w.DroppedOn k) (w.holding? k r)
      ((Trace.acts w.trace k r).map Prod.snd) := by
    intro hidle
    obtain ⟨past, now, hacts, hp, hd⟩ := hfollows
    rw [standing, hidle] at hd
    cases hd
    rw [List.append_nil] at hacts
    rw [← hacts] at hp
    exact hp
  have habsent : w.atWork k = none → (w.holding? k r = none ↔
      ∀ p ∈ Trace.acts w.trace k r, p.2.isSuccess = false) := by
    intro hidle
    rw [(hword hidle).eq_none_iff, List.forall_mem_map]
  have hinactive : w.atWork k = none → ((∃ h, w.holding? k r = some h ∧ h.active = false) ↔
      ∃ i c, (Trace.acts w.trace k r).getLast? = some (i, .deactivated c)) := by
    intro hidle
    rw [(hword hidle).inactive_iff]
    simp only [List.getLast?_map, Option.map_eq_some_iff, Prod.exists, exists_eq_right]
    exact exists_comm
  refine ⟨⟨hword, habsent, hinactive, fun hidle => ?_, ?_⟩, fun ms hs => ?_⟩
  · have hsuccess : (∃ p ∈ Trace.acts w.trace k r, p.2.isSuccess = true) ↔
        w.holding? k r ≠ none := by
      rw [ne_eq, habsent hidle]
      simp
    rw [hsuccess, ← hinactive hidle]
    cases w.holding? k r with
    | none => simp
    | some h => simp
  · obtain ⟨ms, rfl⟩ := hw
    exact (sparing_play ms k r).once
  · exact (tended_play hw.orderly (tended_of_follows hfollows hs) ms).tending

/-- A target that one call activates and the next one gives up, with a third
call to come. -/
theorem lifecycle_protocol_given_up :
    let policies := [("widgets", Policy.default)]
    let w := (ofActivators policies).play .prompt
      [.submit [.plain 0 "v1" ["a", "b"]], .join 0, .begin 0, .look 0 1, .look 0 0, .close 0,
        .submit [.plain 0 "v2" ["b"]], .join 1, .begin 1, .look 1 0, .close 1]
    Reachable .prompt policies w ∧ w.atWork 0 = none ∧ (w.holding? 0 (.plain "a")).isSome ∧
      w.Lawful 0 (.plain "a") ∧ ∀ ms, (w.holding? 0 (.plain "a")).isSome → ∃ new,
        Trace.acts (w.play .prompt ms).trace 0 (.plain "a") =
          Trace.acts w.trace 0 (.plain "a") ++ new ∧ ∀ p ∈ new, p.2.isUpkeep := by
  intro policies w
  have hreach : Reachable .prompt policies w := ⟨_, rfl⟩
  exact ⟨hreach, by decide +kernel, by decide +kernel, lifecycle_protocol hreach 0 (.plain "a")⟩

end World

end Lifecycle
