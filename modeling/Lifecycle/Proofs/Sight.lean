import Lifecycle.Proofs.Loops
import Lifecycle.Proofs.Progress
import Lifecycle.Proofs.Standing

/-!
# What an attempt sees of the world

An attempt is looked at in the midst of everything, but it sees little of it: the
clock, whether its call is cancelled, what its own reference has in the store,
whether the names of its own controllers are free, and whether loops can be
started at all. What else may differ between two sites is left open in `Sight`, and
`look_matches` says that attempts which stand the same then stand the same after a
look, whatever it is.

Here it is what concerns the other targets of a call: `Site.Like` says that two sites
agree about one target, `look_same` is `look_matches` for that, and `look_like` that a
look at an attempt for another reference changes none of it. Both need the
collaborators to keep the targets apart, which is `Collaborators.Independent`. A check
that knew what was asked before, a registration that cancelled its call, or a controller
under another one's name would each carry something over from one target to the next.
-/

namespace Lifecycle

variable {C T : Type}

/-- Whether a registration cancels no other calls than its own. -/
def Registration.keepsToCall : Registration → Bool
  | finish _ => true
  | spawn _ _ next | sleep _ _ next | synced next => next.keepsToCall
  | spawnOr _ _ next refused => next.keepsToCall && refused.keepsToCall
  | cancel whole next => !whole && next.keepsToCall

/-- Whether a registration cancels no calls at all. -/
def Registration.isSilent : Registration → Bool
  | finish _ => true
  | spawn _ _ next | sleep _ _ next | synced next => next.isSilent
  | spawnOr _ _ next refused => next.isSilent && refused.isSilent
  | cancel .. => false

theorem Registration.keepsToCall_of_isSilent {rest : Registration} (h : rest.isSilent) :
    rest.keepsToCall := by
  induction rest with
  | spawnOr name body next refused ih ihr =>
      rw [isSilent, Bool.and_eq_true] at h
      rw [keepsToCall, Bool.and_eq_true]
      exact ⟨ih h.1, ihr h.2⟩
  | cancel whole next => cases h
  | finish fault => rfl
  | spawn _ _ next ih | sleep _ _ next ih | synced next ih => exact ih h

section Step

variable {x : Context C} {c : String} {r : ResourceReference} {rest rest' : Registration}
  {since : Nat} {s s' : Site C T}

theorem Registration.Step.keepsToCall (h : Step x c r rest since s rest' s')
    (hk : rest.keepsToCall) : rest'.keepsToCall := by
  cases h <;> simp_all [Registration.keepsToCall]

theorem Registration.Step.silent (h : Step x c r rest since s rest' s') (hsilent : rest.isSilent) :
    rest'.isSilent ∧ s'.fired = s.fired := by
  cases h with
  | spawn | synced | wake => exact ⟨hsilent, rfl⟩
  | spawnOr | refused => simp_all [Registration.isSilent, Site.note]
  | cancel => cases hsilent

end Step

section Independent

variable [Targeted T]

/-- The names that a controller of a target can have. -/
def Collaborators.Bears (env : Collaborators C T) (capability : String) (config : C) (t : T)
    (n : String) : Prop := ∃ tr now, (env.create tr now capability t config).name = n

/-- For the collaborators the targets of a call have nothing to do with each other, and
none of them cancels the call. -/
structure Collaborators.Independent (env : Collaborators C T) (k : Nat) (capability : String)
    (config : C) (targets : List T) : Prop where
  /-- A check depends on what it asks for and when. -/
  checks : ∀ tr tr' now gv, env.check tr now gv = env.check tr' now gv
  quiet : ∀ tr now gv, (env.check tr now gv).cancels = false
  /-- A controller depends on its target, on what was done about it, and on the clock. -/
  creates : ∀ t ∈ targets, ∀ tr tr' now,
    Trace.acts tr k (reference t) = Trace.acts tr' k (reference t) →
      env.create tr now capability t config = env.create tr' now capability t config
  registers : ∀ t ∈ targets, ∀ tr now,
    let c := env.create tr now capability t config
    c.registration.spawnsOnly c.name ∧ c.registration.isSilent
  names : ∀ t ∈ targets, ∀ t' ∈ targets, reference t ≠ reference t' →
    ∀ n, env.Bears capability config t n → ¬ env.Bears capability config t' n

end Independent

/-! ## What looks the same -/

/-- Two registries that are the same as far as some names go. -/
structure Registry.Like (own : String → Prop) (g g' : Registry) : Prop where
  closed : g'.closed = g.closed
  names : ∀ n, own n → g'.isRegistered n = g.isRegistered n

namespace Registry.Like

variable {own : String → Prop} {g g' g'' : Registry}

theorem refl (g : Registry) : g.Like own g := ⟨rfl, fun _ _ => rfl⟩

theorem trans (h : g.Like own g') (h' : g'.Like own g'') : g.Like own g'' :=
  ⟨h'.closed.trans h.closed, fun n hn => (h'.names n hn).trans (h.names n hn)⟩

theorem symm (h : g.Like own g') : g'.Like own g :=
  ⟨h.closed.symm, fun n hn => (h.names n hn).symm⟩

/-- Another name is none of these names' business. -/
theorem of_spawn {n : String} {body : LoopBody} (hn : ¬ own n) (h : g.spawn n body = .ok g') :
    g.Like own g' := by
  refine ⟨?_, fun m hm => ?_⟩
  · unfold spawn at h
    split at h
    · cases h
    · split at h
      · cases h
      · cases h
        rfl
  · rw [Bool.eq_iff_iff, isRegistered_of_spawn h, or_iff_right]
    rintro rfl
    exact hn hm

theorem of_abort {n : String} (hn : ¬ own n) (h : g.abort? n = some g') : g.Like own g' := by
  refine ⟨?_, fun m hm => ?_⟩
  · obtain ⟨i, -, rfl⟩ := Option.map_eq_some_iff.1 h
    rfl
  · rw [Bool.eq_iff_iff, isRegistered_of_abort? h, and_iff_right]
    rintro rfl
    exact hn hm

theorem spawn (h : g.Like own g') {n : String} (hn : own n) (body : LoopBody) :
    (∃ f, g.spawn n body = .error f ∧ g'.spawn n body = .error f) ∨
      ∃ g₁ g₁', g.spawn n body = .ok g₁ ∧ g'.spawn n body = .ok g₁' ∧ g₁.Like own g₁' := by
  unfold Registry.spawn
  rw [h.closed, h.names n hn]
  split
  · exact .inl ⟨_, rfl, rfl⟩
  · split
    · exact .inl ⟨_, rfl, rfl⟩
    · refine .inr ⟨_, _, rfl, rfl, rfl, fun m hm => ?_⟩
      have hnames := h.names m hm
      unfold isRegistered at hnames ⊢
      rw [List.any_append, List.any_append, hnames]
      rfl

theorem abort (h : g.Like own g') {n : String} (hn : own n) :
    (g.abort? n = none ∧ g'.abort? n = none) ∨
      ∃ g₁ g₁', g.abort? n = some g₁ ∧ g'.abort? n = some g₁' ∧ g₁.Like own g₁' := by
  have hsome : (g'.abort? n).isSome = (g.abort? n).isSome := by
    rw [Bool.eq_iff_iff, abort?_isSome_iff, abort?_isSome_iff, h.names n hn]
  cases hg : g.abort? n with
  | none =>
      rw [hg, Option.isSome_none, Option.isSome_eq_false_iff, Option.isNone_iff_eq_none] at hsome
      exact .inl ⟨rfl, hsome⟩
  | some g₁ =>
      rw [hg] at hsome
      obtain ⟨g₁', hg'⟩ := Option.isSome_iff_exists.1 hsome
      refine .inr ⟨g₁, g₁', rfl, hg', ?_, fun m hm => ?_⟩
      · obtain ⟨i, -, rfl⟩ := Option.map_eq_some_iff.1 hg
        obtain ⟨i', -, rfl⟩ := Option.map_eq_some_iff.1 hg'
        exact h.closed
      · rw [Bool.eq_iff_iff, isRegistered_of_abort? hg, isRegistered_of_abort? hg', h.names m hm]

end Registry.Like

/-! ## What cannot be told apart

An attempt can be run at two sites in which different things have happened. Which
difference it can see is left open here: a relation between stores, one between traces
and one between what is cancelled say what it does not see, and `Sight` says what they
must be for that. -/

/-- Two contexts in which an attempt goes the same way, though it may belong to different
calls. -/
structure Context.Matches (x x' : Context C) : Prop where
  capability : x'.scope.capability = x.scope.capability
  config : x'.scope.config = x.scope.config
  policy : x'.policy = x.policy
  cancelled : x'.cancelled = x.cancelled

/-- Two sites that agree as far as some names go, with stores, traces and cancellations of
which some relations hold. -/
structure Site.Matches (own : String → Prop) (S : Store → Store → Prop)
    (H : Trace C T → Trace C T → Prop) (F : Fired → Fired → Prop) (s s' : Site C T) : Prop where
  now : s'.now = s.now
  fired : F s.fired s'.fired
  registry : s.registry.Like own s'.registry
  store : S s.store s'.store
  trace : H s.trace s'.trace

/-- What an attempt for a reference does in two contexts keeps what it does not see: the
stores have the same for its reference, its call is cancelled in both or in none, and
whatever it does to the stores, writes into the traces or cancels it does to both. -/
structure Sight (x x' : Context C) (r : ResourceReference) (S : Store → Store → Prop)
    (H : Trace C T → Trace C T → Prop) (F : Fired → Fired → Prop) : Prop where
  context : x.Matches x'
  holding : ∀ {s s'}, S s s' → s'.get? r = s.get? r
  install : ∀ {s s'}, S s s' → ∀ c, S (s.install r c) (s'.install r c)
  activate : ∀ {s s'}, S s s' → S (s.activate r) (s'.activate r)
  note : ∀ {t t'}, H t t' → ∀ time what,
    H (⟨time, some x.scope, what⟩ :: t) (⟨time, some x'.scope, what⟩ :: t')
  hits : ∀ {f f'}, F f f' → f'.hits x'.scope.call = f.hits x.scope.call
  fire : ∀ {f f'}, F f f' → ∀ whole,
    F (f.fire whole x.scope.call) (f'.fire whole x'.scope.call)
  fireAll : F .all .all

section Sight

variable {own : String → Prop} {S : Store → Store → Prop} {H : Trace C T → Trace C T → Prop}
  {F : Fired → Fired → Prop} {x x' : Context C} {r : ResourceReference} {s s' : Site C T} (hx : Sight x x' r S H F)
  (hs : s.Matches own S H F s')

include hx hs

theorem Site.Matches.cancelled : s'.cancelled x' = s.cancelled x := by
  rw [Site.cancelled, Site.cancelled, hx.context.cancelled, hx.hits hs.fired]

theorem Site.Matches.note (what : Happening C T) :
    (s.note x what).Matches own S H F (s'.note x' what) := by
  refine ⟨hs.now, hs.fired, hs.registry, hs.store, ?_⟩
  show H (⟨s.now, some x.scope, what⟩ :: s.trace) (⟨s'.now, some x'.scope, what⟩ :: s'.trace)
  rw [hs.now]
  exact hx.note hs.trace s.now what

omit hs in
theorem Registration.run_matches {c : String} (hc : own c) (rest : Registration) :
    rest.spawnsOnly c → ∀ (since : Option Nat) {s s' : Site C T}, s.Matches own S H F s' →
      (rest.run x' c r since s').1 = (rest.run x c r since s).1 ∧
        (rest.run x c r since s).2.Matches own S H F (rest.run x' c r since s').2 := by
  induction rest with
  | finish fault => exact fun _ _ _ _ hs => ⟨rfl, hs⟩
  | spawn name body next ih =>
      intro ho since s s' hs
      simp only [spawnsOnly, Bool.and_eq_true, decide_eq_true_eq] at ho
      obtain ⟨rfl, ho⟩ := ho
      rw [run, run]
      rcases hs.registry.spawn hc body with ⟨f, h, h'⟩ | ⟨g, g', h, h', hg⟩
      · rw [h, h']
        exact ⟨rfl, hs⟩
      · rw [h, h']
        refine ih ho none (Site.Matches.note hx ?_ _)
        exact ⟨hs.now, hs.fired, hg, hs.store, hs.trace⟩
  | spawnOr name body next refused ih ihr =>
      intro ho since s s' hs
      simp only [spawnsOnly, Bool.and_eq_true, decide_eq_true_eq] at ho
      obtain ⟨⟨rfl, ho⟩, hor⟩ := ho
      rw [run, run]
      rcases hs.registry.spawn hc body with ⟨f, h, h'⟩ | ⟨g, g', h, h', hg⟩
      · rw [h, h']
        exact ihr hor none hs
      · rw [h, h']
        refine ih ho none (Site.Matches.note hx ?_ _)
        exact ⟨hs.now, hs.fired, hg, hs.store, hs.trace⟩
  | cancel whole next ih =>
      intro ho since s s' hs
      exact ih ho none ⟨hs.now, hx.fire hs.fired whole, hs.registry, hs.store, hs.trace⟩
  | synced next ih =>
      intro ho since s s' hs
      exact ih ho none (hs.note hx _)
  | sleep millis interrupted next ih =>
      intro ho since s s' hs
      rw [run.eq_def, run.eq_def]
      dsimp only
      rw [hs.cancelled hx, hs.now]
      split
      · exact ⟨rfl, hs⟩
      · cases millis with
        | none => exact ⟨rfl, hs⟩
        | some d =>
            dsimp only
            split
            · exact ih ho none hs
            · exact ⟨rfl, hs⟩

end Sight

variable [Targeted T]

/-- Whether an attempt that registers uses no other name than its controller's, which is one
of some names, and cancels no other calls than its own. -/
def Attempt.Discreet (own : String → Prop) (a : Attempt T) : Prop :=
  ∀ c free rest since, a.stage = .registering c free rest since →
    own c ∧ rest.spawnsOnly c ∧ rest.keepsToCall

/-- Whether an attempt that registers cancels no calls. -/
def Attempt.Silent (a : Attempt T) : Prop :=
  ∀ c free rest since, a.stage = .registering c free rest since → rest.isSilent

/-- A discreet attempt that cancels no calls and rests for some time between its checks. -/
structure Attempt.Tidy (own : String → Prop) (a : Attempt T) : Prop where
  discreet : a.Discreet own
  silent : a.Silent
  paced : ∀ w, a.stage = .waiting w → 0 < w.interval

/-- Two attempts for a target, each with its site, that stand the same. -/
structure Attempt.Matches (own : String → Prop) (S : Store → Store → Prop)
    (H : Trace C T → Trace C T → Prop) (F : Fired → Fired → Prop) (p p' : Attempt T × Site C T) : Prop where
  target : p'.1.target = p.1.target
  stage : p'.1.stage = p.1.stage
  site : p.2.Matches own S H F p'.2

/-- What cannot be told apart is the same to the collaborators, and the controllers of a
target have some names and use no others. -/
structure Collaborators.Regards (env : Collaborators C T) (x : Scope C) (t : T)
    (own : String → Prop) (H : Trace C T → Trace C T → Prop) : Prop where
  checks : ∀ {tr tr'}, H tr tr' → ∀ now gv, env.check tr' now gv = env.check tr now gv
  creates : ∀ {tr tr'}, H tr tr' → ∀ now,
    env.create tr' now x.capability t x.config = env.create tr now x.capability t x.config
  registers : ∀ tr now, let c := env.create tr now x.capability t x.config
    own c.name ∧ c.registration.spawnsOnly c.name

namespace Attempt

section Matches

variable {own : String → Prop} {S : Store → Store → Prop} {H : Trace C T → Trace C T → Prop}
  {F : Fired → Fired → Prop} {env : Collaborators C T} {x x' : Context C} {a a' : Attempt T} {s s' : Site C T}
  (henv : env.Regards x.scope a.target own H) (hx : Sight x x' a.reference S H F)
  (hs : s.Matches own S H F s') (ht : a'.target = a.target)

include hx hs

theorem release_matches {c : String} (hc : own c) (free : Bool) :
    (release x a.reference c free s).Matches own S H F (release x' a.reference c free s') := by
  unfold release
  split
  · rcases hs.registry.abort hc with ⟨h, h'⟩ | ⟨g, g', h, h', hg⟩
    · rw [h, h']
      exact hs
    · rw [h, h']
      refine Site.Matches.note hx (Site.Matches.note hx ?_ _) _
      exact ⟨hs.now, hs.fired, hg, hs.store, hs.trace⟩
  · exact hs

include ht

omit [Targeted T] hx hs in
theorem finish_matches {s s' : Site C T} (hs : s.Matches own S H F s') (cause : Option Cause) :
    Matches own S H F (a.finish cause s.now, s) (a'.finish cause s'.now, s') := by
  refine ⟨ht, ?_, hs⟩
  rw [hs.now]
  rfl

theorem settle_matches {c : String} (hc : own c) (free : Bool) (fault : Option Fault) :
    Matches own S H F (settle x a c free fault s) (settle x' a' c free fault s') := by
  have hr : a'.reference = a.reference := congrArg Targeted.reference ht
  have hreturned : ∀ b, (s.note x (.returned c a.reference fault b)).Matches own S H F
      (s'.note x' (.returned c a.reference fault b)) := fun b => hs.note hx _
  have hreleased : ∀ b,
      (release x a.reference c free (s.note x (.returned c a.reference fault b))).Matches own S H F
        (release x' a.reference c free (s'.note x' (.returned c a.reference fault b))) :=
    fun b => release_matches hx (hreturned b) hc free
  unfold settle
  dsimp only
  rw [hs.cancelled hx, hr]
  cases hcan : s.cancelled x with
  | true =>
      simp only [or_true, if_true]
      exact finish_matches ht (hreleased true) _
  | false =>
      cases fault with
      | some f =>
          simp only [Option.isSome_some, true_or, if_true, Bool.false_eq_true, if_false]
          have hnoted := (hreleased false).note hx (.setupFailed a.reference c f)
          exact finish_matches ht hnoted _
      | none =>
          simp only [Option.isSome_none, Bool.false_eq_true, or_self, if_false]
          obtain ⟨hn, hf, hg, hst, htr⟩ := hreturned false
          have hinstalled : Site.Matches own S H F
              { s.note x (.returned c a.reference none false) with
                store := s.store.install a.reference c }
              { s'.note x' (.returned c a.reference none false) with
                store := s'.store.install a.reference c } :=
            ⟨hn, hf, hg, hx.install hst c, htr⟩
          have hnoted := hinstalled.note hx (.installed a.reference c)
          exact finish_matches ht hnoted _

theorem register_matches {c : String} (hc : own c) (free : Bool) {rest : Registration}
    (ho : rest.spawnsOnly c) (since : Option Nat) :
    Matches own S H F (register x a c free rest since s) (register x' a' c free rest since s') := by
  have hr : a'.reference = a.reference := congrArg Targeted.reference ht
  obtain ⟨hp, hsite⟩ := Registration.run_matches hx hc rest ho since hs
  unfold register
  rw [hr]
  generalize rest.run x c a.reference since s = p at hp hsite
  generalize rest.run x' c a.reference since s' = p' at hp hsite
  obtain ⟨q, s₁⟩ := p
  obtain ⟨q', s₁'⟩ := p'
  dsimp only at hp hsite ⊢
  subst hp
  cases q' with
  | pending rest since => exact ⟨ht, rfl, hsite⟩
  | ended fault => exact settle_matches hx hsite ht hc free fault

omit ht in
theorem noteFinding_matches (f : Option (Finding Fault)) :
    (noteFinding x a.reference s f).Matches own S H F (noteFinding x' a.reference s' f) := by
  cases f with
  | none => exact hs
  | some f => exact hs.note hx _

include henv

theorem create_matches : Matches own S H F (create env x a s) (create env x' a' s') := by
  have hr : a'.reference = a.reference := congrArg Targeted.reference ht
  have hcreate : env.create s'.trace s'.now x'.scope.capability a'.target x'.scope.config =
      env.create s.trace s.now x.scope.capability a.target x.scope.config := by
    rw [hs.now, hx.context.capability, hx.context.config, ht]
    exact henv.creates hs.trace s.now
  unfold create
  dsimp only
  rw [hcreate, hr, ht, hx.context.config]
  obtain ⟨hown, ho⟩ := henv.registers s.trace s.now
  generalize env.create s.trace s.now x.scope.capability a.target x.scope.config = c at hown ho ⊢
  have hnoted := hs.note hx (.created c.name a.target x.scope.config)
  rw [hnoted.registry.names c.name hown]
  exact register_matches hx (hnoted.note hx _) ht hown _ ho none

theorem afterWait_matches (o : Outcome Fault) :
    Matches own S H F (afterWait env x a s o) (afterWait env x' a' s' o) := by
  have hr : a'.reference = a.reference := congrArg Targeted.reference ht
  cases o with
  | ready => exact create_matches henv hx hs ht
  | cancelled =>
      rw [afterWait, afterWait, hr]
      exact finish_matches ht hs _
  | timedOut =>
      rw [afterWait, afterWait, hr, hx.context.policy]
      exact finish_matches ht (hs.note hx _) _
  | failed f =>
      rw [afterWait, afterWait, hr]
      exact finish_matches ht (hs.note hx _) _

theorem afterTurn_matches (hst : a'.stage = a.stage) (turn : Wait.Turn Fault) :
    Matches own S H F (afterTurn env x a s turn) (afterTurn env x' a' s' turn) := by
  cases turn with
  | stay w => exact ⟨ht, rfl, hs⟩
  | ask => exact ⟨ht, hst, hs⟩
  | _ => exact afterWait_matches henv hx hs ht _

omit ht in
theorem startCheck_matches (r : ResourceReference) :
    (startCheck env x' r s').1 = (startCheck env x r s).1 ∧
      (startCheck env x r s).2.Matches own S H F (startCheck env x' r s').2 := by
  have hcheck :
      env.check s'.trace s'.now r.groupVersion = env.check s.trace s.now r.groupVersion := by
    rw [hs.now]
    exact henv.checks hs.trace ..
  refine ⟨hcheck, ?_⟩
  unfold startCheck
  dsimp only
  rw [hcheck]
  refine Site.Matches.note hx ?_ _
  refine ⟨hs.now, ?_, hs.registry, hs.store, hs.trace⟩
  show F (if _ then _ else _) (if _ then _ else _)
  split
  · exact hx.fireAll
  · exact hs.fired

theorem makeCheck_matches (hst : a'.stage = a.stage) (w : Wait Fault) :
    Matches own S H F (makeCheck env x a w s) (makeCheck env x' a' w s') := by
  have hr : a'.reference = a.reference := congrArg Targeted.reference ht
  unfold makeCheck
  dsimp only
  rw [hr]
  split
  · exact afterWait_matches henv hx hs ht _
  · split
    · exact ⟨ht, rfl, hs⟩
    · obtain ⟨hcheck, hsite⟩ := startCheck_matches henv hx hs a.reference
      have hnow := hsite.now
      simp only [noteFinding_now, noteFinding_cancelled]
      rw [hcheck, hsite.cancelled hx, hnow]
      exact afterTurn_matches henv hx (noteFinding_matches hx hsite _) ht hst _

theorem awaitSchema_matches (hst : a'.stage = a.stage) (w : Wait Fault) :
    Matches own S H F (awaitSchema env x a w s) (awaitSchema env x' a' w s') := by
  have hr : a'.reference = a.reference := congrArg Targeted.reference ht
  unfold awaitSchema
  rw [hs.cancelled hx, hs.now, hr]
  split
  · exact makeCheck_matches henv hx hs ht hst w
  · exact afterTurn_matches henv hx (noteFinding_matches hx hs _) ht hst _

theorem poll_matches (hst : a'.stage = a.stage) (ha : a.Discreet own) :
    Matches own S H F (poll env x a s) (poll env x' a' s') := by
  have hr : a'.reference = a.reference := congrArg Targeted.reference ht
  unfold poll
  rw [hst, hr]
  cases hs₀ : a.stage with
  | done cause time => exact ⟨ht, hst, hs⟩
  | registering c free rest since =>
      obtain ⟨hc, ho, -⟩ := ha c free rest since hs₀
      exact register_matches hx hs ht hc free ho _
  | waiting w => exact awaitSchema_matches henv hx hs ht hst w
  | fresh =>
      dsimp only
      rw [hx.holding hs.store]
      split
      · rw [hx.context.config]
        have hactivated : Site.Matches own S H F { s with store := s.store.activate a.reference }
            { s' with store := s'.store.activate a.reference } :=
          ⟨hs.now, hs.fired, hs.registry, hx.activate hs.store, hs.trace⟩
        exact finish_matches ht (hactivated.note hx _) _
      · rw [hx.context.policy, hs.now]
        exact awaitSchema_matches henv hx hs ht hst _

/-- What cannot be told apart cannot be told apart after a look. -/
theorem look_matches (hst : a'.stage = a.stage) (ha : a.Discreet own) :
    Matches own S H F (look env x a s) (look env x' a' s') := by
  obtain ⟨_, _, _, hlook⟩ := look_eq env x a s
  obtain ⟨_, _, _, hlook'⟩ := look_eq env x' a' s'
  obtain ⟨ht', hst', hs'⟩ := poll_matches henv hx hs ht hst ha
  rw [hlook, hlook']
  exact ⟨ht', hst', hs'.now, hs'.fired, hs'.registry, hs'.store, hs'.trace⟩

end Matches

end Attempt

/-! ## What looks the same to an attempt -/

omit [Targeted T] in
/-- Two contexts of attempts for one call. -/
structure Context.Like (x x' : Context C) : Prop extends x.Matches x' where
  call : x'.scope.call = x.scope.call
  activator : x'.scope.activator = x.scope.activator

/-- Two sites that are the same for an attempt of an activator for a reference, whose
controllers have certain names. -/
abbrev Site.Like (own : String → Prop) (k : Nat) (r : ResourceReference) (s s' : Site C T) :
    Prop :=
  s.Matches own (fun t t' => t'.get? r = t.get? r)
    (fun t t' => Trace.acts t' k r = Trace.acts t k r) (fun f f' => f' = f) s'

namespace Site.Like

variable {own : String → Prop} {k : Nat} {r : ResourceReference} {s s' s'' : Site C T}

theorem refl (s : Site C T) : s.Like own k r s := ⟨rfl, rfl, .refl _, rfl, rfl⟩

theorem trans (h : s.Like own k r s') (h' : s'.Like own k r s'') : s.Like own k r s'' :=
  ⟨h'.now.trans h.now, h'.fired.trans h.fired, h.registry.trans h'.registry,
    h'.store.trans h.store, h'.trace.trans h.trace⟩

theorem symm (h : s.Like own k r s') : s'.Like own k r s :=
  ⟨h.now.symm, h.fired.symm, h.registry.symm, h.store.symm, h.trace.symm⟩

end Site.Like

/-- An attempt sees of the store what is held for its reference, and of the trace what was
done about it. -/
theorem Context.Like.sight {x x' : Context C} (hx : x.Like x') (r : ResourceReference) :
    Sight (T := T) x x' r (fun t t' => t'.get? r = t.get? r)
      (fun t t' => Trace.acts t' x.scope.activator r = Trace.acts t x.scope.activator r)
      (fun f f' => f' = f) where
  context := hx.toMatches
  holding h := h
  install _ c := by rw [Store.get?_install, Store.get?_install, if_pos rfl, if_pos rfl]
  activate h := by rw [Store.get?_activate, Store.get?_activate, h]
  note {t t'} h time what := by
    rw [Trace.acts_cons, Trace.acts_cons, h]
    cases ha : what.act? with
    | none => simp [Entry.act?, ha]
    | some p => simp [Entry.act?, ha, hx.call, hx.activator]
  hits h := by rw [h, hx.call]
  fire h whole := by rw [h, hx.call]
  fireAll := rfl

/-- Two attempts for a target, each with its site, that stand the same. -/
abbrev Attempt.Alike (own : String → Prop) (k : Nat) (r : ResourceReference)
    (p p' : Attempt T × Site C T) : Prop :=
  Attempt.Matches own (fun t t' => t'.get? r = t.get? r)
    (fun t t' => Trace.acts t' k r = Trace.acts t k r) (fun f f' => f' = f) p p'

/-- Each target is kept apart by collaborators for which the targets are independent. -/
theorem Collaborators.Independent.regards {env : Collaborators C T} {x : Scope C}
    {targets : List T} (henv : env.Independent x.activator x.capability x.config targets) {t : T}
    (ht : t ∈ targets) : env.Regards x t (env.Bears x.capability x.config t)
      (fun tr tr' => Trace.acts tr' x.activator (reference t) =
        Trace.acts tr x.activator (reference t)) where
  checks _ _ _ := henv.checks ..
  creates h now := henv.creates t ht _ _ now h
  registers tr now := ⟨⟨tr, now, rfl⟩, (henv.registers t ht tr now).1⟩

namespace Attempt

/-- What stands the same stands the same after a look. -/
theorem look_same {env : Collaborators C T} {targets : List T} {x x' : Context C} {s s' : Site C T}
    {a a' : Attempt T} (henv : env.Independent x.scope.activator x.scope.capability x.scope.config
      targets) (hmem : a.target ∈ targets) (hx : x.Like x')
    (hs : s.Like (env.Bears x.scope.capability x.scope.config a.target) x.scope.activator
      a.reference s') (ht : a'.target = a.target) (hst : a'.stage = a.stage)
    (htidy : a.Tidy (env.Bears x.scope.capability x.scope.config a.target)) :
    Alike (env.Bears x.scope.capability x.scope.config a.target) x.scope.activator a.reference
      (look env x a s) (look env x' a' s') :=
  look_matches (henv.regards hmem) (hx.sight a.reference) hs ht hst htidy.discreet

/-! ## Looks at others -/

/-- What a step of an attempt leaves as it was for attempts of other calls whose controllers
have other names. -/
structure Spared (own : String → Prop) (i : Nat) (s s' : Site C T) : Prop where
  fired : ∀ j, j ≠ i → s'.fired.hits j = s.fired.hits j
  registry : ∀ others : String → Prop, (∀ n, own n → ¬ others n) →
    s.registry.Like others s'.registry

section Spared

variable {own : String → Prop} {i : Nat} {s s' s'' : Site C T}

omit [Targeted T]

theorem Spared.of_eq (hf : ∀ j, j ≠ i → s'.fired.hits j = s.fired.hits j)
    (hg : s'.registry = s.registry) : Spared own i s s' := by
  refine ⟨hf, fun _ _ => ?_⟩
  rw [hg]
  exact .refl _

theorem Spared.trans (h : Spared own i s s') (h' : Spared own i s' s'') : Spared own i s s'' :=
  ⟨fun j hj => (h'.fired j hj).trans (h.fired j hj),
    fun others ho => (h.registry others ho).trans (h'.registry others ho)⟩

theorem Spared.release {c : String} (hc : own c) (x : Context C) (r : ResourceReference)
    (free : Bool) (s : Site C T) : Spared own i s (release x r c free s) := by
  rcases release_cases x r c free s with h | ⟨g, hg, h⟩ <;> rw [h]
  · exact .of_eq (fun _ _ => rfl) rfl
  · exact ⟨fun _ _ => rfl, fun others ho => .of_abort (ho c hc) hg⟩

end Spared

section Discreet

variable {env : Collaborators C T} {x : Context C} {p q : Attempt T × Site C T}
  {own : String → Prop}

/-- An attempt stays discreet if the controllers of its target are. -/
theorem Step.discreet (h : Step env x p q) (hp : p.1.Discreet own)
    (hcreate : ∀ tr now, let c := env.create tr now x.scope.capability p.1.target x.scope.config
      own c.name ∧ c.registration.spawnsOnly c.name ∧ c.registration.keepsToCall) :
    q.1.Discreet own := by
  cases h with
  | draw => exact hp
  | create _ _ _ _ _ _ _ hk =>
      intro c free rest since hr
      cases hr
      rw [hk]
      exact hcreate ..
  | register hr hs =>
      intro c free rest' since hr'
      cases hr'
      obtain ⟨hc, ho, hkeeps⟩ := hp _ _ _ _ hr
      exact ⟨hc, hs.spawnsOnly ho, hs.keepsToCall hkeeps⟩
  | _ =>
      intro c free rest since hr
      cases hr

/-- A discreet attempt leaves other names and other calls alone. -/
theorem Step.spares (h : Step env x p q) (hp : p.1.Discreet own)
    (hquiet : ∀ tr now gv, (env.check tr now gv).cancels = false) :
    Spared own x.scope.call p.2 q.2 := by
  have hsame : ∀ {s s' : Site C T}, s'.fired = s.fired → s'.registry = s.registry →
      Spared own x.scope.call s s' := fun hf => .of_eq fun _ _ => by rw [hf]
  cases h with
  | probe =>
      refine hsame ?_ rfl
      simp [startCheck, hquiet, Site.note]
  | create _ _ _ _ _ _ hs =>
      subst hs
      exact hsame rfl rfl
  | register hr hs =>
      obtain ⟨hc, ho, hkeeps⟩ := hp _ _ _ _ hr
      cases hs with
      | spawn h | spawnOr h =>
          simp only [Registration.spawnsOnly, Bool.and_eq_true, decide_eq_true_eq] at ho
          refine ⟨fun _ _ => rfl, fun others hn => .of_spawn (hn _ ?_) h⟩
          simp_all
      | cancel =>
          simp only [Registration.keepsToCall, Bool.and_eq_true, Bool.not_eq_true'] at hkeeps
          refine .of_eq (fun j hj => ?_) rfl
          simp [hkeeps.1, hj]
      | refused | synced | wake => exact hsame rfl rfl
  | refuse hr =>
      refine (Spared.trans ?_ (.release (hp _ _ _ _ hr).1 x _ _ _)).trans (hsame rfl rfl)
      exact hsame rfl rfl
  | revoke hr =>
      refine .trans ?_ (.release (hp _ _ _ _ hr).1 x _ _ _)
      exact hsame rfl rfl
  | _ => exact hsame rfl rfl

/-- An attempt whose controllers cancel no calls stays silent. -/
theorem Step.silent (h : Step env x p q) (hp : p.1.Silent)
    (hcreate : ∀ tr now,
      (env.create tr now x.scope.capability p.1.target x.scope.config).registration.isSilent) :
    q.1.Silent := by
  intro c free rest since hr
  cases h with
  | draw => exact hp _ _ _ _ hr
  | create _ _ _ _ _ _ _ hk =>
      cases hr
      rw [hk]
      exact hcreate ..
  | register hr' hs =>
      cases hr
      exact (hs.silent (hp _ _ _ _ hr')).1
  | _ => cases hr

theorem Step.fired_eq (h : Step env x p q) (hp : p.1.Silent)
    (hquiet : ∀ tr now gv, (env.check tr now gv).cancels = false) : q.2.fired = p.2.fired := by
  cases h with
  | probe => simp [startCheck, hquiet, Site.note]
  | create _ _ _ _ _ _ hs =>
      subst hs
      rfl
  | register hr hs => exact (hs.silent (hp _ _ _ _ hr)).2
  | refuse | revoke => exact release_fired ..
  | _ => rfl

/-- Waits keep their pace. -/
theorem Step.paced (h : Step env x p q) (hpolicy : 0 < x.policy.pollInterval.ceilMillis)
    (hp : ∀ w, p.1.stage = .waiting w → 0 < w.interval) :
    ∀ w, q.1.stage = .waiting w → 0 < w.interval := by
  intro w' hw'
  cases h with
  | draw => exact hp w' hw'
  | wait =>
      cases hw'
      exact hpolicy
  | ask hw | probe hw | miss hw =>
      have hpaced := hp _ hw
      cases hw'
      exact hpaced
  | _ => cases hw'

/-- Whatever a discreet attempt does, it leaves other names and other calls alone. -/
theorem Steps.spares (h : Steps env x p q) (hp : p.1.Discreet own)
    (hcreate : ∀ tr now, let c := env.create tr now x.scope.capability p.1.target x.scope.config
      own c.name ∧ c.registration.spawnsOnly c.name ∧ c.registration.keepsToCall)
    (hquiet : ∀ tr now gv, (env.check tr now gv).cancels = false) :
    q.1.Discreet own ∧ Spared own x.scope.call p.2 q.2 := by
  induction h with
  | refl => exact ⟨hp, .of_eq (fun _ _ => rfl) rfl⟩
  | @tail q _ h hs ih =>
      obtain ⟨hq, hspared⟩ := ih
      refine ⟨hs.discreet hq fun tr now => ?_, hspared.trans (hs.spares hq hquiet)⟩
      rw [Steps.target_eq h]
      exact hcreate tr now

theorem Steps.silent (h : Steps env x p q) (hp : p.1.Silent)
    (hcreate : ∀ tr now,
      (env.create tr now x.scope.capability p.1.target x.scope.config).registration.isSilent)
    (hquiet : ∀ tr now gv, (env.check tr now gv).cancels = false) :
    q.1.Silent ∧ q.2.fired = p.2.fired := by
  induction h with
  | refl => exact ⟨hp, rfl⟩
  | @tail q _ h hs ih =>
      obtain ⟨hq, hfired⟩ := ih
      exact ⟨hs.silent hq (by rwa [Steps.target_eq h]), (hs.fired_eq hq hquiet).trans hfired⟩

theorem Steps.paced (h : Steps env x p q) (hpolicy : 0 < x.policy.pollInterval.ceilMillis)
    (hp : ∀ w, p.1.stage = .waiting w → 0 < w.interval) :
    ∀ w, q.1.stage = .waiting w → 0 < w.interval := by
  induction h with
  | refl => exact hp
  | tail _ hs ih => exact hs.paced hpolicy ih

end Discreet

section Frame

variable {env : Collaborators C T} {targets : List T} {x : Context C}
  (henv : env.Independent x.scope.activator x.scope.capability x.scope.config targets)
  (hpolicy : 0 < x.policy.pollInterval.ceilMillis)

include henv hpolicy

theorem look_spared {a : Attempt T} (hmem : a.target ∈ targets) (s : Site C T)
    (htidy : a.Tidy (env.Bears x.scope.capability x.scope.config a.target)) :
    (look env x a s).1.Tidy (env.Bears x.scope.capability x.scope.config a.target) ∧
      (look env x a s).2.fired = s.fired ∧
      Spared (env.Bears x.scope.capability x.scope.config a.target) x.scope.call s
        (look env x a s).2 := by
  have hsteps := look_steps env x a s
  have hregisters := henv.registers _ hmem
  obtain ⟨hdiscreet, hspared⟩ := Steps.spares hsteps htidy.discreet
    (fun tr now => ⟨⟨tr, now, rfl⟩, (hregisters tr now).1,
      Registration.keepsToCall_of_isSilent (hregisters tr now).2⟩) henv.quiet
  obtain ⟨hsilent, hfired⟩ := Steps.silent hsteps htidy.silent
    (fun tr now => (hregisters tr now).2) henv.quiet
  exact ⟨⟨hdiscreet, hsilent, Steps.paced hsteps hpolicy htidy.paced⟩, hfired, hspared⟩

/-- A look at an attempt changes nothing for attempts at other targets. -/
theorem look_like {a : Attempt T} (hmem : a.target ∈ targets) (s : Site C T)
    (htidy : a.Tidy (env.Bears x.scope.capability x.scope.config a.target)) {t : T}
    (ht : t ∈ targets) (hne : a.reference ≠ Targeted.reference t) :
    s.Like (env.Bears x.scope.capability x.scope.config t) x.scope.activator
      (Targeted.reference t) (look env x a s).2 := by
  have hsteps := look_steps env x a s
  obtain ⟨-, hfired, hspared⟩ := look_spared henv hpolicy hmem s htidy
  exact ⟨Steps.now_eq hsteps, hfired,
    hspared.registry _ (henv.names a.target hmem t ht hne),
    Steps.get?_of_ne hsteps hne, Steps.acts_of_ne hsteps fun _ => hne⟩

end Frame

end Attempt

end Lifecycle
