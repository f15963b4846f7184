import Lifecycle.Proofs.Names
import Lifecycle.Proofs.Progress

/-!
# Held names are in use

At every instant of a run without aborts, also in the middle of calls, a name that the
registry holds is an outsider's, or the name of the controller that some reference has,
or of the one that an attempt is registering (`World.InUse`). So a name that was made
for a reference is free whenever the reference has no use for it, whatever became of the
attempt for which it was made (`InUse.isRegistered_eq_false`).

That needs the names to be kept apart, which is the users' part: `Trace.Apart` says of
everything that happened that a controller's name was used for one reference of one
activator only and by no outsider. What carries the proof is that an attempt's name is
then nobody else's. A step of an attempt leaves the names in use as they are, claims one
when it makes a controller, or gives one back when a registration ends badly
(`Attempt.Uses`). The last case decides: from then on the name is nobody's, so the loop
under it must go in the same step. It does, because the name was free when the
registration began, and it was free because the invariant held before.

Nothing is said here about loops that are missing, so registrations may end well without
having started one.
-/

namespace Lifecycle

variable {C T : Type}

/-- Controllers start loops under their own names only. -/
def Collaborators.KeepsNames (env : Collaborators C T) : Prop :=
  ∀ t now capability target config,
    let c := env.create t now capability target config
    c.registration.spawnsOnly c.name

/-! ## One reference -/

/-- The name of the controller that registers. -/
def Attempt.name? (a : Attempt T) : Option String :=
  match a.stage with
  | .registering c .. => some c
  | _ => none

/-- The names that a reference has in use: that of its controller, or that of a
controller that registers for it. -/
def Standing.Names (u : Standing T) (n : String) : Prop :=
  u.holding.map Holding.controller = some n ∨ u.attempt.bind Attempt.name? = some n

/-- An attempt that waits or registers found no controller. The name of one that
registers was free, and is the only one that it takes. -/
def Attempt.Liable (h? : Option Holding) (a : Attempt T) : Prop :=
  match a.stage with
  | .waiting _ => h? = none
  | .registering c free rest _ => h? = none ∧ free = true ∧ rest.spawnsOnly c = true
  | _ => True

theorem Attempt.Liable.spawnsOnly {h? : Option Holding} {a : Attempt T} (ha : a.Liable h?)
    (c : String) (free : Bool) (rest : Registration) (since : Nat)
    (hr : a.stage = .registering c free rest since) : rest.spawnsOnly c := by
  simp only [Attempt.Liable, hr] at ha
  exact ha.2.2

/-- The names that a reference has in use are those of controllers that were made
for it. -/
structure Standing.Liable (u : Standing T) : Prop where
  known : ∀ n, u.Names n → ∃ i, (i, .created n) ∈ u.acts
  attempt : ∀ a, u.attempt = some a → a.Liable u.holding

namespace Standing

variable {u : Standing T}

theorem names_of_left {n : String} (h : u.left.Names n) : u.Names n :=
  .inl (by simpa [Names, left] using h)

/-- A call that is over had no controller that registers. -/
theorem names_left (hd : ∀ a, u.attempt = some a → a.isDone) (n : String) :
    u.left.Names n ↔ u.Names n := by
  have hnone : u.attempt.bind Attempt.name? = none := by
    rw [Option.bind_eq_none_iff]
    intro a ha
    have hdone := hd a ha
    unfold Attempt.isDone at hdone
    unfold Attempt.name?
    split <;> simp_all
  simp [Names, left, hnone]

theorem Liable.left (h : u.Liable) : u.left.Liable :=
  ⟨fun n hn => h.known n (names_of_left hn), nofun⟩

variable [Targeted T]

/-- Switching a controller off does not change its name. -/
theorem names_begun (i : Nat) (targets : List T) (r : ResourceReference) (ha : u.attempt = none)
    (n : String) : (u.begun i targets r).Names n ↔ u.Names n := by
  have hholding : (u.begun i targets r).holding.map Holding.controller =
      u.holding.map Holding.controller := by
    rw [begun, Option.map_map]
    refine Option.map_congr fun h _ => ?_
    dsimp only [Function.comp_apply]
    split <;> rfl
  have hnone : (u.begun i targets r).attempt.bind Attempt.name? = none := by
    rw [Option.bind_eq_none_iff]
    exact fun a hb => by simp [Attempt.name?, stage_begun hb]
  rw [Names, Names, hholding, hnone, ha]
  rfl

theorem Liable.begun (h : u.Liable) (i : Nat) (targets : List T) (r : ResourceReference)
    (ha : u.attempt = none) : (u.begun i targets r).Liable := by
  refine ⟨fun n hn => ?_, fun a hb => ?_⟩
  · obtain ⟨j, hj⟩ := h.known n ((names_begun i targets r ha n).1 hn)
    exact ⟨j, List.mem_append_left _ hj⟩
  · simp [Attempt.Liable, stage_begun hb]

end Standing

/-! ## One step of an attempt -/

/-- An attempt that ends badly frees its controller's name and no other. -/
theorem isRegistered_release (x : Context C) (r : ResourceReference) (c : String) (s : Site C T)
    (n : String) : (Attempt.release x r c true s).registry.isRegistered n ↔
      n ≠ c ∧ s.registry.isRegistered n := by
  rw [Registry.isRegistered_iff, (Attempt.release_held x r c true s).1, if_pos rfl,
    Registry.isRegistered_iff]
  simp only [List.mem_map, List.mem_filter, decide_eq_true_eq]
  constructor
  · rintro ⟨p, ⟨hp, hne⟩, rfl⟩
    exact ⟨hne, p, hp, rfl⟩
  · rintro ⟨hne, p, hp, rfl⟩
    exact ⟨p, ⟨hp, hne⟩, rfl⟩

section Step

variable [Targeted T] {env : Collaborators C T} {x : Context C} {a b : Attempt T}
  {s s' : Site C T}

/-- An attempt that registers takes and frees its controller's name only. -/
theorem Attempt.Holds.isRegistered_of_ne (h : Attempt.Holds x a s b s') {n : String}
    (ha : ∀ c free rest since, a.stage = .registering c free rest since → rest.spawnsOnly c)
    (hn : a.name? ≠ some n) : s'.registry.isRegistered n ↔ s.registry.isRegistered n := by
  cases h with
  | still h => rw [h.1]
  | start hs _ hname hspawn _ =>
      simp only [Attempt.name?, hs, ne_eq, Option.some.injEq] at hn
      rw [Registry.isRegistered_of_spawn hspawn, hname (ha _ _ _ _ hs)]
      simp [Ne.symm hn]
  | free hs _ hh _ _ =>
      simp only [Attempt.name?, hs, ne_eq, Option.some.injEq] at hn
      simp only [Registry.isRegistered_iff, hh, List.mem_map, List.mem_filter,
        decide_eq_true_eq]
      constructor
      · rintro ⟨p, ⟨hp, -⟩, hpn⟩
        exact ⟨p, hp, hpn⟩
      · rintro ⟨p, hp, rfl⟩
        exact ⟨p, ⟨hp, Ne.symm hn⟩, rfl⟩

/-- A step of an attempt is no start by an outsider. -/
theorem Attempt.Holds.foreign_eq (h : Attempt.Holds x a s b s') :
    Trace.foreign s'.trace = Trace.foreign s.trace := by
  cases h with
  | still h => rw [Trace.foreign, h.2, Trace.foreign]
  | start _ _ _ _ ht => simp [Trace.foreign, ht]
  | free _ _ _ _ ht => rw [Trace.foreign, ht, Trace.foreign]

/-- The names that are in use for an attempt, with what is held for its reference. -/
def Attempt.Uses (a : Attempt T) (s : Site C T) (n : String) : Prop :=
  (s.store.get? a.reference).map Holding.controller = some n ∨ a.name? = some n

/-- An attempt stays liable if a name that it claims is free. -/
theorem Attempt.Step.liable (hd : env.KeepsNames) (h : Attempt.Step env x (a, s) (b, s'))
    (ha : a.Liable (s.store.get? a.reference))
    (hfree : ∀ n, b.name? = some n → (∀ m, ¬ a.Uses s m) → s.registry.isRegistered n = false) :
    b.Liable (s'.store.get? a.reference) := by
  cases h with
  | draw => exact ha
  | wait _ hg => exact hg
  | ask hw | probe hw | miss hw =>
      simp only [Attempt.Liable, hw] at ha
      exact ha
  | @create _ _ _ _ _ s₁ c hw _ _ _ _ _ hs hc =>
      subst hs
      simp only [Attempt.Liable, hw] at ha
      have hnew := hfree c.name rfl fun m => by simp [Uses, ha, Attempt.name?, hw]
      refine ⟨ha, by simp [hnew], ?_⟩
      rw [hc]
      exact hd ..
  | register hr hs =>
      simp only [Attempt.Liable, hr] at ha
      rw [hs.store_eq]
      exact ⟨ha.1, ha.2.1, hs.spawnsOnly ha.2.2⟩
  | _ => trivial

/-- How the names in use for an attempt change in a step, and the held names with them. -/
inductive Attempt.Turnover (x : Context C) (a : Attempt T) (s : Site C T) (b : Attempt T)
    (s' : Site C T) : Prop where
  /-- At most one of them is taken. -/
  | keep (hu : ∀ n, b.Uses s' n ↔ a.Uses s n)
      (hg : ∀ n, s'.registry.isRegistered n → s.registry.isRegistered n ∨ a.Uses s n)
  | claim {c} (hu : ∀ n, ¬ a.Uses s n) (hu' : ∀ n, b.Uses s' n ↔ n = c)
      (hg : s'.registry = s.registry)
      (hc : ∀ k, x.scope.activator = k →
        (x.scope.call, .created c) ∈ Trace.acts s'.trace k a.reference)
  /-- The name is free from now on. -/
  | yield {c} (hu : ∀ n, a.Uses s n → n = c) (hu' : ∀ n, ¬ b.Uses s' n)
      (hg : ∀ n, s'.registry.isRegistered n → n ≠ c ∧ s.registry.isRegistered n)

theorem Attempt.Step.turnover (h : Attempt.Step env x (a, s) (b, s'))
    (ha : a.Liable (s.store.get? a.reference)) : Attempt.Turnover x a s b s' := by
  -- Most steps change neither the names in use nor the held ones.
  have hstill : s'.store.get? b.reference = s.store.get? a.reference → b.name? = a.name? →
      s'.registry = s.registry → Attempt.Turnover x a s b s' := by
    intro hstore hname hg
    refine .keep (fun n => ?_) fun n hn => .inl (hg ▸ hn)
    rw [Uses, Uses, hstore, hname]
  have hends : ∀ {c free rest since} (s₁ : Site C T), a.stage = .registering c free rest since →
      s₁.registry = s.registry → s'.registry = (release x a.reference c free s₁).registry →
      s'.store = s.store → b.reference = a.reference → b.name? = none →
      Attempt.Turnover x a s b s' := by
    intro c free rest since s₁ hr hg₁ hg hstore href hname
    simp only [Attempt.Liable, hr] at ha
    obtain ⟨hnone, rfl, -⟩ := ha
    refine .yield (c := c) (fun n hn => ?_) (fun n hn => ?_) fun n hn => ?_
    · simpa [Uses, hnone, Attempt.name?, hr, eq_comm] using hn
    · simp [Uses, hstore, href, hnone, hname] at hn
    · rwa [hg, isRegistered_release, hg₁] at hn
  cases h with
  | draw => exact hstill rfl rfl rfl
  | @update _ _ h hf hg =>
      refine .keep (fun n => ?_) fun n hn => .inl hn
      have hstore : (s.store.activate a.reference).get? a.reference =
          some { h with active := true } := by
        rw [Store.get?_activate, hg]
        simp
      show (((s.store.activate a.reference).get? a.reference).map Holding.controller = some n ∨ _) ↔ _
      rw [hstore, Uses, hg]
      simp [Attempt.name?, hf, Attempt.finish]
  | wait hf => exact hstill rfl (by simp [Attempt.name?, hf]) rfl
  | ask hw | probe hw | miss hw => exact hstill rfl (by simp [Attempt.name?, hw]) rfl
  | unaskable hw | giveUp hw | expire hw | fail hw =>
      exact hstill rfl (by simp [Attempt.name?, hw, Attempt.finish]) rfl
  | @create _ _ _ _ _ s₁ c hw _ _ _ _ _ hs =>
      subst hs
      simp only [Attempt.Liable, hw] at ha
      refine .claim (c := c.name) (fun n => ?_) (fun n => ?_) rfl fun k hk => ?_
      · simp [Uses, ha, Attempt.name?, hw]
      · show ((s.store.get? a.reference).map Holding.controller = some n ∨ _) ↔ _
        simp [ha, Attempt.name?, eq_comm]
      · rw [acts_note_self hk rfl, acts_note_self hk rfl]
        simp
  | @register _ _ c free rest since rest' s' hr hs =>
      simp only [Attempt.Liable, hr] at ha
      refine .keep (fun n => ?_) fun n hn => ?_
      · show ((s'.store.get? a.reference).map Holding.controller = some n ∨ _) ↔ _
        rw [hs.store_eq, Uses]
        simp [Attempt.name?, hr]
      · rcases hs.loops with ⟨hstill, -⟩ | ⟨name, body, hname, hspawn, -⟩
        · exact .inl (hstill.1 ▸ hn)
        · obtain rfl := hname ha.2.2
          refine ((Registry.isRegistered_of_spawn hspawn n).1 hn).symm.imp_right ?_
          rintro rfl
          exact .inr (by simp [Attempt.name?, hr])
  | @install _ _ c _ _ _ hr =>
      simp only [Attempt.Liable, hr] at ha
      refine .keep (fun n => ?_) fun n hn => .inl hn
      show (((s.store.install a.reference c).get? a.reference).map Holding.controller = some n ∨ _)
        ↔ _
      rw [Store.get?_install, if_pos rfl, Uses, ha.1]
      simp [Attempt.name?, hr, Attempt.finish]
  | @refuse _ _ c _ _ _ f hr =>
      exact hends (s.note x (.returned c a.reference (some f) false)) hr rfl rfl
        (release_store ..) rfl rfl
  | @revoke _ _ c _ _ _ fault hr =>
      exact hends (s.note x (.returned c a.reference fault true)) hr rfl rfl
        (release_store ..) rfl rfl

/-- A reference and the registry change together: the reference stays liable, and a name
that is held then is its own, or was held before and not by it. -/
theorem Attempt.Step.accounts (hd : env.KeepsNames) (h : Attempt.Step env x (a, s) (b, s'))
    {k : Nat} (hk : x.scope.activator = k) {u u' : Standing T}
    (hu : u = ⟨s.store.get? a.reference, some x.scope.call, some a,
      Trace.acts s.trace k a.reference⟩)
    (hu' : u' = ⟨s'.store.get? a.reference, some x.scope.call, some b,
      Trace.acts s'.trace k a.reference⟩)
    (hliable : u.Liable)
    (hfree : ∀ n i, (i, .created n) ∈ u'.acts → ¬ u.Names n → s.registry.isRegistered n = false) :
    u'.Liable ∧
      ∀ n, s'.registry.isRegistered n → u'.Names n ∨ (s.registry.isRegistered n ∧ ¬ u.Names n) := by
  have href : b.reference = a.reference := congrArg Targeted.reference h.target_eq
  have hacts : u.acts ⊆ u'.acts := by
    rw [hu, hu']
    exact acts_subset h.trace_suffix
  have ha : a.Liable (s.store.get? a.reference) := by
    have ha := hliable.attempt a (by rw [hu])
    rwa [hu] at ha
  have hnames : ∀ n, u.Names n ↔ a.Uses s n := fun n => by rw [hu]; rfl
  have hnames' : ∀ n, u'.Names n ↔ b.Uses s' n := fun n => by
    rw [hu', Attempt.Uses, href]
    rfl
  have hturnover := h.turnover ha
  have hknown : ∀ n, u'.Names n → ∃ i, (i, .created n) ∈ u'.acts := by
    intro n hn
    rw [hnames'] at hn
    cases hturnover with
    | keep huses =>
        obtain ⟨i, hi⟩ := hliable.known n ((hnames n).2 ((huses n).1 hn))
        exact ⟨i, hacts hi⟩
    | claim _ huses' _ hc =>
        obtain rfl := (huses' n).1 hn
        exact ⟨_, by rw [hu']; exact hc k hk⟩
    | yield _ hnone => exact (hnone n hn).elim
  refine ⟨⟨hknown, ?_⟩, fun n hn => ?_⟩
  · rw [hu']
    rintro _ ⟨⟩
    refine h.liable hd ha fun n hb hunused => ?_
    obtain ⟨i, hi⟩ := hknown n ((hnames' n).2 (.inr hb))
    exact hfree n i hi fun hn => hunused n ((hnames n).1 hn)
  · cases hturnover with
    | keep huses hg =>
        by_cases hun : u.Names n
        · exact .inl ((hnames' n).2 ((huses n).2 ((hnames n).1 hun)))
        · exact .inr ⟨(hg n hn).resolve_right fun h => hun ((hnames n).2 h), hun⟩
    | claim hunused _ hg => exact .inr ⟨hg ▸ hn, fun h => hunused n ((hnames n).1 h)⟩
    | yield huses _ hg => exact .inr ⟨(hg n hn).2, fun h => (hg n hn).1 (huses n ((hnames n).1 h))⟩

end Step

/-! ## The whole world -/

/-- Whether a move lets calls run to their ends and frees no name from outside. -/
def Move.isPeaceful : Move C T → Bool
  | .drop _ | .abort _ | .turnShutdown _ => false
  | _ => true

namespace World

variable [Targeted T]

/-- A held name is an outsider's, or in use for a reference. -/
structure InUse (w : World C T) : Prop where
  units : ∀ k r, (w.standing k r).Liable
  owned : ∀ n, w.registry.isRegistered n →
    n ∈ Trace.foreign w.trace ∨ ∃ k r, (w.standing k r).Names n

theorem inUse_ofActivators (as : List (String × Policy)) :
    (ofActivators as : World C T).InUse := by
  refine ⟨fun k r => ?_, nofun⟩
  rw [standing_ofActivators]
  refine ⟨fun n hn => ?_, nofun⟩
  rcases hn with hn | hn <;> cases hn

section Apart

variable {w : World C T} (hw : w.InUse) {t : Trace C T} (ht : w.trace <:+ t)
  (hapart : Trace.Apart t) {n : String}

include hw ht hapart

/-- A name in use belongs to one reference. -/
theorem InUse.eq_of_names {k k' i : Nat} {r r' : ResourceReference}
    (hn : (w.standing k r).Names n) (hi : (i, .created n) ∈ Trace.acts t k' r') :
    k = k' ∧ r = r' := by
  obtain ⟨j, hj⟩ := (hw.units k r).known n hn
  exact hapart.unit_eq (acts_subset ht hj) hi

/-- A name in use is no outsider's. -/
theorem InUse.not_mem_foreign {k : Nat} {r : ResourceReference}
    (hn : (w.standing k r).Names n) : n ∉ Trace.foreign t := by
  obtain ⟨j, hj⟩ := (hw.units k r).known n hn
  exact hapart.not_mem_foreign (acts_subset ht hj)

/-- A name that was made for a reference is free unless the reference has it in use. -/
theorem InUse.isRegistered_eq_false {k i : Nat} {r : ResourceReference}
    (hi : (i, .created n) ∈ Trace.acts t k r) (hn : ¬ (w.standing k r).Names n) :
    w.registry.isRegistered n = false := by
  rw [Bool.eq_false_iff]
  intro hreg
  rcases hw.owned n hreg with hforeign | ⟨k', r', hkr⟩
  · exact hapart.not_mem_foreign hi (foreign_subset ht hforeign)
  · obtain ⟨rfl, rfl⟩ := hw.eq_of_names ht hapart hkr hi
    exact hn hkr

end Apart

section Put

variable {env : Collaborators C T} {w : World C T} {i j : Nat} {c : Call C T} {a : Activator}
  {as : List (Attempt T)} {t : Attempt T} {p : Attempt T × Site C T}
  (hw : w.Orderly) (huse : w.InUse) (hf : w.find? i = some (c, a)) (hs : c.stage = .working as)
  (ht : as[j]? = some t) (hp : Attempt.Step env (context a i c) (t, w.site a) p)

include hw huse hf hs ht hp

/-- An attempt takes and frees no name but its own. -/
theorem InUse.isRegistered_put {n : String}
    (hn : ¬ (w.standing c.activator t.reference).Names n) :
    (w.put i c as j p).registry.isRegistered n ↔ w.registry.isRegistered n := by
  have hu := standing_of_working hw hf hs (List.mem_of_getElem? ht)
  have ha := (huse.units c.activator t.reference).attempt t (by rw [hu])
  refine hp.holds.isRegistered_of_ne ha.spawnsOnly fun hname => hn (.inr ?_)
  rw [hu]
  exact hname

theorem inUse_put (hd : env.KeepsNames) (hapart : Trace.Apart (w.put i c as j p).trace) :
    (w.put i c as j p).InUse := by
  obtain ⟨b, s⟩ := p
  have hstep : Step env (.look i j) w (w.put i c as j (b, s)) := .look hf hs ht hp
  have hw' := orderly_step hstep hw
  have hu := standing_of_working hw hf hs (List.mem_of_getElem? ht)
  have hu' := standing_put hw' hf ht (.single hp)
  have hother : ∀ {k r}, (c.activator = k → t.reference ≠ r) →
      (w.put i c as j (b, s)).standing k r = w.standing k r :=
    standing_put_of_ne hw hw' hf hs ht (.single hp)
  obtain ⟨hliable, howned⟩ := hp.accounts hd rfl hu hu' (huse.units ..)
    fun n i' hi' hn => huse.isRegistered_eq_false hstep.trace_suffix hapart hi' hn
  refine ⟨fun k r => ?_, fun n hn => ?_⟩
  · by_cases hkr : c.activator = k ∧ t.reference = r
    · obtain ⟨rfl, rfl⟩ := hkr
      exact hliable
    · rw [hother fun hk hr => hkr ⟨hk, hr⟩]
      exact huse.units k r
  · rcases howned n hn with hn | ⟨hn, hnot⟩
    · exact .inr ⟨_, _, hn⟩
    · rcases huse.owned n hn with hn | ⟨k, r, hkr⟩
      · exact .inl (foreign_subset hstep.trace_suffix hn)
      · refine .inr ⟨k, r, ?_⟩
        rw [hother]
        · exact hkr
        · rintro rfl rfl
          exact hnot hkr

end Put

/-- Other moves than looks take names for outsiders only. -/
theorem LoopEffect.isRegistered {env : Collaborators C T} {m : Move C T} {w w' : World C T}
    (h : LoopEffect env m w w') (hm : m.isPeaceful) (hlook : ∀ i j, m ≠ .look i j) {n : String}
    (hn : n ∉ Trace.foreign w'.trace) :
    w'.registry.isRegistered n ↔ w.registry.isRegistered n := by
  cases h with
  | look => exact absurd rfl (hlook _ _)
  | free hm' => cases m <;> simp [Move.isPeaceful, Move.isIntervention] at hm hm'
  | still _ hh => rw [Registry.isRegistered_iff, Registry.isRegistered_iff, hh]
  | @start _ _ name body g hs hh _ ht =>
      rw [Registry.isRegistered_iff, hh, ← Registry.isRegistered_iff,
        Registry.isRegistered_of_spawn hs, or_iff_right]
      rintro rfl
      exact hn (by simp [Trace.foreign, ht])

/-- Other moves than looks leave the names in use as they are. -/
theorem Step.liable {env : Collaborators C T} {m : Move C T} {w w' : World C T}
    (h : Step env m w w') (hm : m.isPeaceful) (hlook : ∀ i j, m ≠ .look i j) (hw : w.Orderly)
    {k : Nat} {r : ResourceReference} (hu : (w.standing k r).Liable) :
    (w'.standing k r).Liable ∧ ∀ n, (w'.standing k r).Names n ↔ (w.standing k r).Names n := by
  cases h.effect hw k r with
  | same heq =>
      rw [heq]
      exact ⟨hu, fun _ => .rfl⟩
  | begin _ _ _ hn heq =>
      have hnone : (w.standing k r).attempt = none := by rw [standing, hn]; rfl
      rw [heq]
      exact ⟨hu.begun _ _ _ hnone, Standing.names_begun _ _ _ hnone⟩
  | look => exact absurd rfl (hlook _ _)
  | close hwork hdone heq =>
      have hd : ∀ a, (w.standing k r).attempt = some a → a.isDone := by
        intro a ha
        rw [standing, hwork] at ha
        exact List.all_eq_true.1 hdone a (List.mem_of_find?_eq_some ha)
      rw [heq]
      exact ⟨hu.left, Standing.names_left hd⟩
  | drop => cases hm

theorem inUse_step {env : Collaborators C T} (hd : env.KeepsNames) {m : Move C T}
    {w w' : World C T} (h : Step env m w w') (hm : m.isPeaceful) (hw : w.Orderly)
    (hapart : Trace.Apart w'.trace) (huse : w.InUse) : w'.InUse := by
  by_cases hlook : ∃ i j, m = .look i j
  · obtain ⟨i, j, rfl⟩ := hlook
    cases h with
    | look hf hs ht hp => exact inUse_put hw huse hf hs ht hp hd hapart
  · have hlook : ∀ i j, m ≠ .look i j := fun i j h => hlook ⟨i, j, h⟩
    have hunit : ∀ k r, (w'.standing k r).Liable ∧
        ∀ n, (w'.standing k r).Names n ↔ (w.standing k r).Names n :=
      fun k r => h.liable hm hlook hw (huse.units k r)
    refine ⟨fun k r => (hunit k r).1, fun n hn => ?_⟩
    by_cases hforeign : n ∈ Trace.foreign w'.trace
    · exact .inl hforeign
    · rw [h.loopEffect.isRegistered hm hlook hforeign] at hn
      rcases huse.owned n hn with hn | ⟨k, r, hn⟩
      · exact .inl (foreign_subset h.trace_suffix hn)
      · exact .inr ⟨k, r, ((hunit k r).2 n).2 hn⟩

end World

end Lifecycle
