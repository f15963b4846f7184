import Lifecycle.Proofs.Entries
import Lifecycle.Proofs.InUse

/-!
# The stores and the registry agree

Two things are kept apart: every activator has its store, and all of them share
one registry. They are changed at different times, a name being taken while its
controller registers and the store being told at the end. `registered_perm` says
that whenever no call is at work nothing has been lost in between: the held
names are those of outsiders and those of the controllers in the stores, each
once, and a loop that was started for anything else has come to its end.

Half of that is `InUse`: no name is held that nobody has in use. Here is the other
half, that no name is in use without being held (`Standing.Backed`), which needs
registrations that do not end well without a loop. As long as one is under way,
either its name is held or it still owes the loop. That the loops follow the names is
the registry's own doing (`Registry.Consistent`).
-/

namespace Lifecycle

variable {C T : Type}

/-! ## One reference -/

/-- As long as an attempt registers, the name is held or still owed. -/
def Attempt.Owed (g : Registry) (a : Attempt T) : Prop :=
  ∀ c free rest since, a.stage = .registering c free rest since → g.isRegistered c ∨ rest.owes

/-- What a reference has in use is held, or a registration still owes it. -/
structure Standing.Backed (g : Registry) (u : Standing T) : Prop where
  held : ∀ h, u.holding = some h → g.isRegistered h.controller
  owed : ∀ a, u.attempt = some a → a.Owed g

namespace Standing

variable {g g' : Registry} {u : Standing T}

/-- What happens to other names does not matter. -/
theorem Backed.of_names (h : u.Backed g)
    (hg : ∀ n, u.Names n → (g'.isRegistered n ↔ g.isRegistered n)) : u.Backed g' := by
  refine ⟨fun hd hh => (hg _ (.inl (by rw [hh]; rfl))).2 (h.held hd hh),
    fun a ha c free rest since hr => ?_⟩
  have hc := hg c (.inr (by rw [ha]; simp [Attempt.name?, hr]))
  exact (h.owed a ha c free rest since hr).imp_left hc.2

theorem Backed.left (h : u.Backed g) : u.left.Backed g := ⟨h.held, nofun⟩

theorem Backed.begun [Targeted T] (h : u.Backed g) (i : Nat) (targets : List T)
    (r : ResourceReference) : (u.begun i targets r).Backed g := by
  refine ⟨fun hd hh => ?_, fun a hb c free rest since hr => ?_⟩
  · obtain ⟨h₀, hh₀, rfl⟩ := Option.map_eq_some_iff.1 hh
    have hheld := h.held h₀ hh₀
    split <;> exact hheld
  · rw [stage_begun hb] at hr
    cases hr

end Standing

/-! ## One step of an attempt -/

theorem Collaborators.Disciplined.keepsNames {env : Collaborators C T} (hd : env.Disciplined) :
    env.KeepsNames := fun _ _ _ _ _ => (hd ..).1

section Step

variable [Targeted T] {env : Collaborators C T} {x : Context C} {a b : Attempt T}
  {s s' : Site C T}

/-- A registration is backed by a loop that it has started, or owes it. -/
theorem Attempt.Step.owed (hd : env.Disciplined) (h : Attempt.Step env x (a, s) (b, s'))
    (ha : a.Liable (s.store.get? a.reference)) (hu : a.Owed s.registry) :
    b.Owed s'.registry := by
  cases h with
  | draw => exact hu
  | create _ _ _ _ _ _ _ hc =>
      rintro _ _ _ _ ⟨⟩
      rw [hc]
      exact .inr (hd ..).2
  | @register _ _ c free rest since rest' _ hr hs =>
      simp only [Attempt.Liable, hr] at ha
      rintro _ _ _ _ ⟨⟩
      rcases hs.loops with ⟨hstill, howes⟩ | ⟨name, body, hname, hspawn, -⟩
      · rw [hstill.1]
        exact (hu c free rest since hr).imp_right howes
      · obtain rfl := hname ha.2.2
        exact .inl ((Registry.isRegistered_of_spawn hspawn _).2 (.inl rfl))
  | _ => rintro _ _ _ _ ⟨⟩

/-- A controller that is found is backed by its loop. -/
theorem Attempt.Step.held (h : Attempt.Step env x (a, s) (b, s'))
    (ha : a.Liable (s.store.get? a.reference)) (hu : a.Owed s.registry)
    (hheld : ∀ h, s.store.get? a.reference = some h → s.registry.isRegistered h.controller) :
    ∀ h, s'.store.get? a.reference = some h → s'.registry.isRegistered h.controller := by
  cases h with
  | draw | wait | ask | unaskable | probe | giveUp | expire | miss | fail => exact hheld
  | @update _ _ h hf hg =>
      intro h' hh
      obtain rfl : { h with active := true } = h' := by
        simpa [Site.note, Store.get?_activate, hg] using hh
      exact hheld h hg
  | create _ _ _ _ _ _ hs =>
      subst hs
      exact hheld
  | register hr hs =>
      simp only [Attempt.Liable, hr] at ha
      simp [hs.store_eq, ha.1]
  | @install _ _ c free rest since hr he =>
      intro h' hh
      obtain rfl : (⟨a.reference, c, true⟩ : Holding) = h' := by
        simpa [Site.note, Store.get?_install] using hh
      -- A registration that has ended well owes nothing.
      refine (hu c free rest since hr).resolve_right ?_
      rw [he.owes]
      exact Bool.false_ne_true
  | refuse hr | revoke hr =>
      simp only [Attempt.Liable, hr] at ha
      simp [Site.note, ha.1]

end Step

/-! ## The whole world -/

namespace World

variable [Targeted T]

/-- The names that are held are those in use and those of outsiders. -/
structure Agrees (w : World C T) : Prop where
  inUse : w.InUse
  backed : ∀ k r, (w.standing k r).Backed w.registry
  foreign : ∀ n ∈ Trace.foreign w.trace, w.registry.isRegistered n
  once : (Trace.foreign w.trace).Nodup

theorem agrees_ofActivators (as : List (String × Policy)) :
    (ofActivators as : World C T).Agrees := by
  refine ⟨inUse_ofActivators as, fun k r => ?_, nofun, List.nodup_nil⟩
  rw [standing_ofActivators]
  exact ⟨nofun, nofun⟩

section Put

variable {env : Collaborators C T} {w : World C T} {i j : Nat} {c : Call C T} {a : Activator}
  {as : List (Attempt T)} {t : Attempt T} {p : Attempt T × Site C T}

theorem backed_put (hd : env.Disciplined) (hw : w.Orderly) (hag : w.Agrees)
    (hf : w.find? i = some (c, a)) (hs : c.stage = .working as) (ht : as[j]? = some t)
    (hp : Attempt.Step env (context a i c) (t, w.site a) p)
    (hapart : Trace.Apart (w.put i c as j p).trace) (k : Nat) (r : ResourceReference) :
    ((w.put i c as j p).standing k r).Backed (w.put i c as j p).registry := by
  obtain ⟨b, s⟩ := p
  have hstep : Step env (.look i j) w (w.put i c as j (b, s)) := .look hf hs ht hp
  have hw' := orderly_step hstep hw
  have hgrows : w.trace <:+ (w.put i c as j (b, s)).trace := hstep.trace_suffix
  have hu := standing_of_working hw hf hs (List.mem_of_getElem? ht)
  by_cases hkr : c.activator = k ∧ t.reference = r
  · obtain ⟨rfl, rfl⟩ := hkr
    have hliable := (hag.inUse.units c.activator t.reference).attempt t (by rw [hu])
    have hbacked := hag.backed c.activator t.reference
    rw [hu] at hliable hbacked
    have howed := hbacked.owed t rfl
    rw [standing_put hw' hf ht (.single hp)]
    refine ⟨hp.held hliable howed hbacked.held, ?_⟩
    rintro _ ⟨⟩
    exact hp.owed hd hliable howed
  · rw [standing_put_of_ne hw hw' hf hs ht (.single hp) fun hk hr => hkr ⟨hk, hr⟩]
    -- What the attempt takes or frees is its own, and a name in use here is not.
    refine (hag.backed k r).of_names fun n hn =>
      hag.inUse.isRegistered_put hw hf hs ht hp fun hn' => hkr ?_
    obtain ⟨l, hl⟩ := (hag.inUse.units c.activator t.reference).known n hn'
    obtain ⟨rfl, rfl⟩ := hag.inUse.eq_of_names hgrows hapart hn (acts_subset hgrows hl)
    exact ⟨rfl, rfl⟩

end Put

variable {env : Collaborators C T} {m : Move C T} {w w' : World C T}

theorem backed_step (hd : env.Disciplined) (h : Step env m w w') (hm : m.isPeaceful)
    (hw : w.Orderly) (hapart : Trace.Apart w'.trace) (hag : w.Agrees) (k : Nat)
    (r : ResourceReference) : (w'.standing k r).Backed w'.registry := by
  by_cases hlook : ∃ i j, m = .look i j
  · obtain ⟨i, j, rfl⟩ := hlook
    cases h with
    | look hf hs ht hp => exact backed_put hd hw hag hf hs ht hp hapart k r
  · have hlook : ∀ i j, m ≠ .look i j := fun i j h => hlook ⟨i, j, h⟩
    have hbacked : (w.standing k r).Backed w'.registry :=
      (hag.backed k r).of_names fun n hn => h.loopEffect.isRegistered hm hlook
        (hag.inUse.not_mem_foreign h.trace_suffix hapart hn)
    cases h.effect hw k r with
    | same heq => rwa [heq]
    | begin _ _ _ _ heq =>
        rw [heq]
        exact hbacked.begun ..
    | look => exact absurd rfl (hlook _ _)
    | close _ _ heq =>
        rw [heq]
        exact hbacked.left
    | drop => cases hm

/-- Outsiders keep their names, and each of them has a loop of its own. -/
theorem foreign_step (h : Step env m w w') (hm : m.isPeaceful) (hw : w.Orderly)
    (hapart : Trace.Apart w'.trace) (hag : w.Agrees) :
    (∀ n ∈ Trace.foreign w'.trace, w'.registry.isRegistered n) ∧
      (Trace.foreign w'.trace).Nodup := by
  have hgrows := h.trace_suffix
  cases h.loopEffect with
  | look hf hs ht hp hholds =>
      have hforeign : Trace.foreign _ = Trace.foreign w.trace := hholds.foreign_eq
      refine ⟨fun n hn => ?_, hforeign ▸ hag.once⟩
      refine (hag.inUse.isRegistered_put hw hf hs ht hp fun hn' => ?_).2
        (hag.foreign n (hforeign ▸ hn))
      exact hag.inUse.not_mem_foreign hgrows hapart hn' hn
  | free hm' => cases m <;> simp [Move.isPeaceful, Move.isIntervention] at hm hm'
  | still _ hh _ ht =>
      rw [Trace.foreign, ht]
      refine ⟨fun n hn => ?_, hag.once⟩
      rw [Registry.isRegistered_iff, hh, ← Registry.isRegistered_iff]
      exact hag.foreign n hn
  | @start _ _ name body g hs hh _ ht =>
      have hforeign : Trace.foreign w'.trace = Trace.foreign w.trace ++ [name] := by
        simp [Trace.foreign, ht]
      rw [hforeign]
      constructor
      · intro n hn
        rw [Registry.isRegistered_iff, hh, ← Registry.isRegistered_iff,
          Registry.isRegistered_of_spawn hs]
        rw [List.mem_append, List.mem_singleton] at hn
        exact hn.symm.imp_right (hag.foreign n)
      · rw [List.nodup_append]
        refine ⟨hag.once, List.nodup_singleton _, ?_⟩
        rintro n hn _ hn' rfl
        rw [List.mem_singleton.1 hn'] at hn
        have hheld := hag.foreign name hn
        rw [(Registry.spawn_eq_ok hs).1] at hheld
        cases hheld

theorem agrees_step (hd : env.Disciplined) (h : Step env m w w') (hm : m.isPeaceful)
    (hw : w.Orderly) (hapart : Trace.Apart w'.trace) (hag : w.Agrees) : w'.Agrees := by
  obtain ⟨hforeign, honce⟩ := foreign_step h hm hw hapart hag
  exact ⟨inUse_step hd.keepsNames h hm hw hapart hag.inUse,
    backed_step hd h hm hw hapart hag, hforeign, honce⟩

/-! ### Every run -/

theorem agrees_play (hd : env.Disciplined)
    {as : List (String × Policy)} {ms : List (Move C T)} (hms : ∀ m ∈ ms, m.isPeaceful)
    (hapart : Trace.Apart ((ofActivators as).play env ms).trace) :
    ((ofActivators as).play env ms).Agrees :=
  invariant_of_orderly (P := fun w => Trace.Apart w.trace → w.Agrees)
    (A := fun m => m.isPeaceful)
    (fun hm hs hw h hapart =>
      agrees_step hd hs hm hw hapart (h (hapart.of_suffix hs.trace_suffix)))
    hms (orderly_ofActivators as) (fun _ => agrees_ofActivators as) hapart

/-! ### The lists -/

/-- The names of the controllers of all activators. -/
def controllers (w : World C T) : List String :=
  w.activators.flatMap fun a => a.store.map Holding.controller

/-- Whether no call is at work. -/
def isIdle (w : World C T) : Bool :=
  (List.range w.activators.length).all fun k => (w.atWork k).isNone

section Idle

variable {w : World C T} (hidle : w.isIdle)

include hidle

omit [Targeted T] in
theorem atWork_of_isIdle (k : Nat) : w.atWork k = none := by
  by_cases hk : k < w.activators.length
  · exact Option.isNone_iff_eq_none.1 (List.all_eq_true.1 hidle k (List.mem_range.2 hk))
  · have hnone : w.activators[k]? = none := List.getElem?_eq_none (Nat.le_of_not_lt hk)
    rw [atWork, hnone]
    rfl

theorem names_iff_of_idle {k : Nat} {r : ResourceReference} {n : String} :
    (w.standing k r).Names n ↔ ∃ h, w.holding? k r = some h ∧ h.controller = n := by
  simp [Standing.Names, standing, atWork_of_isIdle hidle]

theorem names_of_mem_store (hw : w.Orderly) {k : Nat} {a : Activator}
    (ha : w.activators[k]? = some a) {h : Holding} (hh : h ∈ a.store) :
    (w.standing k h.reference).Names h.controller := by
  refine (names_iff_of_idle hidle).2 ⟨h, ?_, rfl⟩
  rw [holding?_eq ha]
  exact (Store.get?_eq_some_iff (hw.simple a (List.mem_of_getElem? ha))).2 ⟨hh, rfl⟩

theorem mem_controllers_iff (hw : w.Orderly) {n : String} :
    n ∈ w.controllers ↔ ∃ k r, (w.standing k r).Names n := by
  simp only [controllers, List.mem_flatMap, List.mem_map]
  constructor
  · rintro ⟨a, ha, h, hh, rfl⟩
    obtain ⟨k, hk⟩ := List.mem_iff_getElem?.1 ha
    exact ⟨k, h.reference, names_of_mem_store hidle hw hk hh⟩
  · rintro ⟨k, r, hn⟩
    obtain ⟨h, hh, rfl⟩ := (names_iff_of_idle hidle).1 hn
    obtain ⟨a, ha, hg⟩ := Option.bind_eq_some_iff.1 hh
    exact ⟨a, List.mem_of_getElem? ha, h, List.mem_of_find?_eq_some hg, rfl⟩

/-- No name is used for two controllers. -/
theorem nodup_controllers (hw : w.Orderly) (huse : w.InUse) (hapart : Trace.Apart w.trace) :
    w.controllers.Nodup := by
  have huses : ∀ {k k' : Nat} {a a' : Activator} {h h' : Holding},
      w.activators[k]? = some a → w.activators[k']? = some a' → h ∈ a.store → h' ∈ a'.store →
      h.controller = h'.controller → k = k' ∧ h.reference = h'.reference := by
    intro k k' a a' h h' ha ha' hh hh' heq
    obtain ⟨i, hi⟩ := (huse.units _ _).known _ (names_of_mem_store hidle hw ha' hh')
    rw [← heq] at hi
    exact huse.eq_of_names List.suffix_rfl hapart (names_of_mem_store hidle hw ha hh) hi
  rw [controllers, List.nodup_flatMap]
  constructor
  · intro a ha
    obtain ⟨k, hk⟩ := List.mem_iff_getElem?.1 ha
    have hsimple := hw.simple a ha
    refine List.Nodup.map_on (fun h hh h' hh' heq => ?_) (List.Nodup.of_map _ hsimple)
    exact List.inj_on_of_nodup_map hsimple hh hh' (huses hk hk hh hh' heq).2
  · rw [List.pairwise_iff_getElem]
    intro k k' hk hk' hlt
    dsimp only [Function.onFun]
    intro n hn hn'
    obtain ⟨h, hh, rfl⟩ := List.mem_map.1 hn
    obtain ⟨h', hh', heq⟩ := List.mem_map.1 hn'
    have hkk := (huses (List.getElem?_eq_getElem hk) (List.getElem?_eq_getElem hk') hh hh'
      heq.symm).1
    exact absurd hkk (Nat.ne_of_lt hlt)

end Idle

/-- Whenever no call is at work, the held names are those of outsiders and those of the
controllers in the stores, each once. Each of them has its loop, which nobody told to end;
every other loop that was ever started has ended, or ends at its next turn. -/
theorem registered_perm {env : Collaborators C T} (hd : env.Disciplined)
    {as : List (String × Policy)} {ms : List (Move C T)} (hms : ∀ m ∈ ms, m.isPeaceful)
    {w : World C T} (hw : w = (ofActivators as).play env ms) (hapart : Trace.Apart w.trace)
    (hidle : w.isIdle) :
    w.registry.registered.Perm (Trace.foreign w.trace ++ w.controllers) ∧
      w.registry.registered.Nodup ∧ w.registry.Consistent ∧
      ∀ i l, w.turnLoops.registry.loops[i]? = some l →
        (l.name, i) ∈ w.registry.held ∨ l.isEnded := by
  have horderly : w.Orderly := hw ▸ orderly_play ms (orderly_ofActivators as)
  have hag : w.Agrees := by
    subst hw
    exact agrees_play hd hms hapart
  have hconsistent : w.registry.Consistent := by
    rw [hw]
    refine consistent_play as fun m hm s => ?_
    rintro rfl
    cases hms _ hm
  have hnodup : w.registry.registered.Nodup :=
    (List.mergeSort_perm _ _).nodup_iff.2 hconsistent.nodup
  have hlists : (Trace.foreign w.trace ++ w.controllers).Nodup := by
    refine List.nodup_append.2
      ⟨hag.once, nodup_controllers hidle horderly hag.inUse hapart, ?_⟩
    rintro n hn _ hn' rfl
    obtain ⟨k, r, hkr⟩ := (mem_controllers_iff hidle horderly).1 hn'
    exact hag.inUse.not_mem_foreign List.suffix_rfl hapart hkr hn
  refine ⟨(List.perm_ext_iff_of_nodup hnodup hlists).2 fun n => ?_, hnodup, hconsistent,
    fun i l hl => ?_⟩
  · rw [Registry.mem_registered, List.mem_append, mem_controllers_iff hidle horderly]
    constructor
    · exact hag.inUse.owned n
    · rintro (hn | ⟨k, r, hn⟩)
      · exact hag.foreign n hn
      · obtain ⟨h, hh, rfl⟩ := (names_iff_of_idle hidle).1 hn
        exact (hag.backed k r).held h hh
  · rw [turnLoops_eq] at hl
    exact hconsistent.isEnded_of_turn hl

/-- Two activators and an outsider. One target fails after its loop was started, and once
more in a later call; another one is cancelled while it registers. -/
theorem registered_perm_given_up :
    let env : Collaborators String ResourceReference :=
      { Collaborators.prompt with
        create := fun _ _ _ r _ => ⟨r.name, .spawn r.name .forever
          (if r.name = "b" then .finish (some (.registration r.name "refused"))
          else if r.name = "d" then .sleep none (some none) (.finish none) else .finish none)⟩ }
    let policies := [("widgets", Policy.default), ("gadgets", Policy.default)]
    let ms := [.submit [.plain 0 "v1" ["a", "b", "d"], .plain 1 "v1" ["c"]], .join 0, .join 1,
      .spawn "outsider" .forever, .begin 0, .begin 1, .look 0 1, .look 1 0, .look 0 2, .look 0 0,
      .cancel 0, .turnLoops, .look 0 2, .close 0, .close 1, .submit [.plain 0 "v2" ["b"]], .join 2,
      .begin 2, .look 2 0, .close 2]
    let w := (ofActivators policies).play env ms
    env.Disciplined ∧ (∀ m ∈ ms, Move.isPeaceful m) ∧ Trace.Apart w.trace ∧ w.isIdle ∧
      (w.registry.loops.filter Loop.isAborted).map Loop.name = ["b", "d", "b"] ∧
      w.registry.registered.Perm (Trace.foreign w.trace ++ w.controllers) ∧
      w.registry.registered.Nodup ∧ w.registry.Consistent ∧
      ∀ i l, w.turnLoops.registry.loops[i]? = some l →
        (l.name, i) ∈ w.registry.held ∨ l.isEnded := by
  intro env policies ms w
  have hd : env.Disciplined := by
    intro t now capability r config
    dsimp only [env]
    split
    · simp [Registration.spawnsOnly, Registration.owes]
    · split <;> simp [Registration.spawnsOnly, Registration.owes]
  have hms : ∀ m ∈ ms, Move.isPeaceful m := by decide +kernel
  have hapart : Trace.Apart w.trace := ⟨by decide +kernel, by decide +kernel⟩
  have hidle : w.isIdle := by decide +kernel
  exact ⟨hd, hms, hapart, hidle, by decide +kernel, registered_perm hd hms rfl hapart hidle⟩

end World

end Lifecycle
