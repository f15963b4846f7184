import Mathlib.Data.List.Induction
import Lifecycle.Proofs.Names

/-!
# Whose loops a failed registration ends

A registration that ends badly frees its controller's name if that was free when
it began. The reason given for looking is that a name which was held belongs to
somebody else. But the look is at the beginning and the release at the end, and
a registration may wait in between: whoever takes the name meanwhile loses it,
as `not_spares_of_overtaken` shows with two targets whose controllers have one
name.

`spares_and_keeps_iff` says that this is all that can go wrong. In every run,
released loops are the releasing attempt's own, and controllers that were
installed keep their loops, exactly if no registration ever ends badly while a
loop of somebody else holds its name. The part about one look is an equation:
`mem_held_look_iff` says which pairs of the registry a look removes. The part
about installed controllers is an invariant, since the loop that a registration
owes must survive all looks of all others until the controller is in the store,
and after that.

Whether somebody is overtaken depends on the order of the moves. That nobody is,
whatever the order, can be had by keeping names apart: `neverOvertaken_of_apart`.
-/

namespace Lifecycle

variable {C T : Type}

/-! ## What a look removes -/

/-- Whether an attempt registers a controller of a name that was free before. -/
def Attempt.claims (a : Attempt T) (n : String) : Bool :=
  match a.stage with
  | .registering c free _ _ => free && c = n
  | _ => false

theorem Attempt.claims_iff {a : Attempt T} {n : String} :
    a.claims n ↔ ∃ rest since, a.stage = .registering n true rest since := by
  unfold claims
  split
  · next c free rest since hr => simp [hr, and_comm]
  · next hr => simpa using hr n true

/-- What a look at an attempt makes of the held names, up to some step of it. -/
def Attempt.Leaves (t : Attempt T) (held : List (String × Nat)) (b : Attempt T)
    (now : List (String × Nat)) : Prop :=
  match b.stage with
  | .done (some _) _ => ∀ p ∈ held, p ∈ now ↔ t.claims p.1 = false
  | .done none _ => held ⊆ now
  | _ => held ⊆ now ∧ ∀ p ∈ held, b.claims p.1 = t.claims p.1

theorem Attempt.leaves_self (t : Attempt T) (held : List (String × Nat)) :
    t.Leaves held t held := by
  unfold Leaves
  split
  · next hs => simp +contextual [claims, hs]
  · exact List.Subset.refl _
  · exact ⟨List.Subset.refl _, fun _ _ => rfl⟩

theorem Attempt.Leaves.mem_iff {t b : Attempt T} {held now : List (String × Nat)}
    (h : t.Leaves held b now) {p : String × Nat} (hp : p ∈ held) :
    p ∈ now ↔ ¬ (t.claims p.1 ∧ b.cause?.isSome) := by
  cases hs : b.stage with
  | done cause time =>
      simp only [Leaves, hs] at h
      cases cause with
      | none => simp [cause?, hs, h hp]
      | some e => simp [cause?, hs, h p hp]
  | _ =>
      simp only [Leaves, hs] at h
      simp [cause?, hs, h.1 hp]

variable [Targeted T]

theorem Attempt.Step.leaves {env : Collaborators C T} {x : Context C} {t a b : Attempt T}
    {s s' : Site C T} (h : Attempt.Step env x (a, s) (b, s')) {held : List (String × Nat)}
    (ht : t.Leaves held a s.registry.held) : t.Leaves held b s'.registry.held := by
  have hends : ∀ {c free rest since}, a.stage = .registering c free rest since →
      (s'.registry.held = if free then s.registry.held.filter (·.1 ≠ c) else s.registry.held) →
      ∀ p ∈ held, p ∈ s'.registry.held ↔ t.claims p.1 = false := by
    intro c free rest since hr hh p hp
    simp only [Leaves, hr] at ht
    have hmem := ht.1 hp
    rw [← ht.2 p hp, hh]
    cases free with
    | false => simp [claims, hr, hmem]
    | true => simp [claims, hr, hmem, @eq_comm _ c]
  cases h with
  | draw => exact ht
  | update hf =>
      simp only [Leaves, hf] at ht
      exact ht.1
  | wait hf =>
      simp only [Leaves, hf] at ht
      refine ⟨ht.1, fun p hp => ?_⟩
      rw [← ht.2 p hp]
      simp [claims, hf]
  | ask hw | probe hw | miss hw =>
      simp only [Leaves, hw] at ht
      refine ⟨ht.1, fun p hp => ?_⟩
      rw [← ht.2 p hp]
      simp [claims, hw]
  | unaskable hw | giveUp hw | expire hw | fail hw =>
      -- A wait claims no name.
      simp only [Leaves, hw] at ht
      intro p hp
      rw [← ht.2 p hp]
      exact ⟨fun _ => by simp [claims, hw], fun _ => ht.1 hp⟩
  | @create _ _ _ _ _ s₁ c hw _ _ _ _ _ hs =>
      subst hs
      simp only [Leaves, hw] at ht
      refine ⟨ht.1, fun p hp => ?_⟩
      rw [← ht.2 p hp]
      -- A name that was held is not free.
      have hreg : c.name = p.1 → s.registry.isRegistered c.name = true := by
        intro hc
        rw [hc, Registry.isRegistered_iff]
        exact List.mem_map_of_mem (ht.1 hp)
      simp only [claims, toStage_stage, hw, Bool.and_eq_false_iff, Bool.not_eq_false',
        decide_eq_false_iff_not]
      by_cases hc : c.name = p.1
      · exact .inl (hreg hc)
      · exact .inr hc
  | @register _ _ c free rest since rest' s' hr hs =>
      simp only [Leaves, hr] at ht
      have hgrows : s.registry.held ⊆ s'.registry.held := by
        obtain ⟨⟨hg, -⟩, -⟩ | ⟨name, body, -, hspawn, -⟩ := hs.loops
        · rw [hg]
          exact List.Subset.refl _
        · rw [(Registry.spawn_eq_ok hspawn).2.1]
          exact List.subset_append_left ..
      refine ⟨List.Subset.trans ht.1 hgrows, fun p hp => ?_⟩
      rw [← ht.2 p hp]
      simp [claims, hr]
  | install hr =>
      simp only [Leaves, hr] at ht
      exact ht.1
  | @refuse _ _ c free _ _ f hr => exact hends hr (release_held ..).1
  | revoke hr => exact hends hr (release_held ..).1

theorem Attempt.Steps.leaves {env : Collaborators C T} {x : Context C} {t : Attempt T}
    {s : Site C T} {q : Attempt T × Site C T} (h : Attempt.Steps env x (t, s) q) :
    t.Leaves s.registry.held q.1 q.2.registry.held := by
  induction h with
  | refl => exact t.leaves_self _
  | tail _ hs ih => exact hs.leaves ih

namespace World

/-- The attempt of a call at a place. -/
def attempt? (w : World C T) (i j : Nat) : Option (Attempt T) := (w.attempts i)[j]?

omit [Targeted T] in
theorem attempt?_eq (w : World C T) (i j : Nat) :
    w.attempt? i j = w.calls[i]?.bind fun c => c.attempts[j]? := by
  rw [attempt?, attempts]
  cases w.calls[i]? <;> rfl

omit [Targeted T] in
theorem attempt?_of_working {w : World C T} {i : Nat} {c : Call C T} {a : Activator}
    {as : List (Attempt T)} (hf : w.find? i = some (c, a)) (hs : c.stage = .working as)
    (j : Nat) : w.attempt? i j = as[j]? := by
  simp [attempt?, attempts, (find?_eq_some.1 hf).1, Call.attempts, hs]

/-- Whether an attempt has failed when it has been looked at. -/
def failsAt (env : Collaborators C T) (w : World C T) (i j : Nat) : Bool :=
  ((w.look env i j).attempt? i j).any fun t => t.cause?.isSome

/-- A look removes the loops whose name its attempt claims, if the attempt has
failed afterwards, and no others. -/
theorem mem_held_look_iff {env : Collaborators C T} {w : World C T} {i j : Nat}
    {p : String × Nat} (hp : p ∈ w.registry.held) :
    p ∈ (w.look env i j).registry.held ↔
      ¬ ((w.attempt? i j).any (fun t => t.claims p.1) ∧ w.failsAt env i j) := by
  rw [failsAt]
  rcases look_cases env w i j with h | ⟨c, a, as, t, hf, hs, ht, h⟩
  · -- Nothing is looked at, and an attempt that claims a name has not failed.
    rw [h]
    refine iff_of_true hp fun ⟨hclaims, hfails⟩ => ?_
    obtain ⟨t, ht, hclaims⟩ := (Option.any_eq_true ..).1 hclaims
    obtain ⟨rest, since, hr⟩ := Attempt.claims_iff.1 hclaims
    simp [ht, Attempt.cause?, hr] at hfails
  · have hplace : j < as.length := (List.getElem?_eq_some_iff.1 ht).1
    rw [h, attempt?_of_working hf hs, attempt?_of_working (find?_put hf) rfl, ht,
      List.getElem?_set_self hplace, Option.any_some, Option.any_some]
    exact (Attempt.Steps.leaves (Attempt.look_steps ..)).mem_iff hp

/-! ## Other owners -/

/-- A look removes none but the loops that its attempt has started. -/
def SparesAt (env : Collaborators C T) (w : World C T) (i j : Nat) : Prop :=
  ∀ p ∈ w.registry.held, p ∉ (w.look env i j).registry.held →
    ∃ t, w.attempt? i j = some t ∧ w.trace.owner? p.2 = some (i, t.reference)

/-- Somebody else has a loop of the name that an attempt claims. -/
def OvertakenAt (w : World C T) (i j : Nat) : Prop :=
  ∃ t, w.attempt? i j = some t ∧ ∃ p ∈ w.registry.held, t.claims p.1 ∧
    w.trace.owner? p.2 ≠ some (i, t.reference)

theorem sparesAt_iff {env : Collaborators C T} {w : World C T} {i j : Nat} :
    w.SparesAt env i j ↔ ¬ (w.OvertakenAt i j ∧ w.failsAt env i j) := by
  constructor
  · rintro hspares ⟨⟨t, ht, p, hp, hclaims, hother⟩, hfails⟩
    have hgone : p ∉ (w.look env i j).registry.held := by
      rw [mem_held_look_iff hp, not_not, ht]
      exact ⟨hclaims, hfails⟩
    obtain ⟨t', ht', hown⟩ := hspares p hp hgone
    rw [ht] at ht'
    cases ht'
    exact hother hown
  · intro h p hp hgone
    rw [mem_held_look_iff hp, not_not] at hgone
    obtain ⟨t, ht, hclaims⟩ := (Option.any_eq_true ..).1 hgone.1
    by_cases hown : w.trace.owner? p.2 = some (i, t.reference)
    · exact ⟨t, ht, hown⟩
    · exact absurd ⟨⟨t, ht, p, hp, hclaims, hown⟩, hgone.2⟩ h

/-- What is so at every look of a run, just before it. -/
def EveryLook (env : Collaborators C T) (P : World C T → Nat → Nat → Prop) (w : World C T)
    (ms : List (Move C T)) : Prop :=
  ∀ ms₁ i j ms₂, ms = ms₁ ++ .look i j :: ms₂ → P (w.play env ms₁) i j

/-- Failed registrations end none but their own loops. -/
def Spares (env : Collaborators C T) : World C T → List (Move C T) → Prop :=
  EveryLook env (SparesAt env)

/-- No registration ends badly while somebody else has a loop of its name. -/
def NeverOvertaken (env : Collaborators C T) : World C T → List (Move C T) → Prop :=
  EveryLook env fun w i j => ¬ (w.OvertakenAt i j ∧ w.failsAt env i j)

theorem spares_iff {env : Collaborators C T} {w : World C T} {ms : List (Move C T)} :
    w.Spares env ms ↔ w.NeverOvertaken env ms := by
  simp only [Spares, NeverOvertaken, EveryLook, sparesAt_iff]

end World

/-! ## Installed controllers -/

/-- The controller that an entry installs, with the call and the reference for
which it does. -/
def Entry.install? (e : Entry C T) : Option ((Nat × ResourceReference) × String) :=
  match e.scope, e.what with
  | some x, .installed r c => some ((x.call, r), c)
  | _, _ => none

def Trace.installs (t : Trace C T) : List ((Nat × ResourceReference) × String) :=
  t.filterMap Entry.install?

/-- A loop of a name was started for a call and a reference, and is either held
or among those that outsiders have freed. -/
def HasLoop (freed : String × Nat → Prop) (g : Registry) (t : Trace C T)
    (o : Nat × ResourceReference) (c : String) : Prop :=
  ∃ l, Trace.owner? t l = some o ∧ ((c, l) ∈ g.held ∨ freed (c, l))

omit [Targeted T] in
theorem owner?_of_suffix {t t' : Trace C T} (h : t <:+ t') {l : Nat}
    {o : Nat × ResourceReference} (ho : Trace.owner? t l = some o) :
    Trace.owner? t' l = some o := by
  obtain ⟨new, rfl⟩ := h
  obtain ⟨p, hp, hpo⟩ := Option.bind_eq_some_iff.1 ho
  refine Option.bind_eq_some_iff.2 ⟨p, ?_, hpo⟩
  rw [starts_append, List.getElem?_append_left (List.getElem?_eq_some_iff.1 hp).1, hp]

omit [Targeted T] in
/-- A loop that has just been started belongs to who started it. -/
theorem owner?_started {g : Registry} {t t' : Trace C T} {name : String} {o : Owner}
    (h : Aligned g t) (ht : Trace.starts t' = Trace.starts t ++ [(name, o)]) :
    Trace.owner? t' g.loops.length = o := by
  have hlen : (Trace.starts t).length = g.loops.length := by
    simpa using congrArg List.length h.names
  rw [Trace.owner?, ht, ← hlen, List.getElem?_concat_length]
  rfl

omit [Targeted T] in
theorem HasLoop.of_kept {freed freed' : String × Nat → Prop} {g g' : Registry}
    {t t' : Trace C T} {o : Nat × ResourceReference} {c : String}
    (h : HasLoop freed g t o c) (ht : t <:+ t') (hfreed : ∀ p, freed p → freed' p)
    (hg : ∀ p ∈ g.held, Trace.owner? t p.2 = some o → p ∈ g'.held ∨ freed' p) :
    HasLoop freed' g' t' o c := by
  obtain ⟨l, ho, hl⟩ := h
  refine ⟨l, owner?_of_suffix ht ho, ?_⟩
  rcases hl with hl | hl
  · exact hg _ hl ho
  · exact .inr (hfreed _ hl)

/-- What an attempt of a call has earned: a registration has started its loop or
still owes it, and nothing is installed before the end, or without a loop. -/
structure Attempt.Earns (freed : String × Nat → Prop) (i : Nat) (g : Registry) (t : Trace C T)
    (a : Attempt T) : Prop where
  pending : ∀ c free rest since, a.stage = .registering c free rest since →
    rest.spawnsOnly c ∧ (rest.owes ∨ HasLoop freed g t (i, a.reference) c)
  unfinished : a.isDone = false → ∀ c, ((i, a.reference), c) ∉ Trace.installs t
  installed : ∀ c, ((i, a.reference), c) ∈ Trace.installs t →
    HasLoop freed g t (i, a.reference) c

omit [Targeted T] in
/-- Most happenings install nothing. -/
theorem installs_note_quiet {s : Site C T} {x : Context C} {h : Happening C T}
    (hh : Entry.install? ⟨s.now, some x.scope, h⟩ = none) :
    Trace.installs (s.note x h).trace = Trace.installs s.trace := List.filterMap_cons_none hh

omit [Targeted T] in
theorem installs_release (x : Context C) (r : ResourceReference) (c : String) (free : Bool)
    (s : Site C T) :
    Trace.installs (Attempt.release x r c free s).trace = Trace.installs s.trace := by
  rcases Attempt.release_cases x r c free s with h | ⟨g, -, h⟩ <;> rw [h]
  exact (installs_note_quiet rfl).trans (installs_note_quiet rfl)

section Steps

variable {env : Collaborators C T} {x : Context C} {a b : Attempt T} {s s' : Site C T}

/-- A controller is installed at the end of a registration that ends well, and at
no other time. -/
theorem Attempt.Step.installs_cases (h : Attempt.Step env x (a, s) (b, s')) :
    Trace.installs s'.trace = Trace.installs s.trace ∨
      ∃ c free rest since, a.stage = .registering c free rest since ∧ rest.Returns x s none ∧
        b.isDone ∧ s'.registry = s.registry ∧
        Trace.installs s'.trace = ((x.scope.call, a.reference), c) :: Trace.installs s.trace := by
  cases h with
  | draw | wait | ask | giveUp => exact .inl rfl
  | update | unaskable | probe | expire | miss => exact .inl (installs_note_quiet rfl)
  | fail => exact .inl ((installs_note_quiet rfl).trans (installs_note_quiet rfl))
  | create _ _ _ _ _ _ hs =>
      subst hs
      exact .inl ((installs_note_quiet rfl).trans
        ((installs_note_quiet rfl).trans (installs_note_quiet rfl)))
  | register _ hs =>
      cases hs with
      | refused | cancel | wake => exact .inl rfl
      | spawn | spawnOr | synced => exact .inl (installs_note_quiet rfl)
  | install hr he => exact .inr ⟨_, _, _, _, hr, he, rfl, rfl, rfl⟩
  | refuse =>
      exact .inl ((installs_note_quiet rfl).trans
        ((installs_release ..).trans (installs_note_quiet rfl)))
  | revoke => exact .inl ((installs_release ..).trans (installs_note_quiet rfl))

/-- A registration owes a loop until it has started one, which it then has. -/
theorem Attempt.Step.pending (hd : env.Disciplined) (h : Attempt.Step env x (a, s) (b, s'))
    (hs : Aligned s.registry s.trace) {freed : String × Nat → Prop}
    (ha : a.Earns freed x.scope.call s.registry s.trace) :
    ∀ c free rest since, b.stage = .registering c free rest since →
      rest.spawnsOnly c ∧
        (rest.owes ∨ HasLoop freed s'.registry s'.trace (x.scope.call, b.reference) c) := by
  have hsuffix := h.trace_suffix
  cases h with
  | draw => exact ha.pending
  | create _ _ _ _ _ _ hs hk =>
      rintro _ _ _ _ ⟨⟩
      obtain ⟨hspawns, howes⟩ := hd _ s.now x.scope.capability a.target x.scope.config
      rw [← hk] at hspawns howes
      exact ⟨hspawns, .inl howes⟩
  | @register _ _ c free rest since rest' s' hr hstep =>
      rintro _ _ _ _ ⟨⟩
      obtain ⟨hspawns, howes⟩ := ha.pending c free rest since hr
      refine ⟨hstep.spawnsOnly hspawns, ?_⟩
      rcases hstep.loops with ⟨hstill, hgoes⟩ | ⟨name, body, hname, hspawn, ht⟩
      · refine howes.imp hgoes fun hloop => ?_
        exact hloop.of_kept hsuffix (fun _ => id) fun p hp _ => .inl (hstill.1.symm ▸ hp)
      · -- The loop that was started last bears the name.
        obtain rfl := hname hspawns
        refine .inr ⟨s.registry.loops.length, owner?_started hs ht, .inl ?_⟩
        rw [(Registry.spawn_eq_ok hspawn).2.1]
        exact List.mem_append_right _ (List.mem_singleton_self _)
  | _ => rintro _ _ _ _ ⟨⟩

/-- Nothing more comes of an attempt that is done. -/
theorem Attempt.Step.of_isDone (h : Attempt.Step env x (a, s) (b, s')) (ha : a.isDone) :
    b.stage = a.stage ∧ s'.registry = s.registry ∧ s'.trace = s.trace := by
  cases h with
  | draw => exact ⟨rfl, rfl, rfl⟩
  | update hs | wait hs | ask hs | unaskable hs | probe hs | giveUp hs | expire hs | miss hs
  | fail hs | create hs | register hs | install hs | refuse hs | revoke hs =>
      simp [isDone, hs] at ha

theorem Attempt.Step.earns (hd : env.Disciplined) (h : Attempt.Step env x (a, s) (b, s'))
    (hs : Aligned s.registry s.trace) {freed : String × Nat → Prop}
    (ha : a.Earns freed x.scope.call s.registry s.trace) :
    b.Earns freed x.scope.call s'.registry s'.trace := by
  have href : b.reference = a.reference := congrArg Targeted.reference h.target_eq
  have hpending := h.pending hd hs ha
  cases hdone : a.isDone with
  | true =>
      obtain ⟨hstage, hg, ht⟩ := h.of_isDone hdone
      refine ⟨hpending, fun hb => ?_, ?_⟩
      · rw [isDone, hstage, ← isDone, hdone] at hb
        cases hb
      · rw [href, hg, ht]
        exact ha.installed
  | false =>
      have hnone := ha.unfinished hdone
      rcases h.installs_cases with heq | ⟨c, free, rest, since, hr, he, hb, hg, heq⟩
      · refine ⟨hpending, fun _ c => ?_, fun c hc => ?_⟩
        · rw [href, heq]
          exact hnone c
        · rw [href, heq] at hc
          exact absurd hc (hnone c)
      · refine ⟨hpending, fun hb' => ?_, fun c' hc => ?_⟩
        · rw [hb] at hb'
          cases hb'
        · -- The registration has ended well, so it owes nothing.
          rw [href, heq] at hc
          rcases List.mem_cons.1 hc with hc | hc
          · obtain ⟨-, howes⟩ := ha.pending c free rest since hr
            rw [he.owes] at howes
            cases hc
            rw [href]
            exact (howes.resolve_left Bool.false_ne_true).of_kept h.trace_suffix
              (fun _ => id) fun p hp _ => .inl (hg ▸ hp)
          · exact absurd hc (hnone c')

theorem Attempt.Steps.earns (hd : env.Disciplined) {q : Attempt T × Site C T}
    (h : Attempt.Steps env x (a, s) q) (hs : Aligned s.registry s.trace)
    {freed : String × Nat → Prop} (ha : a.Earns freed x.scope.call s.registry s.trace) :
    Aligned q.2.registry q.2.trace ∧
      q.1.Earns freed x.scope.call q.2.registry q.2.trace := by
  induction h with
  | refl => exact ⟨hs, ha⟩
  | tail _ hstep ih => exact ⟨hstep.holds.aligned ih.1, hstep.earns hd ih.1 ih.2⟩

/-- What an attempt installs, it installs for its own call and reference. -/
theorem Attempt.Steps.mem_installs {q : Attempt T × Site C T}
    (h : Attempt.Steps env x (a, s) q) {o : Nat × ResourceReference} {c : String}
    (hc : (o, c) ∈ Trace.installs q.2.trace) (ho : o ≠ (x.scope.call, a.reference)) :
    (o, c) ∈ Trace.installs s.trace := by
  induction h with
  | refl => exact hc
  | tail hs h ih =>
      refine ih ?_
      rcases h.installs_cases with heq | ⟨c', _, _, _, -, -, -, -, heq⟩
      · rwa [heq] at hc
      · rw [heq] at hc
        refine (List.mem_cons.1 hc).resolve_left fun hc => ho ?_
        have href := congrArg Targeted.reference (Attempt.Steps.target_eq hs)
        exact (Prod.mk.inj hc).1.trans (congrArg _ href)

end Steps

theorem Attempt.Earns.of_kept {freed freed' : String × Nat → Prop} {i : Nat} {g g' : Registry}
    {t t' : Trace C T} {a : Attempt T} (h : a.Earns freed i g t)
    (hkept : ∀ c, HasLoop freed g t (i, a.reference) c → HasLoop freed' g' t' (i, a.reference) c)
    (hinst : ∀ c, ((i, a.reference), c) ∈ Trace.installs t' →
      ((i, a.reference), c) ∈ Trace.installs t) : a.Earns freed' i g' t' := by
  refine ⟨fun c free rest since hr => ?_, fun hb c hc => ?_, fun c hc => ?_⟩
  · obtain ⟨hspawns, howes⟩ := h.pending c free rest since hr
    exact ⟨hspawns, howes.imp_right (hkept c)⟩
  · exact h.unfinished hb c (hinst c hc)
  · exact hkept c (h.installed c (hinst c hc))

namespace World

/-- Every attempt under way has earned what it has, and whatever was installed
has its loop. -/
structure Earned (freed : String × Nat → Prop) (w : World C T) : Prop where
  units : ∀ k r i a, (w.standing k r).call = some i → (w.standing k r).attempt = some a →
    a.Earns freed i w.registry w.trace
  begun : ∀ o c, (o, c) ∈ Trace.installs w.trace → w.hasBegun o.1
  installed : ∀ o c, (o, c) ∈ Trace.installs w.trace → HasLoop freed w.registry w.trace o c

theorem Earned.mono {freed freed' : String × Nat → Prop} {w : World C T} (h : w.Earned freed)
    (hmono : ∀ p, freed p → freed' p) : w.Earned freed' := by
  have hkept : ∀ {o c}, HasLoop freed w.registry w.trace o c →
      HasLoop freed' w.registry w.trace o c :=
    fun hl => hl.of_kept List.suffix_rfl hmono fun _ hp _ => .inl hp
  exact ⟨fun k r i a hi ha => (h.units k r i a hi ha).of_kept (fun _ => hkept) fun _ => id,
    h.begun, fun o c hc => hkept (h.installed o c hc)⟩

theorem earned_look {env : Collaborators C T} (hd : env.Disciplined) {w : World C T}
    (hw : w.Orderly) (hal : Aligned w.registry w.trace) {freed : String × Nat → Prop}
    (he : w.Earned freed) {i j : Nat} (hspares : w.SparesAt env i j) :
    (w.look env i j).Earned freed := by
  have hw' : (w.look env i j).Orderly := invariant_of_move (m := .look i j) orderly_step hw
  have hbegun : ∀ {l}, w.hasBegun l → (w.look env i j).hasBegun l :=
    fun h => hasBegun_move h (.look i j)
  have hsuffix : w.trace <:+ (w.look env i j).trace := trace_suffix_move env w (.look i j)
  rcases look_cases env w i j with h | ⟨c, a, as, t, hf, hs, ht, h⟩
  · rw [h]
    exact he
  have hsteps := Attempt.look_steps env (context a i c) t (w.site a)
  have hat : w.attempt? i j = some t := by rw [attempt?_of_working hf hs, ht]
  rw [h] at hw' hbegun hsuffix
  have hstanding := standing_of_working hw hf hs (List.mem_of_getElem? ht)
  have hstanding' := standing_put hw' hf ht hsteps
  have hown := (Attempt.Steps.earns hd hsteps hal
    (he.units _ _ i t (by rw [hstanding]) (by rw [hstanding]))).2
  have href : (t.look env (context a i c) (w.site a)).1.reference = t.reference :=
    congrArg Targeted.reference (Attempt.Steps.target_eq hsteps)
  -- The loops of all others are spared.
  have hkept : ∀ {o n}, o ≠ (i, t.reference) → HasLoop freed w.registry w.trace o n →
      HasLoop freed (w.look env i j).registry (w.look env i j).trace o n := by
    intro o n ho hloop
    refine hloop.of_kept (h ▸ hsuffix) (fun _ => id) fun p hp hpo => .inl ?_
    by_contra hgone
    obtain ⟨t', ht', hpt⟩ := hspares p hp hgone
    rw [hat] at ht'
    cases ht'
    rw [hpo] at hpt
    exact ho (Option.some.inj hpt)
  have hinst : ∀ {o n}, o ≠ (i, t.reference) →
      (o, n) ∈ Trace.installs (w.look env i j).trace → (o, n) ∈ Trace.installs w.trace := by
    intro o n ho hn
    rw [h] at hn
    exact Attempt.Steps.mem_installs hsteps hn ho
  have hi : (w.put i c as j (t.look env (context a i c) (w.site a))).hasBegun i :=
    hasBegun_of_call hw' (by rw [hstanding'])
  rw [h] at hkept hinst ⊢
  refine ⟨fun k r l b hl hb => ?_, fun o n hn => ?_, fun o n hn => ?_⟩
  · by_cases hkr : c.activator = k ∧ t.reference = r
    · obtain ⟨rfl, rfl⟩ := hkr
      rw [hstanding'] at hl hb
      cases hl
      cases hb
      exact hown
    · rw [standing_put_of_ne hw hw' hf hs ht hsteps fun hk hr => hkr ⟨hk, hr⟩] at hl hb
      have ho : (l, b.reference) ≠ (i, t.reference) := by
        rintro heq
        obtain ⟨rfl, hbt⟩ := Prod.mk.inj heq
        obtain ⟨⟨l', bs⟩, hwork, rfl⟩ := Option.map_eq_some_iff.1 hl
        obtain ⟨c', a', hf', hk, -⟩ := (atWork_eq_some_iff hw).1 hwork
        rw [hf] at hf'
        cases hf'
        exact hkr ⟨hk, hbt.symm.trans (reference_of_attempt hb)⟩
      exact (he.units k r l b hl hb).of_kept (fun n => hkept ho) fun n => hinst ho
  · by_cases ho : o = (i, t.reference)
    · rw [ho]
      exact hi
    · exact hbegun (he.begun o n (hinst ho hn))
  · by_cases ho : o = (i, t.reference)
    · subst ho
      rw [← href]
      exact hown.installed n (href.symm ▸ hn)
    · exact hkept ho (he.installed o n (hinst ho hn))

omit [Targeted T] in
theorem installs_append_quiet {t t' : Trace C T} (h : ∀ e ∈ t', e.install? = none) :
    Trace.installs (t' ++ t) = Trace.installs t := by
  rw [Trace.installs, List.filterMap_append, List.filterMap_eq_nil_iff.2 h]
  rfl

/-- Only a look installs anything. -/
theorem Step.installs_eq {env : Collaborators C T} {m : Move C T} {w w' : World C T}
    (h : Step env m w w') (hm : ∀ i j, m ≠ .look i j) :
    Trace.installs w'.trace = Trace.installs w.trace := by
  have hback := h.background
  cases h with
  | submit | join | cancel | drop => rfl
  | begin =>
      rw [begun, beginWork_eq]
      refine (installs_append_quiet fun e he => ?_).trans (installs_append_quiet fun e he => ?_)
      · obtain ⟨r, -, rfl⟩ := List.mem_map.1 (List.mem_reverse.1 he)
        rfl
      · obtain ⟨h, -, rfl⟩ := List.mem_map.1 (List.mem_reverse.1 he)
        rfl
  | look => exact absurd rfl (hm _ _)
  | close =>
      unfold closed
      dsimp only
      split
      · rfl
      · exact List.filterMap_cons_none rfl
  | _ =>
      obtain ⟨-, -, ns, ht⟩ := hback rfl
      refine (congrArg Trace.installs ht).trans (installs_append_quiet fun e he => ?_)
      obtain ⟨n, -, rfl⟩ := List.mem_map.1 he
      rfl

theorem earned_step {env : Collaborators C T} {m : Move C T} {w w' : World C T}
    (h : Step env m w w') (hm : ∀ i j, m ≠ .look i j) (hw : w.Orderly)
    {freed freed' : String × Nat → Prop} (he : w.Earned freed) (hmono : ∀ p, freed p → freed' p)
    (hfreed : m.isIntervention → ∀ p ∈ w.registry.held, p ∉ w'.registry.held → freed' p) :
    w'.Earned freed' := by
  have hinst := h.installs_eq hm
  have hheld : ∀ p ∈ w.registry.held, p ∈ w'.registry.held ∨ freed' p := by
    intro p hp
    cases h.loopEffect with
    | still _ hh => exact .inl (hh ▸ hp)
    | start hs hh =>
        rw [hh, (Registry.spawn_eq_ok hs).2.1]
        exact .inl (List.mem_append_left _ hp)
    | free hm' => exact or_iff_not_imp_left.2 (hfreed hm' p hp)
    | look => exact absurd rfl (hm _ _)
  have hkept : ∀ {o c}, HasLoop freed w.registry w.trace o c →
      HasLoop freed' w'.registry w'.trace o c :=
    fun hl => hl.of_kept h.trace_suffix hmono fun p hp _ => hheld p hp
  refine ⟨fun k r i a hi ha => ?_, fun o c hc => h.hasBegun (he.begun o c (hinst ▸ hc)),
    fun o c hc => hkept (he.installed o c (hinst ▸ hc))⟩
  cases h.effect hw k r with
  | same heq =>
      rw [heq] at hi ha
      exact (he.units k r i a hi ha).of_kept (fun _ => hkept) fun c hc => hinst ▸ hc
  | begin hc hq _ _ heq =>
      -- A call that begins has not installed anything.
      rw [heq] at hi ha
      cases hi
      have hfresh := Standing.stage_begun ha
      have hnone : ∀ c, ((i, a.reference), c) ∉ Trace.installs w'.trace := by
        intro c hcmem
        have hb := he.begun _ c (hinst ▸ hcmem)
        simp [World.hasBegun, hc, Call.hasBegun, hq] at hb
      exact ⟨by simp [hfresh], fun _ => hnone, fun c hc => absurd hc (hnone c)⟩
  | look => exact absurd rfl (hm _ _)
  | close _ _ heq | drop _ _ _ heq =>
      rw [heq] at hi
      cases hi

/-! ### Every run -/

/-- A loop was held until a move of an outsider freed its name. -/
def Freed (env : Collaborators C T) (w : World C T) (ms : List (Move C T)) (p : String × Nat) :
    Prop :=
  ∃ ms₁ m ms₂, ms = ms₁ ++ m :: ms₂ ∧ m.isIntervention ∧ p ∈ (w.play env ms₁).registry.held ∧
    p ∉ ((w.play env ms₁).move env m).registry.held

/-- Every controller that was installed has its loop, unless an outsider has
freed the name. -/
def Keeps (env : Collaborators C T) (w : World C T) (ms : List (Move C T)) : Prop :=
  ∀ o c, (o, c) ∈ Trace.installs (w.play env ms).trace →
    HasLoop (w.Freed env ms) (w.play env ms).registry (w.play env ms).trace o c

theorem EveryLook.of_append {env : Collaborators C T} {P : World C T → Nat → Nat → Prop}
    {w : World C T} {ms ms' : List (Move C T)} (h : EveryLook env P w (ms ++ ms')) :
    EveryLook env P w ms := by
  rintro ms₁ i j ms₂ rfl
  exact h ms₁ i j (ms₂ ++ ms') (by simp)

theorem Freed.concat {env : Collaborators C T} {w : World C T} {ms : List (Move C T)}
    {p : String × Nat} (h : w.Freed env ms p) (m : Move C T) : w.Freed env (ms ++ [m]) p := by
  obtain ⟨ms₁, m', ms₂, rfl, hm', hp, hp'⟩ := h
  exact ⟨ms₁, m', ms₂ ++ [m], by simp, hm', hp, hp'⟩

theorem earned_play {env : Collaborators C T} (hd : env.Disciplined)
    {as : List (String × Policy)} {ms : List (Move C T)}
    (hspares : (ofActivators as).Spares env ms) :
    ((ofActivators as).play env ms).Earned ((ofActivators as).Freed env ms) := by
  induction ms using List.reverseRecOn with
  | nil =>
      refine ⟨fun k r i a hi _ => ?_, nofun, nofun⟩
      rw [play, List.foldl_nil, standing_ofActivators] at hi
      cases hi
  | append_singleton ms m ih =>
      have he := ih hspares.of_append
      have hw : ((ofActivators as).play env ms).Orderly := orderly_play ms (orderly_ofActivators as)
      have hmono : ∀ p, (ofActivators as).Freed env ms p →
          (ofActivators as).Freed env (ms ++ [m]) p := fun p h => h.concat m
      rw [play_concat]
      by_cases hm : ∃ i j, m = .look i j
      · obtain ⟨i, j, rfl⟩ := hm
        exact (earned_look hd hw (aligned_play ms (aligned_ofActivators as)) he
          (hspares ms i j [] rfl)).mono hmono
      · have hm : ∀ i j, m ≠ .look i j := fun i j h => hm ⟨i, j, h⟩
        rcases move_cases env ((ofActivators as).play env ms) hm with h | h
        · rw [h]
          exact he.mono hmono
        · exact earned_step h hm hw he hmono fun hi p hp hgone =>
            ⟨ms, m, [], rfl, hi, hp, hgone⟩

/-- Failed registrations end none but their own loops, and installed controllers
keep theirs, exactly in the runs in which no registration ends badly while
somebody else has a loop of the name that it had found free. -/
theorem spares_and_keeps_iff {env : Collaborators C T} (hd : env.Disciplined)
    (as : List (String × Policy)) (ms : List (Move C T)) :
    ((ofActivators as).Spares env ms ∧ (ofActivators as).Keeps env ms) ↔
      (ofActivators as).NeverOvertaken env ms := by
  rw [← spares_iff, and_iff_left_iff_imp]
  exact fun hspares => (earned_play hd hspares).installed

end World

/-! ## Names that are kept apart -/

/-- Every loop of a name that an attempt found free is its own. -/
def Attempt.Undisputed (g : Registry) (t : Trace C T) (k i : Nat) (a : Attempt T) : Prop :=
  ∀ c free rest since, a.stage = .registering c free rest since →
    rest.spawnsOnly c = true ∧ (∃ j, (j, .created c) ∈ Trace.acts t k a.reference) ∧
      (free = true → ∀ p ∈ g.held, p.1 = c → Trace.owner? t p.2 = some (i, a.reference))

/-- Loops of other names do not matter. -/
theorem Attempt.Undisputed.of_held {g g' : Registry} {t t' : Trace C T} {k i : Nat}
    {a : Attempt T} (h : a.Undisputed g t k i) (ht : t <:+ t')
    (hheld : ∀ c j, (j, .created c) ∈ Trace.acts t k a.reference → ∀ p ∈ g'.held, p.1 = c →
      p ∈ g.held) : a.Undisputed g' t' k i := by
  intro c free rest since hr
  obtain ⟨hspawns, ⟨j, hj⟩, hown⟩ := h c free rest since hr
  exact ⟨hspawns, ⟨j, acts_subset ht hj⟩, fun hfree p hp hpc =>
    owner?_of_suffix ht (hown hfree p (hheld c j hj p hp hpc) hpc)⟩

theorem Attempt.Step.undisputed {env : Collaborators C T} (hd : env.Disciplined)
    {x : Context C} {a b : Attempt T} {s s' : Site C T}
    (h : Attempt.Step env x (a, s) (b, s')) (hs : Aligned s.registry s.trace)
    (ha : a.Undisputed s.registry s.trace x.scope.activator x.scope.call) :
    b.Undisputed s'.registry s'.trace x.scope.activator x.scope.call := by
  have hsuffix := h.trace_suffix
  cases h with
  | draw => exact ha
  | @create _ _ _ _ _ s₁ c hw _ _ _ _ _ hs₁ hk =>
      rintro _ _ _ _ ⟨⟩
      subst hs₁
      obtain ⟨hspawns, -⟩ := hd _ s.now x.scope.capability a.target x.scope.config
      rw [← hk] at hspawns
      refine ⟨hspawns, ⟨x.scope.call, ?_⟩, fun hfree p hp hpc => ?_⟩
      · rw [acts_note_self rfl rfl, acts_note_self rfl rfl]
        simp
      · -- The name was free, so no loop has it.
        have hreg : s.registry.isRegistered c.name = true := by
          rw [← hpc, Registry.isRegistered_iff]
          exact List.mem_map_of_mem hp
        rw [hreg] at hfree
        cases hfree
  | @register _ _ c free rest since rest' s' hr hstep =>
      rintro _ _ _ _ ⟨⟩
      obtain ⟨hspawns, ⟨j, hj⟩, hown⟩ := ha c free rest since hr
      have hcreated : ∃ j, (j, .created c) ∈ Trace.acts s'.trace x.scope.activator a.reference :=
        ⟨j, acts_subset hsuffix hj⟩
      refine ⟨hstep.spawnsOnly hspawns, hcreated, fun hfree p hp hpc => ?_⟩
      obtain ⟨⟨hg, -⟩, -⟩ | ⟨name, body, -, hspawn, ht⟩ := hstep.loops
      · exact owner?_of_suffix hsuffix (hown hfree p (hg ▸ hp) hpc)
      · rw [(Registry.spawn_eq_ok hspawn).2.1] at hp
        rcases List.mem_append.1 hp with hp | hp
        · exact owner?_of_suffix hsuffix (hown hfree p hp hpc)
        · rw [List.mem_singleton.1 hp]
          exact owner?_started hs ht
  | _ => rintro _ _ _ _ ⟨⟩

namespace World

/-- Every attempt at work has the loops of its name to itself. -/
def Undisputed (w : World C T) : Prop :=
  ∀ k r i a, (w.standing k r).call = some i → (w.standing k r).attempt = some a →
    a.Undisputed w.registry w.trace k i

theorem undisputed_look {env : Collaborators C T} (hd : env.Disciplined) {w : World C T}
    (hw : w.Orderly) (hal : Aligned w.registry w.trace) (hu : w.Undisputed) {i j : Nat}
    {c : Call C T} {a : Activator} {as : List (Attempt T)} {t : Attempt T}
    {p : Attempt T × Site C T} (hf : w.find? i = some (c, a)) (hs : c.stage = .working as)
    (ht : as[j]? = some t) (hp : Attempt.Step env (context a i c) (t, w.site a) p)
    (hapart : Trace.Apart (w.put i c as j p).trace) : (w.put i c as j p).Undisputed := by
  obtain ⟨b, s⟩ := p
  have hstep : Step env (.look i j) w (w.put i c as j (b, s)) := .look hf hs ht hp
  have hw' := orderly_step hstep hw
  have hgrows : w.trace <:+ (w.put i c as j (b, s)).trace := hstep.trace_suffix
  have hstanding := standing_of_working hw hf hs (List.mem_of_getElem? ht)
  have hown := hu c.activator t.reference i t (by rw [hstanding]) (by rw [hstanding])
  intro k r l d hl hd'
  by_cases hkr : c.activator = k ∧ t.reference = r
  · obtain ⟨rfl, rfl⟩ := hkr
    rw [standing_put hw' hf ht (.single hp)] at hl hd'
    cases hl
    cases hd'
    exact hp.undisputed hd hal hown
  · rw [standing_put_of_ne hw hw' hf hs ht (.single hp) fun hk hr => hkr ⟨hk, hr⟩] at hl hd'
    have hdr := reference_of_attempt hd'
    refine (hu k r l d hl hd').of_held hgrows fun n m hn q hq hqn => ?_
    have hq : q ∈ s.registry.held := hq
    cases hp.holds with
    | still h =>
        rw [h.1] at hq
        exact hq
    | free _ _ hh _ _ =>
        rw [hh] at hq
        exact (List.mem_filter.1 hq).1
    | start hr _ hname hspawn _ =>
        -- The loop that was started has another name.
        obtain ⟨hspawns, ⟨m', hm'⟩, -⟩ := hown _ _ _ _ hr
        rw [(Registry.spawn_eq_ok hspawn).2.1] at hq
        refine (List.mem_append.1 hq).resolve_right fun hq => hkr ?_
        rw [← hqn, List.mem_singleton.1 hq, hname hspawns] at hn
        obtain ⟨hk, hr⟩ := hapart.unit_eq (acts_subset hgrows hm') (acts_subset hgrows hn)
        exact ⟨hk, hr.trans hdr⟩

theorem undisputed_step {env : Collaborators C T} (hd : env.Disciplined) {m : Move C T}
    {w w' : World C T} (h : Step env m w w') (hw : w.Orderly)
    (hal : Aligned w.registry w.trace) (hapart : Trace.Apart w'.trace) (hu : w.Undisputed) :
    w'.Undisputed := by
  have hgrows := h.trace_suffix
  -- What is no look leaves the attempts alone, and takes no name of theirs.
  have hother : (∀ i j, m ≠ .look i j) →
      (∀ c k r j, (j, .created c) ∈ Trace.acts w.trace k r → ∀ p ∈ w'.registry.held, p.1 = c →
        p ∈ w.registry.held) → w'.Undisputed := by
    intro hlook hheld k r i a hi ha
    cases h.effect hw k r with
    | same heq =>
        rw [heq] at hi ha
        exact (hu k r i a hi ha).of_held hgrows fun c j => hheld c k a.reference j
    | begin _ _ _ _ heq =>
        rw [heq] at ha
        intro c free rest since hr
        rw [Standing.stage_begun ha] at hr
        cases hr
    | look => exact absurd rfl (hlook _ _)
    | close _ _ heq | drop _ _ _ heq =>
        rw [heq] at hi
        cases hi
  cases h.loopEffect with
  | look hf hs ht hp => exact undisputed_look hd hw hal hu hf hs ht hp hapart
  | still hlook hh => exact hother hlook fun c k r j _ p hp _ => hh ▸ hp
  | free hm hh =>
      refine hother (fun i j h => ?_) fun c k r j _ p hp _ => hh.subset hp
      subst h
      cases hm
  | @start _ _ name _ _ hs hh _ ht =>
      refine hother nofun fun c k r j hj p hp hpc => ?_
      rw [hh, (Registry.spawn_eq_ok hs).2.1] at hp
      refine (List.mem_append.1 hp).resolve_right fun hp => ?_
      have hname : c = name := hpc.symm.trans (congrArg Prod.fst (List.mem_singleton.1 hp))
      refine hapart.not_mem_foreign (acts_subset hgrows hj) ?_
      simp [Trace.foreign, ht, hname]

theorem undisputed_play {env : Collaborators C T} (hd : env.Disciplined)
    {as : List (String × Policy)} {ms : List (Move C T)}
    (hapart : Trace.Apart ((ofActivators as).play env ms).trace) :
    ((ofActivators as).play env ms).Undisputed := by
  have h : ∀ {m : Move C T} {w w' : World C T}, True → Step env m w w' → w.Orderly →
      Aligned w.registry w.trace ∧ (Trace.Apart w.trace → w.Undisputed) →
      Aligned w'.registry w'.trace ∧ (Trace.Apart w'.trace → w'.Undisputed) :=
    fun _ hstep hw ⟨hal, hu⟩ => ⟨aligned_step hstep hal, fun hapart =>
      undisputed_step hd hstep hw hal hapart (hu (hapart.of_suffix hstep.trace_suffix))⟩
  refine (invariant_of_orderly (A := fun _ => True) h (fun _ _ => trivial)
    (orderly_ofActivators as) ⟨aligned_ofActivators as, fun _ k r i a hi _ => ?_⟩).2 hapart
  rw [standing_ofActivators] at hi
  cases hi

/-- Where names are kept apart, nobody is overtaken. -/
theorem neverOvertaken_of_apart {env : Collaborators C T} (hd : env.Disciplined)
    {as : List (String × Policy)} {ms : List (Move C T)}
    (hapart : Trace.Apart ((ofActivators as).play env ms).trace) :
    (ofActivators as).NeverOvertaken env ms := by
  rintro ms₁ i j ms₂ rfl ⟨⟨t, ht, p, hp, hclaims, hother⟩, hfails⟩
  have hsuffix : ((ofActivators as).play env ms₁).trace <:+
      ((ofActivators as).play env (ms₁ ++ .look i j :: ms₂)).trace := by
    rw [play_append]
    exact trace_suffix_play ..
  have hw : ((ofActivators as).play env ms₁).Orderly := orderly_play ms₁ (orderly_ofActivators as)
  have hu := undisputed_play hd (hapart.of_suffix hsuffix)
  generalize (ofActivators as).play env ms₁ = w at *
  obtain ⟨rest, since, hr⟩ := Attempt.claims_iff.1 hclaims
  rcases look_cases env w i j with h | ⟨c, a, bs, t', hf, hs, ht', -⟩
  · simp [failsAt, h, ht, Attempt.cause?, hr] at hfails
  · rw [attempt?_of_working hf hs, ht'] at ht
    cases ht
    have hstanding := standing_of_working hw hf hs (List.mem_of_getElem? ht')
    have hown := hu c.activator t.reference i t (by rw [hstanding]) (by rw [hstanding])
    exact hother ((hown _ _ _ _ hr).2.2 rfl p hp rfl)

end World

/-! ## Two controllers of one name -/

/-- Collaborators who give every controller the same name. That of the target "a"
starts its loop after half a second, the others at once. -/
def Collaborators.namesakes : Collaborators String ResourceReference where
  remote := false
  refusal? _ := none
  check _ _ _ := ⟨false, some 0, .ready⟩
  create _ _ _ r _ :=
    let loop := Registration.spawn "shared" .forever (.synced (.finish none))
    ⟨"shared", if r.name = "a" then .sleep (some 500) none loop else loop⟩

theorem disciplined_namesakes : Collaborators.namesakes.Disciplined := by
  intro t now capability r config
  dsimp only [Collaborators.namesakes]
  split <;> simp [Registration.spawnsOnly, Registration.owes]

namespace World

/-- The first target finds the name free, the second one takes it, and the first
one ends the loop of the second. -/
theorem not_spares_of_overtaken :
    let w := ofActivators [("widgets", Policy.default)]
    let ms := [.submit [.plain 0 "v1" ["a", "b"]], .join 0, .begin 0, .look 0 0, .look 0 1,
      .advance 500, .look 0 0]
    Collaborators.namesakes.Disciplined ∧ ¬ w.Spares .namesakes ms ∧ ¬ w.Keeps .namesakes ms := by
  intro w ms
  refine ⟨disciplined_namesakes, fun h => ?_, fun h => ?_⟩
  · obtain ⟨t, ht, ho⟩ := h (ms.take 6) 0 0 [] rfl ("shared", 0) (by decide +kernel)
      (by decide +kernel)
    have hown : (w.play .namesakes (ms.take 6)).trace.owner? 0 = some (0, .plain "b") := by
      decide +kernel
    have href : ((w.play .namesakes (ms.take 6)).attempt? 0 0).map Attempt.reference =
        some (.plain "a") := by decide +kernel
    rw [hown, Option.some.injEq, Prod.mk.injEq] at ho
    rw [ht, Option.map_some, ← ho.2] at href
    exact absurd href (by decide)
  · obtain ⟨l, -, hl⟩ := h (0, .plain "b") "shared" (by decide +kernel)
    rcases hl with hl | ⟨ms₁, m, ms₂, hms, hm, -⟩
    · have hnone : (w.play .namesakes ms).registry.held = [] := by decide +kernel
      rw [hnone] at hl
      cases hl
    · have hall : ∀ m ∈ ms, m.isIntervention = false := by decide +kernel
      rw [hall m (by rw [hms]; simp)] at hm
      cases hm

/-- The same two targets, the first one looked at again only after an outsider
has freed the name. -/
theorem spares_and_keeps_iff_namesakes :
    let ms := [.submit [.plain 0 "v1" ["a", "b"]], .join 0, .begin 0, .look 0 0, .look 0 1,
      .abort "shared", .advance 500, .look 0 0, .close 0]
    let w := ofActivators [("widgets", Policy.default)]
    Collaborators.namesakes.Disciplined ∧
      ((w.Spares .namesakes ms ∧ w.Keeps .namesakes ms) ↔ w.NeverOvertaken .namesakes ms) := by
  intro ms w
  exact ⟨disciplined_namesakes, spares_and_keeps_iff disciplined_namesakes _ _⟩

end World

end Lifecycle
