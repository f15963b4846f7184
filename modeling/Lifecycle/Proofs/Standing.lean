import Lifecycle.Proofs.Orderly

/-!
# One reference of one activator

Most of what is promised about the engine is promised for a reference: what its
controller is told, when an attempt may fail, what is in the store afterwards.
A whole world has many references and many activators, and nearly every step
leaves nearly all of them alone. `World.standing` is what a world has for one of
them, with the history of what was done about it, and `Step.effect` says what a
step does to that: nothing, or one of five things. After this file nothing
about a single reference needs the other references, or the other activators.

The proof of `Step.effect` is where the order of the world is used. That at
most one call of an activator is at work makes "its" attempt for a reference
well-defined, and that a call has one attempt for each reference makes a look
at any other attempt a look at somebody else's.
-/

namespace Lifecycle

variable {C T : Type}

/-! ## Histories -/

/-- One thing that an activator does about a reference. -/
inductive Act where
  | probed (gv : GroupVersion)
  | answered (gv : GroupVersion) (finding : Finding Fault)
  | created (controller : String)
  | registering (controller : String)
  | returned (controller : String) (fault : Option Fault) (cancelled : Bool)
  | updated (controller : String)
  | deactivated (controller : String)
  deriving DecidableEq

section Acts

variable [Targeted T]

/-- The act that a happening is, with the reference it is about. -/
def Happening.act? : Happening C T → Option (ResourceReference × Act)
  | .probed gv (some r) => some (r, .probed gv)
  | .answered gv (some r) f => some (r, .answered gv f)
  | .created c t _ => some (reference t, .created c)
  | .registering c r => some (r, .registering c)
  | .returned c r f b => some (r, .returned c f b)
  | .updated r c _ => some (r, .updated c)
  | .deactivated r c => some (r, .deactivated c)
  | _ => none

/-- The act that an entry is for an activator and a reference, with its call. -/
def Entry.act? (k : Nat) (r : ResourceReference) (e : Entry C T) : Option (Nat × Act) :=
  match e.scope, e.what.act? with
  | some x, some (q, a) => if x.activator = k ∧ q = r then some (x.call, a) else none
  | _, _ => none

/-- What an activator has done about a reference, each act with its call, in
the order of time. -/
def Trace.acts (t : Trace C T) (k : Nat) (r : ResourceReference) : List (Nat × Act) :=
  t.reverse.filterMap (Entry.act? k r)

variable {k : Nat} {r : ResourceReference}

theorem Trace.acts_cons (e : Entry C T) (t : Trace C T) :
    Trace.acts (e :: t) k r = Trace.acts t k r ++ (e.act? k r).toList := by
  rw [Trace.acts, List.reverse_cons, List.filterMap_append]
  cases h : e.act? k r <;> simp [Trace.acts, h]

theorem Trace.acts_append (t t' : Trace C T) :
    Trace.acts (t' ++ t) k r = Trace.acts t k r ++ Trace.acts t' k r := by
  rw [Trace.acts, List.reverse_append, List.filterMap_append]
  rfl

theorem Trace.acts_of_none {t : Trace C T} (h : ∀ e ∈ t, e.act? k r = none) :
    Trace.acts t k r = [] := by
  rw [Trace.acts, List.filterMap_eq_nil_iff]
  exact fun e he => h e (List.mem_reverse.1 he)

/-- A note adds its act to the history that it belongs to, and to no other. -/
theorem acts_note (s : Site C T) (x : Context C) (h : Happening C T) :
    Trace.acts (s.note x h).trace k r = Trace.acts s.trace k r ++
      (Entry.act? k r ⟨s.now, some x.scope, h⟩).toList := Trace.acts_cons ..

theorem acts_note_self {s : Site C T} {x : Context C} {h : Happening C T} {a : Act}
    (hk : x.scope.activator = k) (ha : h.act? = some (r, a)) :
    Trace.acts (s.note x h).trace k r = Trace.acts s.trace k r ++ [(x.scope.call, a)] := by
  rw [acts_note]
  simp [Entry.act?, ha, hk]

theorem acts_note_none {s : Site C T} {x : Context C} {h : Happening C T}
    (ha : ∀ a, x.scope.activator = k → h.act? ≠ some (r, a)) :
    Trace.acts (s.note x h).trace k r = Trace.acts s.trace k r := by
  rw [acts_note]
  unfold Entry.act?
  cases hh : h.act? with
  | none => simp
  | some p =>
      obtain ⟨q, a⟩ := p
      dsimp only
      split
      · next hkq => exact absurd (hkq.2 ▸ hh) (ha a hkq.1)
      · simp

theorem acts_note_quiet {s : Site C T} {x : Context C} {h : Happening C T}
    (ha : h.act? = none) :
    Trace.acts (s.note x h).trace k r = Trace.acts s.trace k r :=
  acts_note_none fun _ _ hb => by cases ha.symm.trans hb

/-- Freeing a name is not an act. -/
@[simp] theorem acts_release (x : Context C) (q : ResourceReference) (c : String) (free : Bool)
    (s : Site C T) :
    Trace.acts (Attempt.release x q c free s).trace k r = Trace.acts s.trace k r := by
  rcases Attempt.release_cases x q c free s with h | ⟨g, -, h⟩ <;> rw [h]
  rw [acts_note_quiet rfl, acts_note_quiet rfl]

/-- What a registration does by itself is no act. -/
theorem Registration.Step.acts_eq {x : Context C} {c : String} {q : ResourceReference}
    {rest rest' : Registration} {since : Nat} {s s' : Site C T}
    (h : Registration.Step x c q rest since s rest' s') :
    Trace.acts s'.trace k r = Trace.acts s.trace k r := by
  cases h with
  | refused | cancel | wake => rfl
  | spawn | spawnOr | synced => exact acts_note_quiet rfl

/-- What is done about one attempt is an act for its own reference only. -/
theorem Attempt.Step.acts_of_ne {env : Collaborators C T} {x : Context C}
    {p q : Attempt T × Site C T} (h : Attempt.Step env x p q)
    (hne : x.scope.activator = k → p.1.reference ≠ r) :
    Trace.acts q.2.trace k r = Trace.acts p.2.trace k r := by
  have hnote : ∀ {s : Site C T} {h : Happening C T} {a : Act},
      h.act? = some (p.1.reference, a) →
      Trace.acts (s.note x h).trace k r = Trace.acts s.trace k r := by
    intro s h a ha
    refine acts_note_none fun b hk hb => hne hk ?_
    rw [ha] at hb
    exact congrArg Prod.fst (Option.some.inj hb)
  cases h with
  | draw | wait | ask | giveUp => rfl
  | update => exact hnote rfl
  | unaskable | expire => exact acts_note_quiet rfl
  | probe => exact hnote rfl
  | miss => exact hnote rfl
  | fail => exact (acts_note_quiet rfl).trans (hnote rfl)
  | create _ _ _ _ _ _ hs =>
      subst hs
      exact (hnote rfl).trans ((hnote rfl).trans (hnote rfl))
  | register _ hs => exact hs.acts_eq
  | install => exact (acts_note_quiet rfl).trans (hnote rfl)
  | refuse => exact (acts_note_quiet rfl).trans ((acts_release ..).trans (hnote rfl))
  | revoke => exact (acts_release ..).trans (hnote rfl)

theorem Attempt.Steps.acts_of_ne {env : Collaborators C T} {x : Context C}
    {p q : Attempt T × Site C T} (h : Attempt.Steps env x p q)
    (hne : x.scope.activator = k → p.1.reference ≠ r) :
    Trace.acts q.2.trace k r = Trace.acts p.2.trace k r := by
  induction h with
  | refl => rfl
  | tail hs h ih =>
      refine (h.acts_of_ne fun hk => ?_).trans ih
      rw [reference, Attempt.Steps.target_eq hs]
      exact hne hk

/-- A step of one attempt touches the holding of its own reference only. -/
theorem Attempt.Step.get?_of_ne {env : Collaborators C T} {x : Context C}
    {p q : Attempt T × Site C T} (h : Attempt.Step env x p q) (hne : p.1.reference ≠ r) :
    q.2.store.get? r = p.2.store.get? r := by
  rcases h.store_cases with h | h | ⟨c, h⟩ <;> rw [h]
  · rw [Store.get?_activate]
    simp [Ne.symm hne]
  · rw [Store.get?_install, if_neg (Ne.symm hne)]

theorem Attempt.Steps.get?_of_ne {env : Collaborators C T} {x : Context C}
    {p q : Attempt T × Site C T} (h : Attempt.Steps env x p q) (hne : p.1.reference ≠ r) :
    q.2.store.get? r = p.2.store.get? r := by
  induction h with
  | refl => rfl
  | tail hs h ih =>
      refine (h.get?_of_ne ?_).trans ih
      rw [reference, Attempt.Steps.target_eq hs]
      exact hne

end Acts

/-! ## Who is at work -/

namespace World

/-- The call of an activator that is at work, with its attempts. -/
def atWork (w : World C T) (k : Nat) : Option (Nat × List (Attempt T)) :=
  match (w.activators[k]?).bind fun a => a.queue.head? with
  | none => none
  | some i =>
    match w.calls[i]? with
    | none => none
    | some c =>
      match c.stage with
      | .working as => if c.activator = k then some (i, as) else none
      | _ => none

/-! ### Holdings -/

theorem holding?_eq {w : World C T} {k : Nat} {a : Activator} (h : w.activators[k]? = some a)
    (r : ResourceReference) : w.holding? k r = a.store.get? r := by
  simp [holding?, h]

theorem holding?_modify {w w' : World C T} {k : Nat} {f : Activator → Activator}
    (h : w'.activators = w.activators.modify k f) (hf : ∀ a, (f a).store = a.store) (l : Nat)
    (r : ResourceReference) : w'.holding? l r = w.holding? l r := by
  simp only [holding?, h, List.getElem?_modify]
  cases w.activators[l]? with
  | none => rfl
  | some a =>
      by_cases hkl : k = l
      · simp [hkl, hf]
      · simp [hkl]

theorem holding?_withSite {w : World C T} {k : Nat} {a : Activator}
    (h : w.activators[k]? = some a) (s : Site C T) (l : Nat) (r : ResourceReference) :
    (w.withSite k s).holding? l r = if k = l then s.store.get? r else w.holding? l r := by
  by_cases hkl : k = l
  · subst hkl
    simp [holding?, withSite, h]
  · simp [holding?, withSite, hkl]

theorem holding?_put {w : World C T} {i j : Nat} {c : Call C T} {a : Activator}
    {as : List (Attempt T)} {p : Attempt T × Site C T} (ha : w.activators[c.activator]? = some a)
    (k : Nat) (r : ResourceReference) : (w.put i c as j p).holding? k r =
      if c.activator = k then p.2.store.get? r else w.holding? k r :=
  holding?_withSite ha p.2 k r

/-! ### Calls at work -/

variable [Targeted T]

theorem atWork_eq_some_iff {w : World C T} (hw : w.Orderly) {k i : Nat}
    {as : List (Attempt T)} :
    w.atWork k = some (i, as) ↔
      ∃ c a, w.find? i = some (c, a) ∧ c.activator = k ∧ c.stage = .working as := by
  constructor
  · intro h
    unfold atWork at h
    split at h
    · cases h
    · next j hj =>
        obtain ⟨a, ha, hhead⟩ := Option.bind_eq_some_iff.1 hj
        split at h
        · cases h
        · next c hc =>
            split at h
            · next bs hs =>
                split at h
                · next hk =>
                    cases h
                    exact ⟨c, a, find?_eq_some.2 ⟨hc, hk ▸ ha⟩, hk, hs⟩
                · cases h
            · cases h
  · rintro ⟨c, a, hf, rfl, hs⟩
    obtain ⟨hc, ha⟩ := find?_eq_some.1 hf
    rw [atWork, ha, Option.bind_some, hw.inTurn i c a as hf hs]
    simp only [hc, hs, if_true]

/-- Calls that keep their stages keep their work. -/
theorem atWork_congr {w w' : World C T} (hw : w.Orderly) (hw' : w'.Orderly) {k : Nat}
    {f : Nat → Call C T × Activator → Call C T × Activator}
    (hf : ∀ j, w'.find? j = (w.find? j).map (f j))
    (hk : ∀ j p, w.find? j = some p → (f j p).1.activator = p.1.activator)
    (hs : ∀ j p, w.find? j = some p → p.1.activator = k →
      ∀ as, (f j p).1.stage = .working as ↔ p.1.stage = .working as) :
    w'.atWork k = w.atWork k := by
  refine Option.ext fun ⟨j, as⟩ => ?_
  rw [atWork_eq_some_iff hw', atWork_eq_some_iff hw, hf]
  constructor
  · rintro ⟨c, a, h, hck, hcs⟩
    obtain ⟨p, hj, heq⟩ := Option.map_eq_some_iff.1 h
    have hc : (f j p).1 = c := congrArg Prod.fst heq
    subst hc
    rw [hk j p hj] at hck
    exact ⟨p.1, p.2, hj, hck, (hs j p hj hck as).1 hcs⟩
  · rintro ⟨c, a, h, hck, hcs⟩
    refine ⟨(f j (c, a)).1, (f j (c, a)).2, by rw [h]; rfl, ?_, (hs j _ h hck as).2 hcs⟩
    rw [hk j _ h, hck]

section Left

variable {w w' : World C T} {i l k : Nat} {st : CallStage T}

/-- A call at work that is over leaves no call at work. -/
theorem atWork_left (hw : w.Orderly) (hw' : w'.Orderly)
    (hf : ∀ j, w'.find? j = (w.find? j).map fun (d, b) =>
      (if i = j then { d with stage := st } else d,
        if l = d.activator then { b with queue := b.queue.erase i } else b))
    (hst : ∀ as, st ≠ .working as) {as : List (Attempt T)} (h : w.atWork k = some (i, as)) :
    w'.atWork k = none := by
  refine Option.eq_none_iff_forall_ne_some.2 fun ⟨j, bs⟩ hj => ?_
  obtain ⟨d', b', hj, hk, hd⟩ := (atWork_eq_some_iff hw').1 hj
  rw [hf] at hj
  obtain ⟨⟨d, b⟩, hj₀, heq⟩ := Option.map_eq_some_iff.1 hj
  cases heq
  by_cases hij : i = j
  · rw [if_pos hij] at hd
    exact hst bs hd
  · rw [if_neg hij] at hd hk
    have := (atWork_eq_some_iff hw).2 ⟨d, b, hj₀, hk, hd⟩
    rw [h] at this
    exact hij (Prod.mk.inj (Option.some.inj this)).1

/-- A call that was not at work leaves the call at work alone. -/
theorem atWork_left_of_ne (hw : w.Orderly) (hw' : w'.Orderly)
    (hf : ∀ j, w'.find? j = (w.find? j).map fun (d, b) =>
      (if i = j then { d with stage := st } else d,
        if l = d.activator then { b with queue := b.queue.erase i } else b))
    (hst : ∀ as, st ≠ .working as) (h : ∀ as, w.atWork k ≠ some (i, as)) :
    w'.atWork k = w.atWork k := by
  refine atWork_congr hw hw' hf (fun j p _ => ?_) fun j ⟨c, a⟩ hj hk as => ?_
  · dsimp only
    split <;> rfl
  · dsimp only
    split
    · next hij =>
        subst hij
        exact ⟨fun h => absurd h (hst as),
          fun hs => absurd ((atWork_eq_some_iff hw).2 ⟨c, a, hj, hk, hs⟩) (h as)⟩
    · exact .rfl

end Left

end World

/-! ## Standings -/

/-- What there is for one reference of one activator. -/
structure Standing (T : Type) where
  holding : Option Holding
  /-- The call that is at work. -/
  call : Option Nat
  /-- Its attempt for the reference. -/
  attempt : Option (Attempt T)
  acts : List (Nat × Act)

section Standing

variable [Targeted T]

/-- What a call that begins its work makes of a standing. -/
def Standing.begun (u : Standing T) (i : Nat) (targets : List T) (r : ResourceReference) :
    Standing T where
  holding := u.holding.map fun h =>
    if r ∈ targets.map reference then h else { h with active := false }
  call := some i
  attempt := ((distinctTargets targets).find? fun t => reference t = r).map Attempt.begin
  acts := u.acts ++ (u.holding.bind fun h =>
    if h.active ∧ r ∉ targets.map reference then some (i, .deactivated h.controller)
    else none).toList

/-- A call that begins has an attempt for what it wants and for nothing else. -/
theorem Standing.isSome_attempt_begun (u : Standing T) (i : Nat) (targets : List T)
    (r : ResourceReference) :
    (u.begun i targets r).attempt.isSome ↔ r ∈ targets.map reference := by
  have hmem : r ∈ targets.map reference ↔ r ∈ (distinctTargets targets).map reference := by
    refine Iff.trans ?_ mem_map_distinctBy.symm
    simp
  rw [begun, Option.isSome_map, List.find?_isSome, hmem, List.mem_map]
  simp

theorem Standing.stage_begun {u : Standing T} {i : Nat} {targets : List T}
    {r : ResourceReference} {a : Attempt T} (h : (u.begun i targets r).attempt = some a) :
    a.stage = .fresh := by
  obtain ⟨t, -, rfl⟩ := Option.map_eq_some_iff.1 h
  rfl

/-- What a call that is over leaves of a standing. -/
def Standing.left (u : Standing T) : Standing T := { u with call := none, attempt := none }

namespace World

def standing (w : World C T) (k : Nat) (r : ResourceReference) : Standing T where
  holding := w.holding? k r
  call := (w.atWork k).map (·.1)
  attempt := (w.atWork k).bind fun p => p.2.find? fun a => a.reference = r
  acts := Trace.acts w.trace k r

theorem reference_of_attempt {w : World C T} {k : Nat} {r : ResourceReference} {a : Attempt T}
    (h : (w.standing k r).attempt = some a) : a.reference = r := by
  obtain ⟨p, -, hp⟩ := Option.bind_eq_some_iff.1 h
  simpa using List.find?_some hp

/-- A call at work has had its turn. -/
theorem hasBegun_of_call {w : World C T} (hw : w.Orderly) {k : Nat} {r : ResourceReference}
    {i : Nat} (h : (w.standing k r).call = some i) : w.hasBegun i := by
  obtain ⟨⟨j, as⟩, hwork, rfl⟩ := Option.map_eq_some_iff.1 h
  obtain ⟨c, a, hf, -, hs⟩ := (atWork_eq_some_iff hw).1 hwork
  exact (Option.any_eq_true ..).2 ⟨c, (find?_eq_some.1 hf).1, by simp [Call.hasBegun, hs]⟩

/-- What a step does to a standing. -/
inductive Effect (env : Collaborators C T) (k : Nat) (r : ResourceReference) (w w' : World C T) :
    Move C T → Prop where
  | same {m} (h : w'.standing k r = w.standing k r) : Effect env k r w w' m
  | begin {i c} (hc : w.calls[i]? = some c) (hq : c.stage = .queued) (hk : c.activator = k)
      (hn : w.atWork k = none) (h : w'.standing k r = (w.standing k r).begun i c.targets r) :
      Effect env k r w w' (.begin i)
  /-- The attempt for the reference makes a step, with the site of its activator. -/
  | look {i j c a as t p} (hf : w.find? i = some (c, a)) (hs : c.stage = .working as)
      (hk : c.activator = k) (ht : as[j]? = some t) (hr : t.reference = r)
      (hp : Attempt.Step env (context a i c) (t, w.site a) p) (hw : w' = w.put i c as j p)
      (h : w.standing k r =
        ⟨a.store.get? r, some i, some t, Trace.acts w.trace k r⟩)
      (h' : w'.standing k r =
        ⟨p.2.store.get? r, some i, some p.1, Trace.acts p.2.trace k r⟩) :
      Effect env k r w w' (.look i j)
  | close {i as} (hw : w.atWork k = some (i, as)) (hd : as.all Attempt.isDone)
      (h : w'.standing k r = (w.standing k r).left) : Effect env k r w w' (.close i)
  | drop {i c t as} (hw : w.atWork k = some (i, as)) (hc : w'.calls[i]? = some c)
      (hs : c.stage = .dropped t) (h : w'.standing k r = (w.standing k r).left) :
      Effect env k r w w' (.drop i)

/-! ### What each operation leaves alone -/

theorem standing_congr {w w' : World C T} {k : Nat} {r : ResourceReference}
    (hh : w'.holding? k r = w.holding? k r) (hw : w'.atWork k = w.atWork k)
    (ha : Trace.acts w'.trace k r = Trace.acts w.trace k r) :
    w'.standing k r = w.standing k r := by
  rw [standing, standing, hh, hw, ha]

theorem standing_ofActivators (as : List (String × Policy)) (k : Nat) (r : ResourceReference) :
    (ofActivators as : World C T).standing k r = ⟨none, none, none, []⟩ := by
  have hwork : (ofActivators as : World C T).atWork k = none := by
    simp only [atWork, ofActivators, start, List.getElem?_map]
    cases as[k]? <;> rfl
  have hholding : (ofActivators as : World C T).holding? k r = none := by
    simp only [holding?, ofActivators, start, List.getElem?_map]
    cases as[k]? <;> rfl
  rw [standing, hwork, hholding]
  rfl

/-- Steps that belong to no call change no standing. -/
theorem standing_background {env : Collaborators C T} {m : Move C T} {w w' : World C T}
    (h : Step env m w w') (hm : m.isBackground) (k : Nat) (r : ResourceReference) :
    w'.standing k r = w.standing k r := by
  obtain ⟨hc, ha, ns, ht⟩ := h.background hm
  refine standing_congr ?_ ?_ ?_
  · rw [holding?, holding?, ha]
  · rw [atWork, atWork, hc, ha]
  · have hquiet :
        Trace.acts (ns.map fun n => (⟨w.now, none, .loop n none⟩ : Entry C T)) k r = [] := by
      refine Trace.acts_of_none fun e he => ?_
      obtain ⟨n, -, rfl⟩ := List.mem_map.1 he
      rfl
    rw [ht, Trace.acts_append, hquiet, List.append_nil]

/-- What a call changes as it begins, at every standing of its activator. -/
theorem acts_beginWork {k : Nat} {r : ResourceReference} {s : Site C T} (hs : s.store.Simple)
    (x : Context C) (hk : x.scope.activator = k) (targets : List T) :
    Trace.acts (beginWork x targets s).2.trace k r = Trace.acts s.trace k r ++
      ((s.store.get? r).bind fun h =>
        if h.active ∧ r ∉ targets.map reference then
          some (x.scope.call, .deactivated h.controller)
        else none).toList := by
  rw [beginWork_eq]
  dsimp only
  rw [Trace.acts_append, Trace.acts_append]
  have hrep : Trace.acts ((repeatedTargets targets).map fun q =>
      (⟨s.now, some x.scope, .repeated q⟩ : Entry C T)).reverse k r = [] := by
    refine Trace.acts_of_none fun e he => ?_
    obtain ⟨q, -, rfl⟩ := List.mem_map.1 (List.mem_reverse.1 he)
    rfl
  rw [hrep, List.append_nil, Store.get?, ← filterMap_key hs]
  congr 1
  rw [Trace.acts, List.reverse_reverse, List.filterMap_map, Store.stale, List.filterMap_filter]
  refine List.filterMap_congr fun h _ => ?_
  by_cases hr : h.reference = r
  · subst hr
    simp [Entry.act?, Happening.act?, hk]
  · simp [Entry.act?, Happening.act?, hr]

theorem acts_beginWork_of_ne {k : Nat} {r : ResourceReference} {s : Site C T} {x : Context C}
    (hk : x.scope.activator ≠ k) (targets : List T) :
    Trace.acts (beginWork x targets s).2.trace k r = Trace.acts s.trace k r := by
  have hnone : ∀ {α : Type} (f : α → Happening C T) (xs : List α),
      Trace.acts (xs.map fun y => (⟨s.now, some x.scope, f y⟩ : Entry C T)).reverse k r = [] := by
    intro α f xs
    refine Trace.acts_of_none fun e he => ?_
    obtain ⟨y, -, rfl⟩ := List.mem_map.1 (List.mem_reverse.1 he)
    cases h : (f y).act? <;> simp [Entry.act?, h, hk]
  rw [beginWork_eq]
  dsimp only
  rw [Trace.acts_append, Trace.acts_append, hnone, List.append_nil, hnone, List.append_nil]

/-- Before the first call in a queue begins, nobody is at work. -/
theorem atWork_of_queued {w : World C T} (hw : w.Orderly) {i : Nat} {c : Call C T}
    {a : Activator} (hf : w.find? i = some (c, a)) (hs : c.stage = .queued)
    (hh : a.queue.head? = some i) : w.atWork c.activator = none := by
  refine Option.eq_none_iff_forall_ne_some.2 fun ⟨j, as⟩ hj => ?_
  obtain ⟨d, b, hfj, hkd, hd⟩ := (atWork_eq_some_iff hw).1 hj
  have hhead := hw.inTurn j d b as hfj hd
  have hb := (find?_eq_some.1 hfj).2
  rw [hkd, (find?_eq_some.1 hf).2] at hb
  cases hb
  rw [hh] at hhead
  cases hhead
  rw [hf] at hfj
  cases hfj
  rw [hs] at hd
  cases hd

section Begun

variable {w : World C T} {i : Nat} {c : Call C T} {a : Activator}

theorem holding?_begun (ha : w.activators[c.activator]? = some a) (k : Nat)
    (r : ResourceReference) :
    (w.begun i c a).holding? k r =
      if c.activator = k then (a.store.retire (c.targets.map reference)).get? r
      else w.holding? k r := by
  have h : (w.begun i c a).holding? k r = (w.withSite c.activator
      (beginWork (context a i c) c.targets (w.site a)).2).holding? k r := rfl
  rw [h, holding?_withSite ha, beginWork_eq]
  rfl

/-- A call that begins is alone at work afterwards, with an attempt for each of
its distinct targets. -/
theorem standing_begun (hw : w.Orderly) (hw' : (w.begun i c a).Orderly)
    (hf : w.find? i = some (c, a)) (hs : c.stage = .queued) (hh : a.queue.head? = some i)
    (r : ResourceReference) :
    (w.begun i c a).standing c.activator r =
      (w.standing c.activator r).begun i c.targets r := by
  obtain ⟨hc, ha⟩ := find?_eq_some.1 hf
  have hnone := atWork_of_queued hw hf hs hh
  have hwork : (w.begun i c a).atWork c.activator =
      some (i, (distinctTargets c.targets).map Attempt.begin) := by
    refine (atWork_eq_some_iff hw').2 ⟨_, _, by rw [find?_begun, hf]; rfl, ?_, ?_⟩
    · rw [if_pos rfl]
    · rw [if_pos rfl]
  have hsimple : (w.site a).store.Simple := hw.simple a (List.mem_of_getElem? ha)
  have hacts : Trace.acts (w.begun i c a).trace c.activator r = _ :=
    acts_beginWork hsimple (context a i c) rfl c.targets
  rw [standing, Standing.begun, standing, hwork, holding?_begun ha, if_pos rfl, hacts,
    holding?_eq ha]
  simp only [Option.map_some, Option.bind_some, Store.get?_retire, List.find?_map]
  rfl

theorem effect_begin {env : Collaborators C T} (hw : w.Orderly) (hw' : (w.begun i c a).Orderly)
    (hf : w.find? i = some (c, a)) (hs : c.stage = .queued) (hh : a.queue.head? = some i)
    (k : Nat) (r : ResourceReference) : Effect env k r w (w.begun i c a) (.begin i) := by
  obtain ⟨hc, ha⟩ := find?_eq_some.1 hf
  by_cases hk : c.activator = k
  · subst hk
    exact .begin hc hs rfl (atWork_of_queued hw hf hs hh) (standing_begun hw hw' hf hs hh r)
  · refine .same (standing_congr ?_ ?_ ?_)
    · rw [holding?_begun ha, if_neg hk]
    · refine atWork_congr hw hw' (find?_begun w i c a) (fun j p _ => ?_) fun j p hj hkd as => ?_
      · dsimp only
        split <;> rfl
      · dsimp only
        split
        · next hij =>
            subst hij
            rw [hf] at hj
            cases hj
            exact absurd hkd hk
        · exact .rfl
    · exact acts_beginWork_of_ne (x := context a i c) hk c.targets

end Begun

theorem find?_set_of_ne {α : Type} {p : α → Bool} {l : List α} {j : Nat} {x y : α}
    (hx : l[j]? = some x) (hpx : ¬ p x) (hpy : ¬ p y) : (l.set j y).find? p = l.find? p := by
  induction l generalizing j with
  | nil => rfl
  | cons z l ih =>
      cases j with
      | zero =>
          cases hx
          simp [hpx, hpy]
      | succ j =>
          rw [List.set_cons_succ, List.find?_cons, List.find?_cons, ih hx]

theorem nodup_references {w : World C T} (hw : w.Orderly) {i : Nat} {c : Call C T}
    (hc : w.calls[i]? = some c) {as : List (Attempt T)} (hs : c.stage = .working as) :
    (as.map Attempt.reference).Nodup := by
  have hcov := hw.covers c (List.mem_of_getElem? hc) as (.inl hs)
  have h := nodup_map_distinctBy (Targeted.reference (T := T)) c.targets []
  rw [← distinctTargets, ← hcov, List.map_map] at h
  exact h

section Put

variable {env : Collaborators C T} {w : World C T} {i j : Nat} {c : Call C T} {a : Activator}
  {as : List (Attempt T)} {t : Attempt T} {p : Attempt T × Site C T}

theorem standing_of_working (hw : w.Orderly) (hf : w.find? i = some (c, a))
    (hs : c.stage = .working as) (ht : t ∈ as) :
    w.standing c.activator t.reference =
      ⟨a.store.get? t.reference, some i, some t,
        Trace.acts w.trace c.activator t.reference⟩ := by
  obtain ⟨hc, ha⟩ := find?_eq_some.1 hf
  have hfind : (as.find? fun b => b.reference = t.reference) = some t :=
    (find?_key_eq_some_iff (nodup_references hw hc hs)).2 ⟨ht, rfl⟩
  rw [standing, (atWork_eq_some_iff hw).2 ⟨c, a, hf, rfl, hs⟩, holding?_eq ha, Option.bind_some,
    hfind]
  rfl

/-- What steps of an attempt make of its own standing. -/
theorem standing_put (hw' : (w.put i c as j p).Orderly) (hf : w.find? i = some (c, a))
    (ht : as[j]? = some t) (hp : Attempt.Steps env (context a i c) (t, w.site a) p) :
    (w.put i c as j p).standing c.activator t.reference =
      ⟨p.2.store.get? t.reference, some i, some p.1,
        Trace.acts p.2.trace c.activator t.reference⟩ := by
  have hmem : p.1 ∈ as.set j p.1 := List.mem_set (List.getElem?_eq_some_iff.1 ht).1 _
  have href : p.1.reference = t.reference := congrArg reference hp.target_eq
  rw [← href]
  exact standing_of_working hw' (find?_put hf) rfl hmem

/-- Steps of an attempt make nothing of any other standing. -/
theorem standing_put_of_ne (hw : w.Orderly) (hw' : (w.put i c as j p).Orderly)
    (hf : w.find? i = some (c, a)) (hs : c.stage = .working as) (ht : as[j]? = some t)
    (hp : Attempt.Steps env (context a i c) (t, w.site a) p) {k : Nat} {r : ResourceReference}
    (hne : c.activator = k → t.reference ≠ r) :
    (w.put i c as j p).standing k r = w.standing k r := by
  obtain ⟨hc, ha⟩ := find?_eq_some.1 hf
  have hacts : Trace.acts (w.put i c as j p).trace k r = Trace.acts w.trace k r :=
    hp.acts_of_ne hne
  by_cases hk : c.activator = k
  · have hwork := (atWork_eq_some_iff hw).2 ⟨c, a, hf, hk, hs⟩
    have hwork' : (w.put i c as j p).atWork k = some (i, as.set j p.1) :=
      (atWork_eq_some_iff hw').2 ⟨_, _, find?_put hf, hk, rfl⟩
    have href : p.1.reference = t.reference := congrArg reference hp.target_eq
    have hfind : ((as.set j p.1).find? fun b => b.reference = r) =
        as.find? fun b => b.reference = r :=
      find?_set_of_ne ht (by simpa using hne hk) (by simpa using href.trans_ne (hne hk))
    rw [standing, standing, hwork, hwork', holding?_put ha, if_pos hk, hp.get?_of_ne (hne hk),
      holding?_eq (hk ▸ ha), hacts, Option.bind_some, Option.bind_some, hfind]
    rfl
  · refine standing_congr ?_ ?_ hacts
    · rw [holding?_put ha, if_neg hk]
    · refine atWork_congr hw hw' (f := fun l p' => (if i = l then
          { p'.1 with stage := .working (as.set j p.1) } else p'.1,
        if c.activator = p'.1.activator then { p'.2 with store := p.2.store } else p'.2))
        (fun l => ?_) (fun l p _ => ?_) fun l p hl hkl bs => ?_
      · rw [put, find?_setStage, find?_withSite, Option.map_map]
        rfl
      · dsimp only
        split <;> rfl
      · dsimp only
        split
        · next hil =>
            subst hil
            rw [hf] at hl
            cases hl
            exact absurd hkl hk
        · exact .rfl

/-- A step of one attempt is a step of its own reference and of no other. -/
theorem effect_look (hw : w.Orderly) (hw' : (w.put i c as j p).Orderly)
    (hf : w.find? i = some (c, a)) (hs : c.stage = .working as) (ht : as[j]? = some t)
    (hp : Attempt.Step env (context a i c) (t, w.site a) p) (k : Nat) (r : ResourceReference) :
    Effect env k r w (w.put i c as j p) (.look i j) := by
  by_cases h : c.activator = k ∧ t.reference = r
  · obtain ⟨rfl, rfl⟩ := h
    exact .look hf hs rfl ht rfl hp rfl
      (standing_of_working hw hf hs (List.mem_of_getElem? ht)) (standing_put hw' hf ht (.single hp))
  · exact .same (standing_put_of_ne hw hw' hf hs ht (.single hp) fun hk hr => h ⟨hk, hr⟩)

end Put

/-! ### Calls that come and go -/

section Calls

variable {w : World C T} {i : Nat} {c : Call C T} {a : Activator} {as : List (Attempt T)}

/-- New calls are not at work yet. -/
theorem standing_submit (hw : w.Orderly) (rs : List (Request C T))
    (hw' : (w.submit (rs.map Request.call)).Orderly) (k : Nat) (r : ResourceReference) :
    (w.submit (rs.map Request.call)).standing k r = w.standing k r := by
  refine standing_congr rfl ?_ rfl
  ext ⟨j, as⟩
  rw [atWork_eq_some_iff hw', atWork_eq_some_iff hw]
  constructor
  · rintro ⟨d, b, hj, hk, hd⟩
    rcases find?_submit hj with h | h
    · exact ⟨d, b, h, hk, hd⟩
    · obtain ⟨q, -, rfl⟩ := List.mem_map.1 h
      cases hd
  · rintro ⟨d, b, hj, hk, hd⟩
    obtain ⟨hc, ha⟩ := find?_eq_some.1 hj
    refine ⟨d, b, find?_eq_some.2 ⟨?_, ha⟩, hk, hd⟩
    exact (List.getElem?_append_left (List.getElem?_eq_some_iff.1 hc).1).trans hc

/-- Whoever joins a queue is not at work yet either. -/
theorem standing_join (hw : w.Orderly)
    (hw' : ((w.setQueue c.activator (· ++ [i])).setStage i .queued).Orderly)
    (hf : w.find? i = some (c, a)) (hs : c.stage = .fresh) (k : Nat) (r : ResourceReference) :
    ((w.setQueue c.activator (· ++ [i])).setStage i .queued).standing k r = w.standing k r := by
  refine standing_congr ?_ ?_ rfl
  · exact holding?_modify (f := fun b => { b with queue := b.queue ++ [i] }) rfl
      (fun _ => rfl) k r
  · refine atWork_congr hw hw' (f := fun j p => (if i = j then { p.1 with stage := .queued }
          else p.1, if c.activator = p.1.activator then
            { p.2 with queue := p.2.queue ++ [i] } else p.2))
        (fun j => ?_) (fun j p _ => ?_) fun j p hj hk as => ?_
    · rw [find?_setStage, find?_setQueue, Option.map_map]
      rfl
    · dsimp only
      split <;> rfl
    · dsimp only
      split
      · next hij =>
          subst hij
          rw [hf] at hj
          cases hj
          simp [hs]
      · exact .rfl

theorem standing_cancel (hw : w.Orderly) (hw' : (w.cancel i).Orderly) (k : Nat)
    (r : ResourceReference) : (w.cancel i).standing k r = w.standing k r := by
  refine standing_congr rfl ?_ rfl
  refine atWork_congr hw hw' (find?_cancel w i) (fun j p _ => ?_) fun j p _ _ as => ?_
  · dsimp only
    split <;> rfl
  · dsimp only
    split <;> exact .rfl

theorem holding?_closed (k : Nat) (r : ResourceReference) :
    (w.closed i c a as).holding? k r = w.holding? k r := by
  unfold closed
  dsimp only
  split <;>
    exact holding?_modify (f := fun b => { b with queue := b.queue.erase i }) rfl
      (fun _ => rfl) k r

theorem acts_closed (k : Nat) (r : ResourceReference) :
    Trace.acts (w.closed i c a as).trace k r = Trace.acts w.trace k r := by
  unfold closed
  dsimp only
  split
  · rfl
  · exact acts_note_quiet (s := w.site a) (x := context a i c) rfl

theorem effect_close {env : Collaborators C T} (hw : w.Orderly)
    (hw' : (w.closed i c a as).Orderly) (hf : w.find? i = some (c, a))
    (hs : c.stage = .working as) (hall : as.all Attempt.isDone) (k : Nat)
    (r : ResourceReference) : Effect env k r w (w.closed i c a as) (.close i) := by
  by_cases hk : c.activator = k
  · have hwork := (atWork_eq_some_iff hw).2 ⟨c, a, hf, hk, hs⟩
    refine .close hwork hall ?_
    rw [standing, holding?_closed, acts_closed,
      atWork_left hw hw' (find?_closed w i c a as) (by simp) hwork]
    rfl
  · refine .same (standing_congr (holding?_closed k r) ?_ (acts_closed k r))
    refine atWork_left_of_ne hw hw' (find?_closed w i c a as) (by simp) fun bs h => ?_
    obtain ⟨d, b, hd, hkd, -⟩ := (atWork_eq_some_iff hw).1 h
    rw [hf] at hd
    cases hd
    exact hk hkd

/-- A call that is dropped leaves its activator, if it was at work there. -/
theorem effect_drop {env : Collaborators C T} (hw : w.Orderly)
    (hw' : ((w.setStage i (.dropped w.now)).setQueue c.activator (·.erase i)).Orderly)
    (hc : w.calls[i]? = some c) (k : Nat) (r : ResourceReference) :
    Effect env k r w ((w.setStage i (.dropped w.now)).setQueue c.activator (·.erase i))
      (.drop i) := by
  have hfind := find?_leave w i (.dropped w.now) c.activator
  have hholding : ((w.setStage i (.dropped w.now)).setQueue c.activator
      (·.erase i)).holding? k r = w.holding? k r :=
    holding?_modify (f := fun b => { b with queue := b.queue.erase i }) rfl (fun _ => rfl) k r
  by_cases h : ∃ as, w.atWork k = some (i, as)
  · obtain ⟨as, hwork⟩ := h
    refine .drop (c := { c with stage := .dropped w.now }) hwork ?_ rfl ?_
    · simp [setQueue, setStage, hc]
    · rw [standing, hholding, atWork_left hw hw' hfind (by simp) hwork]
      rfl
  · refine .same (standing_congr hholding ?_ rfl)
    exact atWork_left_of_ne hw hw' hfind (by simp) fun as has => h ⟨as, has⟩

end Calls

theorem Step.effect {env : Collaborators C T} {m : Move C T} {w w' : World C T}
    (h : Step env m w w') (hw : w.Orderly) (k : Nat) (r : ResourceReference) :
    Effect env k r w w' m := by
  have hw' := orderly_step h hw
  by_cases hm : m.isBackground
  · exact .same (standing_background h hm k r)
  cases h with
  | submit => exact .same (standing_submit hw _ hw' k r)
  | join hf hs => exact .same (standing_join hw hw' hf hs k r)
  | begin hf hs hh => exact effect_begin hw hw' hf hs hh k r
  | look hf hs ht hp => exact effect_look hw hw' hf hs ht hp k r
  | close hf hs hall => exact effect_close hw hw' hf hs hall k r
  | cancel => exact .same (standing_cancel hw hw' k r)
  | drop hc => exact effect_drop hw hw' hc k r
  | _ => exact absurd rfl hm

end World

end Standing

end Lifecycle
