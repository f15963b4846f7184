import Lifecycle.Proofs.WorldSteps

/-!
# Who started a loop, and who frees its name

A loop belongs to whoever started it: the attempt of a call for a reference, or
nobody inside. The registry does not record that, but the trace does, since each
start leaves an entry, and starts come in the order of the loops. `Trace.starts`
reads them off, and `Aligned` says that it is a list of the loops indeed.

What a step of an attempt does to the held names is little, and all of it is in
`Attempt.Step.held_cases`: nothing, or a start while it registers, or the
release of its controller's name when it ends badly. Everything about which loop
is removed by whom is argued from these three cases.

A registration is of a controller that is trusted with two things only: that it
starts loops under its own name, and that it does not end well without having
started one.
-/

namespace Lifecycle

variable {C T : Type}

/-! ## What registrations are trusted with -/

/-- Whether all loops that a registration can start bear one name. -/
def Registration.spawnsOnly (name : String) : Registration → Bool
  | finish _ => true
  | spawn n _ next => n = name && next.spawnsOnly name
  | spawnOr n _ next refused => n = name && next.spawnsOnly name && refused.spawnsOnly name
  | cancel _ next | sleep _ _ next | synced next => next.spawnsOnly name

/-- Whether a registration ends well only after it has started a loop. -/
def Registration.owes : Registration → Bool
  | finish fault => fault.isSome
  | spawn .. => true
  | spawnOr _ _ _ refused => refused.owes
  | cancel _ next | synced next => next.owes
  | sleep none interrupted _ => interrupted ≠ some none
  | sleep (some _) interrupted next => interrupted ≠ some none && next.owes

/-- A registration that owes a loop does not end well. -/
theorem Registration.Returns.owes {x : Context C} {rest : Registration} {s : Site C T}
    (h : rest.Returns x s none) : rest.owes = false := by
  cases h with
  | finish => rfl
  | @interrupted millis => cases millis <;> simp [Registration.owes]

/-- Controllers start loops under their own names only, and their registrations
end well only after they have started one. -/
def Collaborators.Disciplined (env : Collaborators C T) : Prop :=
  ∀ t now capability target config,
    let c := env.create t now capability target config
    c.registration.spawnsOnly c.name ∧ c.registration.owes

/-! ## Starts -/

/-- Who started a loop: a call, for a reference, or an outsider. -/
abbrev Owner := Option (Nat × ResourceReference)

/-- The start that an entry records, with the name of the loop. -/
def Entry.start? (e : Entry C T) : Option (String × Owner) :=
  match e.what with
  | .loop (.registered name) target =>
    some (name, target.bind fun r => e.scope.map fun x => (x.call, r))
  | _ => none

/-- All starts, in the order of time. -/
def Trace.starts (t : Trace C T) : List (String × Owner) := t.reverse.filterMap Entry.start?

theorem starts_cons (e : Entry C T) (t : Trace C T) :
    Trace.starts (e :: t) = Trace.starts t ++ e.start?.toList := by
  rw [Trace.starts, List.reverse_cons, List.filterMap_append]
  cases h : e.start? <;> simp [Trace.starts, h]

theorem starts_append (t t' : Trace C T) :
    Trace.starts (t' ++ t) = Trace.starts t ++ Trace.starts t' := by
  rw [Trace.starts, List.reverse_append, List.filterMap_append]
  rfl

theorem starts_append_quiet {t t' : Trace C T} (h : ∀ e ∈ t', e.start? = none) :
    Trace.starts (t' ++ t) = Trace.starts t := by
  have hnil : Trace.starts t' = [] := by
    rw [Trace.starts, List.filterMap_eq_nil_iff]
    exact fun e he => h e (List.mem_reverse.1 he)
  rw [starts_append, hnil, List.append_nil]

theorem starts_note (s : Site C T) (x : Context C) (h : Happening C T) :
    Trace.starts (s.note x h).trace =
      Trace.starts s.trace ++ (Entry.start? ⟨s.now, some x.scope, h⟩).toList := starts_cons ..

/-- Most happenings are no start. -/
theorem starts_note_quiet {s : Site C T} {x : Context C} {h : Happening C T}
    (hh : Entry.start? ⟨s.now, some x.scope, h⟩ = none) :
    Trace.starts (s.note x h).trace = Trace.starts s.trace := by
  rw [starts_note, hh]
  exact List.append_nil _

/-- The starts are those of the loops, and a held name is that of its loop. -/
structure Aligned (r : Registry) (t : Trace C T) : Prop where
  names : (Trace.starts t).map Prod.fst = r.loops.map Loop.name
  held : ∀ p ∈ r.held, p.2 < r.loops.length
  nodup : (r.held.map Prod.fst).Nodup

/-- Who started the loop of an index. -/
def Trace.owner? (t : Trace C T) (l : Nat) : Owner := (Trace.starts t)[l]?.bind Prod.snd

namespace Registry

/-! ## The held names -/

theorem spawn_eq_ok {r r' : Registry} {name : String} {body : LoopBody}
    (h : r.spawn name body = .ok r') :
    r.isRegistered name = false ∧ r'.held = r.held ++ [(name, r.loops.length)] ∧
      r'.loops = r.loops ++ [⟨name, body, .fresh⟩] := by
  unfold spawn at h
  split at h
  · cases h
  · split at h
    · cases h
    · next hn =>
        cases h
        exact ⟨by simpa using hn, rfl, rfl⟩

theorem nodup_of_spawn {r r' : Registry} {name : String} {body : LoopBody}
    (h : (r.held.map Prod.fst).Nodup) (hs : r.spawn name body = .ok r') :
    (r'.held.map Prod.fst).Nodup := by
  obtain ⟨hfree, hheld, -⟩ := spawn_eq_ok hs
  rw [hheld, List.map_append, List.nodup_append]
  refine ⟨h, by simp, ?_⟩
  rintro n hn n' hn' rfl
  obtain rfl := List.mem_singleton.1 hn'
  rw [← isRegistered_iff, hfree] at hn
  cases hn

theorem names_condemn (loops : List Loop) (i : Nat) :
    (condemn loops i).map Loop.name = loops.map Loop.name := by
  refine map_modify_of_same (fun l => ?_) loops i
  cases l.isEnded <;> rfl

theorem abort?_eq_some {r r' : Registry} {name : String} (h : r.abort? name = some r') :
    r'.held = r.held.filter (·.1 ≠ name) ∧ r'.loops.map Loop.name = r.loops.map Loop.name := by
  obtain ⟨i, -, rfl⟩ := Option.map_eq_some_iff.1 h
  exact ⟨rfl, names_condemn ..⟩

/-- There is nothing to abort under a name that is not held. -/
theorem held_of_abort?_eq_none {r : Registry} {name : String} (h : r.abort? name = none) :
    r.held.filter (·.1 ≠ name) = r.held := by
  refine List.filter_eq_self.2 fun p hp => ?_
  have hn : ¬ r.isRegistered name := by
    rw [← abort?_isSome_iff, h]
    exact Bool.false_ne_true
  simp only [isRegistered, List.any_eq_true, decide_eq_true_eq, not_exists, not_and] at hn
  simpa using hn p hp

end Registry

/-! ## Steps of an attempt -/

namespace Attempt

theorem release_held (x : Context C) (r : ResourceReference) (c : String) (free : Bool)
    (s : Site C T) :
    (release x r c free s).registry.held =
        (if free then s.registry.held.filter (·.1 ≠ c) else s.registry.held) ∧
      (release x r c free s).registry.loops.map Loop.name = s.registry.loops.map Loop.name ∧
      Trace.starts (release x r c free s).trace = Trace.starts s.trace := by
  unfold release
  cases free with
  | false => exact ⟨rfl, rfl, rfl⟩
  | true =>
      simp only [if_true]
      split
      · next registry h =>
          obtain ⟨hheld, hnames⟩ := Registry.abort?_eq_some h
          exact ⟨hheld, hnames, (starts_note_quiet rfl).trans (starts_note_quiet rfl)⟩
      · next h => exact ⟨(Registry.held_of_abort?_eq_none h).symm, rfl, rfl⟩

/-- Nothing happens to the loops. -/
def Still (s s' : Site C T) : Prop :=
  s'.registry = s.registry ∧ Trace.starts s'.trace = Trace.starts s.trace

end Attempt

section RegistrationStep

variable {x : Context C} {c : String} {r : ResourceReference} {rest rest' : Registration}
  {since : Nat} {s s' : Site C T}

theorem Registration.Step.spawnsOnly (h : Step x c r rest since s rest' s')
    (ho : rest.spawnsOnly c) : rest'.spawnsOnly c := by
  cases h <;> simp_all [Registration.spawnsOnly]

/-- A step of a registration starts a loop, or it does nothing to the loops; then the
registration owes one as before. -/
theorem Registration.Step.loops (h : Step x c r rest since s rest' s') :
    (Attempt.Still s s' ∧ (rest.owes → rest'.owes)) ∨
      ∃ name body, (rest.spawnsOnly c → name = c) ∧
        s.registry.spawn name body = .ok s'.registry ∧
        Trace.starts s'.trace = Trace.starts s.trace ++ [(name, some (x.scope.call, r))] := by
  cases h with
  | spawn h =>
      refine .inr ⟨_, _, fun ho => ?_, h, starts_note ..⟩
      simp only [Registration.spawnsOnly, Bool.and_eq_true, decide_eq_true_eq] at ho
      exact ho.1
  | spawnOr h =>
      refine .inr ⟨_, _, fun ho => ?_, h, starts_note ..⟩
      simp only [Registration.spawnsOnly, Bool.and_eq_true, decide_eq_true_eq] at ho
      exact ho.1.1
  | refused | cancel => exact .inl ⟨⟨rfl, rfl⟩, id⟩
  | synced => exact .inl ⟨⟨rfl, starts_note_quiet rfl⟩, id⟩
  | wake => exact .inl ⟨⟨rfl, rfl⟩, fun ho => (Bool.and_eq_true_iff.1 ho).2⟩

end RegistrationStep

namespace Attempt

variable [Targeted T]

/-- What a step of an attempt does to the held names. -/
inductive Holds (x : Context C) (a : Attempt T) (s : Site C T) (b : Attempt T) (s' : Site C T) :
    Prop where
  | still (h : Still s s')
  | start {c free rest since rest' since' name body}
      (ha : a.stage = .registering c free rest since)
      (hb : b.stage = .registering c free rest' since')
      (hn : rest.spawnsOnly c → name = c) (hs : s.registry.spawn name body = .ok s'.registry)
      (ht : Trace.starts s'.trace =
        Trace.starts s.trace ++ [(name, some (x.scope.call, a.reference))])
  | free {c rest since} (ha : a.stage = .registering c true rest since)
      (hb : b.cause?.isSome) (hh : s'.registry.held = s.registry.held.filter (·.1 ≠ c))
      (hl : s'.registry.loops.map Loop.name = s.registry.loops.map Loop.name)
      (ht : Trace.starts s'.trace = Trace.starts s.trace)

theorem Step.holds {env : Collaborators C T} {x : Context C} {a b : Attempt T}
    {s s' : Site C T} (h : Step env x (a, s) (b, s')) : Holds x a s b s' := by
  cases h with
  | draw | wait | ask | giveUp => exact .still ⟨rfl, rfl⟩
  | update => exact .still ⟨rfl, starts_note_quiet rfl⟩
  | unaskable | expire | miss => exact .still ⟨rfl, starts_note_quiet rfl⟩
  | probe => exact .still ⟨rfl, starts_note_quiet rfl⟩
  | fail => exact .still ⟨rfl, (starts_note_quiet rfl).trans (starts_note_quiet rfl)⟩
  | create _ _ _ _ _ _ hs =>
      subst hs
      exact .still ⟨rfl, (starts_note_quiet rfl).trans
        ((starts_note_quiet rfl).trans (starts_note_quiet rfl))⟩
  | register hr hs =>
      rcases hs.loops with ⟨hstill, -⟩ | ⟨_, _, hn, hspawn, ht⟩
      · exact .still hstill
      · exact .start hr rfl hn hspawn ht
  | install => exact .still ⟨rfl, (starts_note_quiet rfl).trans (starts_note_quiet rfl)⟩
  | @refuse _ _ c free _ _ f hr =>
      obtain ⟨hh, hl, ht⟩ := release_held x a.reference c free
        (s.note x (.returned c a.reference (some f) false))
      rw [starts_note_quiet rfl] at ht
      cases free with
      | false => exact .still ⟨rfl, (starts_note_quiet rfl).trans ht⟩
      | true => exact .free hr rfl hh hl ((starts_note_quiet rfl).trans ht)
  | @revoke _ _ c free _ _ fault hr =>
      obtain ⟨hh, hl, ht⟩ := release_held x a.reference c free
        (s.note x (.returned c a.reference fault true))
      rw [starts_note_quiet rfl] at ht
      cases free with
      | false => exact .still ⟨rfl, ht⟩
      | true => exact .free hr rfl hh hl ht

end Attempt

/-! ## What the loops themselves report -/

/-- Whether a notice is of a start. -/
def LoopNotice.isStart : LoopNotice → Bool
  | .registered _ => true
  | _ => false

theorem Loop.name_turn (closed : Bool) (now : Nat) (l : Loop) :
    (l.turn closed now).1.name = l.name := by
  unfold Loop.turn Loop.finish
  grind

namespace Registry

theorem isStart_of_turn {r : Registry} {now : Nat} :
    ∀ n ∈ (r.turn now).2, n.isStart = false := by
  intro n hn
  obtain ⟨p, hp, hpn⟩ := List.mem_filterMap.1 hn
  obtain ⟨l, -, rfl⟩ := List.mem_map.1 hp
  unfold Loop.turn Loop.finish at hpn
  grind [LoopNotice.isStart]

theorem names_turn (r : Registry) (now : Nat) :
    (r.turn now).1.loops.map Loop.name = r.loops.map Loop.name := by
  simp only [turn, List.map_map]
  exact List.map_congr_left fun l _ => Loop.name_turn ..

theorem isStart_of_joined? {r : Registry} {name : String} {i : Nat} {ns : List LoopNotice}
    (h : r.joined? name i = some ns) : ∀ n ∈ ns, n.isStart = false := by
  unfold joined? at h
  grind [LoopNotice.isStart]

/-- A shutdown frees names, starts nothing and leaves the loops as they are. -/
theorem takeNames_spec (names : List String) (r : Registry) :
    (r.takeNames names).1.held.Sublist r.held ∧ (r.takeNames names).1.loops = r.loops ∧
      ∀ n ∈ (r.takeNames names).2.2, n.isStart = false := by
  induction names generalizing r with
  | nil => exact ⟨.refl _, rfl, by simp [takeNames, LoopNotice.isStart]⟩
  | cons name names ih =>
      unfold takeNames
      split
      · exact ih r
      · next i hi =>
          dsimp only
          split
          · exact ⟨List.filter_sublist .., rfl, by simp⟩
          · next ns hns =>
              obtain ⟨hh, hl, hn⟩ := ih { r with held := r.held.filter (·.1 ≠ name) }
              exact ⟨hh.trans (List.filter_sublist ..), hl,
                List.forall_mem_append.2 ⟨isStart_of_joined? hns, hn⟩⟩

theorem turnShutdown_spec (s : Shutdown) (r : Registry) :
    (s.turn r).1.held.Sublist r.held ∧ (s.turn r).1.loops = r.loops ∧
      ∀ n ∈ (s.turn r).2.2, n.isStart = false := by
  unfold Shutdown.turn
  split
  · exact takeNames_spec ..
  · split
    · exact ⟨.refl _, rfl, by simp⟩
    · next ns hns =>
        obtain ⟨hh, hl, hn⟩ := r.takeNames_spec s.pending
        exact ⟨hh, hl, List.forall_mem_append.2 ⟨isStart_of_joined? hns, hn⟩⟩

end Registry

/-- Whether a move is an outsider's that can free names. -/
def Move.isIntervention : Move C T → Bool
  | .abort _ | .turnShutdown _ => true
  | _ => false

/-! ## The starts are the loops -/

theorem Aligned.of_still {r r' : Registry} {t t' : Trace C T} (h : Aligned r t)
    (hh : r'.held.Sublist r.held) (hl : r'.loops.map Loop.name = r.loops.map Loop.name)
    (ht : Trace.starts t' = Trace.starts t) : Aligned r' t' := by
  have hlen : r'.loops.length = r.loops.length := by
    rw [← List.length_map (f := Loop.name), hl, List.length_map]
  exact ⟨by rw [ht, hl, h.names], fun p hp => hlen ▸ h.held p (hh.subset hp),
    h.nodup.sublist (hh.map _)⟩

theorem Aligned.of_start {r r' r'' : Registry} {t t' : Trace C T} {name : String}
    {body : LoopBody} {o : Owner} (h : Aligned r t) (hs : r.spawn name body = .ok r')
    (hh : r''.held = r'.held) (hl : r''.loops.map Loop.name = r'.loops.map Loop.name)
    (ht : Trace.starts t' = Trace.starts t ++ [(name, o)]) : Aligned r'' t' := by
  obtain ⟨-, hheld, hloops⟩ := Registry.spawn_eq_ok hs
  have hlen : r''.loops.length = r.loops.length + 1 := by
    rw [← List.length_map (f := Loop.name), hl, hloops, List.length_map, List.length_append]
    rfl
  refine ⟨?_, ?_, ?_⟩
  · rw [ht, hl, hloops, List.map_append, List.map_append, h.names]
    rfl
  · rw [hh, hheld, hlen]
    intro p hp
    rcases List.mem_append.1 hp with hp | hp
    · exact Nat.lt_succ_of_lt (h.held p hp)
    · rw [List.mem_singleton.1 hp]
      exact Nat.lt_succ_self _
  · rw [hh]
    exact Registry.nodup_of_spawn h.nodup hs

theorem Attempt.Holds.aligned [Targeted T] {x : Context C} {a b : Attempt T}
    {s s' : Site C T} (h : Attempt.Holds x a s b s') (hs : Aligned s.registry s.trace) :
    Aligned s'.registry s'.trace := by
  cases h with
  | still h =>
      obtain ⟨hr, ht⟩ := h
      rw [hr]
      exact hs.of_still (.refl _) rfl ht
  | start _ _ _ h ht => exact hs.of_start h rfl rfl ht
  | free _ _ hh hl ht => exact hs.of_still (by rw [hh]; exact List.filter_sublist ..) hl ht

namespace World

/-- The starts are not changed by what loops report, unless it is a start. -/
theorem starts_notices {ns : List LoopNotice} (hns : ∀ n ∈ ns, n.isStart = false) (now : Nat)
    (t : Trace C T) :
    Trace.starts ((ns.map fun n => ⟨now, none, .loop n none⟩) ++ t) = Trace.starts t := by
  refine starts_append_quiet fun e he => ?_
  obtain ⟨n, hn, rfl⟩ := List.mem_map.1 he
  cases n with
  | registered => cases hns _ hn
  | _ => rfl

variable [Targeted T]

/-- What a step of the world does to the held names. -/
inductive LoopEffect (env : Collaborators C T) : Move C T → World C T → World C T → Prop where
  | still {m w w'} (hm : ∀ i j, m ≠ .look i j) (hh : w'.registry.held = w.registry.held)
      (hl : w'.registry.loops.map Loop.name = w.registry.loops.map Loop.name)
      (ht : Trace.starts w'.trace = Trace.starts w.trace) : LoopEffect env m w w'
  | start {w w' name body r} (hs : w.registry.spawn name body = .ok r)
      (hh : w'.registry.held = r.held)
      (hl : w'.registry.loops.map Loop.name = r.loops.map Loop.name)
      (ht : Trace.starts w'.trace = Trace.starts w.trace ++ [(name, none)]) :
      LoopEffect env (.spawn name body) w w'
  | free {m w w'} (hm : m.isIntervention) (hh : w'.registry.held.Sublist w.registry.held)
      (hl : w'.registry.loops.map Loop.name = w.registry.loops.map Loop.name)
      (ht : Trace.starts w'.trace = Trace.starts w.trace) : LoopEffect env m w w'
  | look {w i j c a as t p} (hf : w.find? i = some (c, a)) (hs : c.stage = .working as)
      (ht : as[j]? = some t) (hp : Attempt.Step env (context a i c) (t, w.site a) p)
      (hh : Attempt.Holds (context a i c) t (w.site a) p.1 p.2) :
      LoopEffect env (.look i j) w (w.put i c as j p)

theorem starts_begun (w : World C T) (i : Nat) (c : Call C T) (a : Activator) :
    Trace.starts (w.begun i c a).trace = Trace.starts w.trace := by
  have htrace : (w.begun i c a).trace =
      (beginWork (context a i c) c.targets (w.site a)).2.trace := rfl
  rw [htrace, beginWork_eq]
  refine (starts_append_quiet fun e he => ?_).trans (starts_append_quiet fun e he => ?_)
  · obtain ⟨r, -, rfl⟩ := List.mem_map.1 (List.mem_reverse.1 he)
    rfl
  · obtain ⟨h, -, rfl⟩ := List.mem_map.1 (List.mem_reverse.1 he)
    rfl

theorem Step.loopEffect {env : Collaborators C T} {m : Move C T} {w w' : World C T}
    (h : Step env m w w') : LoopEffect env m w w' := by
  have hturn : ∀ (r : Registry) (now : Nat), ∀ n ∈ (r.turn now).2.reverse, n.isStart = false :=
    fun r now n hn => Registry.isStart_of_turn n (List.mem_reverse.1 hn)
  cases h with
  | submit | join | cancel | drop | advance | beginShutdown => exact .still (by simp) rfl rfl rfl
  | begin hf =>
      refine .still (by simp) ?_ ?_ (starts_begun ..)
      · rw [begun, beginWork_eq]
        rfl
      · rw [begun, beginWork_eq]
        rfl
  | look hf hs ht hp => exact .look hf hs ht hp hp.holds
  | close =>
      unfold closed
      dsimp only
      split
      · exact .still (by simp) rfl rfl rfl
      · exact .still (by simp) rfl rfl ((starts_cons ..).trans (List.append_nil _))
  | turnLoops =>
      rw [turnLoops_eq]
      exact .still (by simp) rfl (Registry.names_turn ..) (starts_notices (hturn _ _) _ _)
  | spawn h =>
      rw [turnLoops_eq]
      exact .start h rfl (Registry.names_turn ..)
        ((starts_notices (hturn _ _) _ _).trans (starts_cons ..))
  | abort h =>
      rw [turnLoops_eq]
      obtain ⟨hh, hl⟩ := Registry.abort?_eq_some h
      refine .free rfl ?_ ((Registry.names_turn ..).trans hl)
        ((starts_notices (hturn _ _) _ _).trans ((starts_cons ..).trans (List.append_nil _)))
      dsimp only [noteLoop, note, Registry.turn]
      rw [hh]
      exact List.filter_sublist ..
  | @turnShutdown _ s =>
      obtain ⟨hh, hl, hn⟩ := Registry.turnShutdown_spec s w.registry
      rw [foldl_noteLoop, ← List.map_reverse]
      exact .free rfl hh (congrArg _ hl)
        (starts_notices (fun n h => hn n (List.mem_reverse.1 h)) _ _)

theorem aligned_step {env : Collaborators C T} {m : Move C T} {w w' : World C T}
    (h : Step env m w w') (hw : Aligned w.registry w.trace) : Aligned w'.registry w'.trace := by
  cases h.loopEffect with
  | still _ hh hl ht => exact hw.of_still (hh ▸ .refl _) hl ht
  | start hs hh hl ht => exact hw.of_start hs hh hl ht
  | free _ hh hl ht => exact hw.of_still hh hl ht
  | look _ _ _ _ hholds => exact hholds.aligned hw

omit [Targeted T] in
theorem aligned_ofActivators (as : List (String × Policy)) :
    Aligned (ofActivators as : World C T).registry (ofActivators as : World C T).trace :=
  ⟨rfl, nofun, List.nodup_nil⟩

theorem aligned_play {env : Collaborators C T} {w : World C T} (ms : List (Move C T))
    (hw : Aligned w.registry w.trace) :
    Aligned (w.play env ms).registry (w.play env ms).trace :=
  invariant_of_play (P := fun w => Aligned w.registry w.trace) (A := fun _ => True)
    (fun _ => aligned_step) (fun _ _ => trivial) hw

end World

end Lifecycle
