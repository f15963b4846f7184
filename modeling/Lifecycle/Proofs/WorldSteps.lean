import Lifecycle.Play
import Lifecycle.Proofs.AttemptSteps
import Lifecycle.Proofs.Places

/-!
# What one move can do to the world

`World.Step` lists it, one constructor for each thing that a move can be: a
move whose guard fails is no step at all, and a look at an attempt is as many
steps as the attempt makes. Every invariant of the world is proved against
these constructors and carried along a run by `invariant_of_play`; nothing
after this file opens `World.move` again.

The frame lemmas at the start say where each operation of the world shows:
stages of calls, queues and stores of activators, the registry, the trace.
-/

namespace Lifecycle

variable {C T : Type}

/-- Whether a move is none of a call's: it is about loops or about the clock. -/
def Move.isBackground : Move C T → Bool
  | .turnLoops | .advance _ | .spawn .. | .abort _ | .beginShutdown | .turnShutdown _ => true
  | _ => false

/-! ## The course of a call -/

/-- Whether a call has had its turn; from then on it never has another. -/
def Call.hasBegun (c : Call C T) : Bool :=
  match c.stage with
  | .fresh | .queued => false
  | _ => true

/-- What never changes about a call, or never changes back. -/
structure Call.Later (c c' : Call C T) : Prop where
  activator : c'.activator = c.activator
  config : c'.config = c.config
  targets : c'.targets = c.targets
  begun : c.hasBegun → c'.hasBegun
  ended : c.isOver → c'.stage = c.stage

namespace Call.Later

theorem refl (c : Call C T) : c.Later c := ⟨rfl, rfl, rfl, id, fun _ => rfl⟩

theorem trans {c c' c'' : Call C T} (h : c.Later c') (h' : c'.Later c'') : c.Later c'' where
  activator := h'.activator.trans h.activator
  config := h'.config.trans h.config
  targets := h'.targets.trans h.targets
  begun := h'.begun ∘ h.begun
  ended := fun ho => (h'.ended (by rw [Call.isOver, h.ended ho]; exact ho)).trans (h.ended ho)

/-- A call that is not over may take any stage of one that has begun. -/
theorem of_stage {c : Call C T} {st : CallStage T} (ho : c.isOver = false)
    (hb : c.hasBegun → ({ c with stage := st } : Call C T).hasBegun) :
    c.Later { c with stage := st } :=
  ⟨rfl, rfl, rfl, hb, fun h => by rw [ho] at h; cases h⟩

end Call.Later

theorem later_modify {l : List (Call C T)} {i j : Nat} {f : Call C T → Call C T} {c : Call C T}
    (hc : l[i]? = some c) (hf : i = j → c.Later (f c)) :
    ∃ c', (l.modify j f)[i]? = some c' ∧ c.Later c' := by
  rw [List.getElem?_modify, hc]
  by_cases hij : j = i
  · exact ⟨f c, by simp [hij], hf hij.symm⟩
  · exact ⟨c, by simp [hij], .refl c⟩

namespace World

/-! ## Looking things up after an operation -/

theorem find?_eq_some {w : World C T} {i : Nat} {c : Call C T} {a : Activator} :
    w.find? i = some (c, a) ↔ w.calls[i]? = some c ∧ w.activators[c.activator]? = some a := by
  simp only [find?, Option.bind_eq_bind, Option.bind_eq_some_iff, Option.pure_def,
    Option.some.injEq, Prod.mk.injEq]
  constructor
  · rintro ⟨c', hc, a', ha, rfl, rfl⟩
    exact ⟨hc, ha⟩
  · rintro ⟨hc, ha⟩
    exact ⟨c, hc, a, ha, rfl, rfl⟩

/-- The attempts of a call see that it is cancelled. -/
theorem isCancelled_eq {w : World C T} {i : Nat} {c : Call C T} {a : Activator}
    (hf : w.find? i = some (c, a)) : w.isCancelled i = (w.site a).cancelled (context a i c) := by
  rw [isCancelled, (find?_eq_some.1 hf).1, Option.any_some, Bool.or_comm]
  rfl

theorem find?_setStage (w : World C T) (i : Nat) (st : CallStage T) (j : Nat) :
    (w.setStage i st).find? j = (w.find? j).map fun (c, a) =>
      (if i = j then { c with stage := st } else c, a) := by
  simp only [find?, setStage, List.getElem?_modify]
  cases w.calls[j]? with
  | none => rfl
  | some c =>
      by_cases hij : i = j
      · simp only [hij, if_true]
        cases h : w.activators[c.activator]? <;> simp [h]
      · simp only [hij, if_false]
        cases h : w.activators[c.activator]? <;> simp [h]

theorem find?_withSite (w : World C T) (k : Nat) (s : Site C T) (j : Nat) :
    (w.withSite k s).find? j = (w.find? j).map fun (c, a) =>
      (c, if k = c.activator then { a with store := s.store } else a) := by
  simp only [find?, withSite, List.getElem?_modify]
  cases w.calls[j]? with
  | none => rfl
  | some c => cases h : w.activators[c.activator]? <;> simp [h]

theorem find?_setQueue (w : World C T) (k : Nat) (f : List Nat → List Nat) (j : Nat) :
    (w.setQueue k f).find? j = (w.find? j).map fun (c, a) =>
      (c, if k = c.activator then { a with queue := f a.queue } else a) := by
  simp only [find?, setQueue, List.getElem?_modify]
  cases w.calls[j]? with
  | none => rfl
  | some c => cases h : w.activators[c.activator]? <;> simp [h]

/-- A call that is over takes its last stage and leaves its queue. -/
theorem find?_leave (w : World C T) (i : Nat) (st : CallStage T) (k j : Nat) :
    ((w.setStage i st).setQueue k (·.erase i)).find? j = (w.find? j).map fun (d, b) =>
      (if i = j then { d with stage := st } else d,
        if k = d.activator then { b with queue := b.queue.erase i } else b) := by
  rw [find?_setQueue, find?_setStage, Option.map_map]
  refine Option.map_congr fun p _ => ?_
  dsimp only [Function.comp_apply]
  split <;> rfl

theorem find?_cancel (w : World C T) (i j : Nat) :
    (w.cancel i).find? j = (w.find? j).map fun (c, a) =>
      (if i = j then { c with cancelled := true } else c, a) := by
  simp only [find?, cancel, List.getElem?_modify]
  cases w.calls[j]? with
  | none => rfl
  | some c =>
      by_cases hij : i = j
      · simp only [hij, if_true]
        cases h : w.activators[c.activator]? <;> simp [h]
      · simp only [hij, if_false]
        cases h : w.activators[c.activator]? <;> simp [h]

/-- A round brings new calls and leaves the old ones alone. -/
theorem find?_submit {w : World C T} {cs : List (Call C T)} {j : Nat} {c : Call C T}
    {a : Activator} (h : (w.submit cs).find? j = some (c, a)) :
    w.find? j = some (c, a) ∨ c ∈ cs := by
  obtain ⟨hc, ha⟩ := find?_eq_some.1 h
  simp only [submit, List.getElem?_append] at hc ha
  split at hc
  · exact .inl (find?_eq_some.2 ⟨hc, ha⟩)
  · exact .inr (List.mem_of_getElem? hc)

/-- Notes of the loops lengthen the trace. -/
theorem foldl_noteLoop (ns : List LoopNotice) (w : World C T) :
    ns.foldl noteLoop w =
      { w with trace := (ns.map fun n => ⟨w.now, none, .loop n none⟩).reverse ++ w.trace } := by
  induction ns generalizing w with
  | nil => rfl
  | cons n ns ih =>
      rw [List.foldl_cons, ih]
      simp [noteLoop, note]

theorem turnLoops_eq (w : World C T) :
    w.turnLoops =
      { w with
        registry := (w.registry.turn w.now).1,
        trace := ((w.registry.turn w.now).2.reverse.map fun n => ⟨w.now, none, .loop n none⟩) ++
          w.trace } := by
  simp only [turnLoops, foldl_noteLoop, List.map_reverse]

theorem foldl_note {α : Type} (f : α → Happening C T) (x : Context C) (xs : List α)
    (s : Site C T) :
    xs.foldl (fun s a => s.note x (f a)) s =
      { s with trace := (xs.map fun a => ⟨s.now, some x.scope, f a⟩).reverse ++ s.trace } := by
  induction xs generalizing s with
  | nil => rfl
  | cons a xs ih =>
      rw [List.foldl_cons, ih]
      simp [Site.note]

/-! ## An attempt in its place -/

/-- The world with an attempt of a call put into its place, and what it touched. -/
def put (w : World C T) (i : Nat) (c : Call C T) (as : List (Attempt T)) (j : Nat)
    (p : Attempt T × Site C T) : World C T :=
  (w.withSite c.activator p.2).setStage i (.working (as.set j p.1))

section Put

variable {w : World C T} {i j : Nat} {c : Call C T} {a : Activator} {as : List (Attempt T)}
  {p q : Attempt T × Site C T}

theorem find?_put (hf : w.find? i = some (c, a)) :
    (w.put i c as j p).find? i =
      some ({ c with stage := .working (as.set j p.1) }, { a with store := p.2.store }) := by
  rw [put, find?_setStage, find?_withSite, hf]
  simp

theorem put_put {st : CallStage T} {bs : List (Attempt T)} (h : as.set j q.1 = bs.set j q.1) :
    (w.put i c as j p).put i { c with stage := st } bs j q = w.put i c as j q := by
  simp only [put, withSite, setStage, List.modify_modify_eq, Function.comp_def, h]

theorem put_self {t : Attempt T} (hf : w.find? i = some (c, a)) (hs : c.stage = .working as)
    (ht : as[j]? = some t) : w.put i c as j (t, w.site a) = w := by
  obtain ⟨hc, ha⟩ := find?_eq_some.1 hf
  have hset : as.set j t = as := set_eq_self ht
  have hstage : ({ c with stage := .working (as.set j t) } : Call C T) = c := by
    rw [hset, ← hs]
  simp only [put, withSite, setStage, site]
  rw [modify_eq_self hc hstage, modify_eq_self ha rfl]

theorem site_put (h : p.2.now = w.now) :
    (w.put i c as j p).site { a with store := p.2.store } = p.2 := by
  obtain ⟨t, s⟩ := p
  cases s
  subst h
  rfl

end Put

variable [Targeted T]

/-- What a call changes as it begins: the store, and the trace by what it
switches off and what it leaves out. -/
theorem beginWork_eq (x : Context C) (targets : List T) (s : Site C T) :
    beginWork x targets s =
      ((distinctTargets targets).map Attempt.begin,
        { s with
          store := s.store.retire (targets.map reference),
          trace :=
            ((repeatedTargets targets).map fun r => ⟨s.now, some x.scope, .repeated r⟩).reverse ++
            (((s.store.stale (targets.map reference)).map fun h =>
              ⟨s.now, some x.scope, .deactivated h.reference h.controller⟩).reverse ++
            s.trace) }) := by
  rw [beginWork, deactivateStale]
  simp only [foldl_note]

/-! ## The steps -/

/-- The world after a call has begun its work. -/
def begun (w : World C T) (i : Nat) (c : Call C T) (a : Activator) : World C T :=
  let p := beginWork (context a i c) c.targets (w.site a)
  (w.withSite c.activator p.2).setStage i (.working p.1)

theorem begin_eq_begun {w : World C T} {i : Nat} {c : Call C T} {a : Activator}
    (hf : w.find? i = some (c, a)) (hq : c.stage = .queued) (hh : a.queue.head? = some i) :
    w.begin i = w.begun i c a := by
  simp only [begin, begun, hf, hq, hh, if_true]

theorem find?_begun (w : World C T) (i : Nat) (c : Call C T) (a : Activator) (j : Nat) :
    (w.begun i c a).find? j = (w.find? j).map fun (d, b) =>
      (if i = j then { d with stage := .working ((distinctTargets c.targets).map Attempt.begin) }
        else d,
        if c.activator = d.activator then
          { b with store := a.store.retire (c.targets.map reference) } else b) := by
  rw [begun, find?_setStage, find?_withSite, Option.map_map, beginWork_eq]
  rfl

/-- What a call is when it begins its work. -/
theorem find?_begin {w : World C T} {i : Nat} {c : Call C T} {a : Activator}
    (hf : w.find? i = some (c, a)) (hq : c.stage = .queued) (hh : a.queue.head? = some i) :
    ∃ b, (w.begin i).find? i =
      some ({ c with stage := .working ((distinctTargets c.targets).map Attempt.begin) }, b) := by
  rw [begin_eq_begun hf hq hh, find?_begun, hf]
  simp

/-- The world after a call has ended. -/
def closed (w : World C T) (i : Nat) (c : Call C T) (a : Activator) (as : List (Attempt T)) :
    World C T :=
  let n := c.causes.length
  let noted := if n = 0 then w else w.note (context a i c).scope (.callFailed n)
  (noted.setStage i (.ended as noted.now)).setQueue c.activator (·.erase i)

theorem close_eq_closed {w : World C T} {i : Nat} {c : Call C T} {a : Activator}
    {as : List (Attempt T)} (hf : w.find? i = some (c, a)) (hs : c.stage = .working as)
    (hd : as.all Attempt.isDone) : w.close i = w.closed i c a as := by
  simp only [close, closed, hf, hs, hd, if_true]

theorem closed_calls (w : World C T) (i : Nat) (c : Call C T) (a : Activator)
    (as : List (Attempt T)) :
    (w.closed i c a as).calls = w.calls.modify i fun c => { c with stage := .ended as w.now } := by
  unfold closed
  dsimp only
  split <;> rfl

theorem find?_closed (w : World C T) (i : Nat) (c : Call C T) (a : Activator)
    (as : List (Attempt T)) (j : Nat) :
    (w.closed i c a as).find? j = (w.find? j).map fun (d, b) =>
      (if i = j then { d with stage := .ended as w.now } else d,
        if c.activator = d.activator then { b with queue := b.queue.erase i } else b) := by
  by_cases hn : c.causes.length = 0
  · simp only [closed, if_pos hn]
    exact find?_leave w i _ _ j
  · simp only [closed, if_neg hn]
    exact find?_leave (w.note ..) i _ _ j

/-- One step of the world, as a part of a move. -/
inductive Step (env : Collaborators C T) : Move C T → World C T → World C T → Prop where
  | submit {w rs} (hq : w.isQuiet) : Step env (.submit rs) w (w.submit (rs.map Request.call))
  | join {w i c a} (hf : w.find? i = some (c, a)) (hs : c.stage = .fresh) :
      Step env (.join i) w ((w.setQueue c.activator (· ++ [i])).setStage i .queued)
  | begin {w i c a} (hf : w.find? i = some (c, a)) (hs : c.stage = .queued)
      (hh : a.queue.head? = some i) :
      Step env (.begin i) w (w.begun i c a)
  | look {w i j c a as t p} (hf : w.find? i = some (c, a)) (hs : c.stage = .working as)
      (ht : as[j]? = some t) (hp : Attempt.Step env (context a i c) (t, w.site a) p) :
      Step env (.look i j) w (w.put i c as j p)
  | close {w i c a as} (hf : w.find? i = some (c, a)) (hs : c.stage = .working as)
      (hd : as.all Attempt.isDone) : Step env (.close i) w (w.closed i c a as)
  | cancel {w i} : Step env (.cancel i) w (w.cancel i)
  | drop {w i c} (hc : w.calls[i]? = some c) (ho : c.isOver = false) :
      Step env (.drop i) w
        ((w.setStage i (.dropped w.now)).setQueue c.activator (·.erase i))
  | turnLoops {w} : Step env .turnLoops w w.turnLoops
  | advance {w t} : Step env (.advance t) w (w.advance t)
  | spawn {w name body registry} (h : w.registry.spawn name body = .ok registry) :
      Step env (.spawn name body) w
        (({ w with registry }.noteLoop (.registered name)).turnLoops)
  | abort {w name registry} (h : w.registry.abort? name = some registry) :
      Step env (.abort name) w (({ w with registry }.noteLoop (.aborted name)).turnLoops)
  | beginShutdown {w} :
      Step env .beginShutdown w { w with registry := w.registry.beginShutdown.1 }
  | turnShutdown {w s} :
      Step env (.turnShutdown s) w
        ((s.turn w.registry).2.2.foldl noteLoop { w with registry := (s.turn w.registry).1 })

omit [Targeted T] in
theorem find?_congr {w w' : World C T} (hc : w'.calls = w.calls)
    (ha : w'.activators = w.activators) (i : Nat) : w'.find? i = w.find? i := by
  simp only [find?, hc, ha]

/-- Steps that belong to no call leave calls and activators alone, and note
only what the loops report. -/
theorem Step.background {env : Collaborators C T} {m : Move C T} {w w' : World C T}
    (h : Step env m w w') (hm : m.isBackground) :
    w'.calls = w.calls ∧ w'.activators = w.activators ∧
      ∃ ns : List LoopNotice,
        w'.trace = ns.map (fun n => ⟨w.now, none, .loop n none⟩) ++ w.trace := by
  cases h with
  | turnLoops =>
      rw [turnLoops_eq]
      exact ⟨rfl, rfl, _, rfl⟩
  | advance => exact ⟨rfl, rfl, [], rfl⟩
  | @spawn _ name _ registry _ =>
      rw [turnLoops_eq]
      refine ⟨rfl, rfl, (registry.turn w.now).2.reverse ++ [.registered name], ?_⟩
      rw [List.map_append, List.append_assoc]
      rfl
  | @abort _ name registry _ =>
      rw [turnLoops_eq]
      refine ⟨rfl, rfl, (registry.turn w.now).2.reverse ++ [.aborted name], ?_⟩
      rw [List.map_append, List.append_assoc]
      rfl
  | beginShutdown => exact ⟨rfl, rfl, [], rfl⟩
  | turnShutdown =>
      rw [foldl_noteLoop, ← List.map_reverse]
      exact ⟨rfl, rfl, _, rfl⟩
  | _ => cases hm

/-- They cancel nothing either. -/
theorem Step.background_fired {env : Collaborators C T} {m : Move C T} {w w' : World C T}
    (h : Step env m w w') (hm : m.isBackground) : w'.fired = w.fired := by
  cases h with
  | turnLoops => rw [turnLoops_eq]
  | spawn | abort =>
      rw [turnLoops_eq]
      rfl
  | advance | beginShutdown => rfl
  | turnShutdown => rw [foldl_noteLoop]
  | _ => cases hm

/-- Calls are never forgotten, and go forward only. -/
theorem Step.later {env : Collaborators C T} {m : Move C T} {w w' : World C T}
    (h : Step env m w w') {i : Nat} {c : Call C T} (hc : w.calls[i]? = some c) :
    ∃ c', w'.calls[i]? = some c' ∧ c.Later c' := by
  have hback := h.background
  -- A step sets the stage of a call that it has found in another stage.
  have hset : ∀ {j : Nat} {d : Call C T} {st : CallStage T}, w.calls[j]? = some d →
      d.isOver = false → (d.hasBegun → ({ d with stage := st } : Call C T).hasBegun) →
      ∃ c', (w.calls.modify j fun c => { c with stage := st })[i]? = some c' ∧ c.Later c' := by
    intro j d st hd ho hb
    refine later_modify hc fun hij => ?_
    rw [hij, hd] at hc
    cases hc
    exact .of_stage ho hb
  cases h with
  | submit =>
      exact ⟨c, (List.getElem?_append_left (List.getElem?_eq_some_iff.1 hc).1).trans hc, .refl c⟩
  | join hf hs =>
      exact hset (find?_eq_some.1 hf).1 (by simp [Call.isOver, hs]) (by simp [Call.hasBegun, hs])
  | begin hf hs =>
      exact hset (find?_eq_some.1 hf).1 (by simp [Call.isOver, hs]) (by simp [Call.hasBegun, hs])
  | look hf hs =>
      exact hset (find?_eq_some.1 hf).1 (by simp [Call.isOver, hs]) (by simp [Call.hasBegun])
  | close hf hs =>
      rw [closed_calls]
      exact hset (find?_eq_some.1 hf).1 (by simp [Call.isOver, hs]) (by simp [Call.hasBegun])
  | cancel => exact later_modify hc fun _ => ⟨rfl, rfl, rfl, id, fun _ => rfl⟩
  | drop hd ho => exact hset hd ho (by simp [Call.hasBegun])
  | _ =>
      obtain ⟨hcs, -, -⟩ := hback rfl
      exact ⟨c, by rw [hcs, hc], .refl c⟩

/-- The trace only grows. -/
theorem Step.trace_suffix {env : Collaborators C T} {m : Move C T} {w w' : World C T}
    (h : Step env m w w') : w.trace <:+ w'.trace := by
  have hback := h.background
  cases h with
  | submit | join | cancel | drop => exact List.suffix_rfl
  | begin =>
      rw [begun, beginWork_eq]
      exact (List.suffix_append _ _).trans (List.suffix_append _ _)
  | look _ _ _ hp => exact hp.trace_suffix
  | close =>
      unfold closed
      dsimp only
      split
      · exact List.suffix_rfl
      · exact List.suffix_cons ..
  | _ =>
      obtain ⟨-, -, ns, ht⟩ := hback rfl
      exact ⟨_, ht.symm⟩

/-- Whether a call has been made and has had its turn. -/
def hasBegun (w : World C T) (i : Nat) : Bool := w.calls[i]?.any Call.hasBegun

theorem Step.hasBegun {env : Collaborators C T} {m : Move C T} {w w' : World C T}
    (h : Step env m w w') {i : Nat} (hb : w.hasBegun i) : w'.hasBegun i := by
  obtain ⟨c, hc, hb⟩ := (Option.any_eq_true ..).1 hb
  obtain ⟨c', hc', hl⟩ := h.later hc
  exact (Option.any_eq_true ..).2 ⟨c', hc', hl.begun hb⟩

/-! ## Every move is a chain of steps -/

/-- A look does nothing, or what looking at one attempt does. -/
theorem look_cases (env : Collaborators C T) (w : World C T) (i j : Nat) :
    w.look env i j = w ∨ ∃ c a as t, w.find? i = some (c, a) ∧ c.stage = .working as ∧
      as[j]? = some t ∧
      w.look env i j = w.put i c as j (t.look env (context a i c) (w.site a)) := by
  rw [look]
  cases hf : w.find? i with
  | none => exact .inl rfl
  | some ca =>
      obtain ⟨c, a⟩ := ca
      dsimp only
      cases hs : c.stage with
      | working as =>
          dsimp only
          cases ht : as[j]? with
          | none => exact .inl rfl
          | some t => exact .inr ⟨c, a, as, t, rfl, hs, ht, rfl⟩
      | _ => exact .inl rfl

/-- Any other move does nothing, or is one step. -/
theorem move_cases (env : Collaborators C T) (w : World C T) {m : Move C T}
    (hm : ∀ i j, m ≠ .look i j) : w.move env m = w ∨ Step env m w (w.move env m) := by
  cases m with
  | submit rs =>
      rw [move]
      split
      · next hq => exact .inr (.submit hq)
      · exact .inl rfl
  | join i =>
      rw [move, join]
      cases hf : w.find? i with
      | none => exact .inl rfl
      | some ca =>
          obtain ⟨c, a⟩ := ca
          dsimp only
          cases hs : c.stage with
          | fresh => exact .inr (.join hf hs)
          | _ => exact .inl rfl
  | begin i =>
      rw [move, begin]
      cases hf : w.find? i with
      | none => exact .inl rfl
      | some ca =>
          obtain ⟨c, a⟩ := ca
          dsimp only
          cases hs : c.stage with
          | queued =>
              dsimp only
              split
              · next hh =>
                  have h : Step env (.begin i) w (w.begun i c a) := .begin hf hs hh
                  exact .inr h
              · exact .inl rfl
          | _ => exact .inl rfl
  | look i j => exact absurd rfl (hm i j)
  | close i =>
      rw [move, close]
      cases hf : w.find? i with
      | none => exact .inl rfl
      | some ca =>
          obtain ⟨c, a⟩ := ca
          dsimp only
          cases hs : c.stage with
          | working as =>
              dsimp only
              split
              · next hd => exact .inr (.close hf hs hd)
              · exact .inl rfl
          | _ => exact .inl rfl
  | cancel i => exact .inr .cancel
  | drop i =>
      rw [move, drop]
      cases hc : w.calls[i]? with
      | none => exact .inl rfl
      | some c =>
          dsimp only
          cases ho : c.isOver with
          | true => exact .inl rfl
          | false => exact .inr (.drop hc ho)
  | turnLoops => exact .inr .turnLoops
  | advance t => exact .inr .advance
  | spawn name body =>
      rw [move, spawn]
      cases h : w.registry.spawn name body with
      | error f => exact .inl rfl
      | ok registry => exact .inr (.spawn h)
  | abort name =>
      rw [move, abort]
      cases h : w.registry.abort? name with
      | none => exact .inl rfl
      | some registry => exact .inr (.abort h)
  | beginShutdown => exact .inr .beginShutdown
  | turnShutdown s => exact .inr .turnShutdown

theorem look_steps (env : Collaborators C T) (w : World C T) (i j : Nat) :
    Relation.ReflTransGen (Step env (.look i j)) w (w.look env i j) := by
  rcases look_cases env w i j with h | ⟨c, a, as, t, hf, hs, ht, h⟩
  · rw [h]
  rw [h]
  have hput : ∀ p, Attempt.Steps env (context a i c) (t, w.site a) p →
      Relation.ReflTransGen (Step env (.look i j)) w (w.put i c as j p) := by
    intro p hp
    induction hp with
    | refl => rw [put_self hf hs ht]
    | @tail p q hp hpq ih =>
        have hnow : p.2.now = w.now := Attempt.Steps.now_eq hp
        have hget : (as.set j p.1)[j]? = some p.1 := by
          have := (List.getElem?_eq_some_iff.1 ht).1
          simp [this]
        have hstep : Step env (.look i j) (w.put i c as j p) _ :=
          .look (find?_put hf) rfl hget (p := q) (by rw [site_put hnow]; exact hpq)
        rw [put_put (by simp)] at hstep
        exact ih.tail hstep
  exact hput _ (Attempt.look_steps ..)

/-- A move does what its steps do, and nothing else. -/
theorem move_steps (env : Collaborators C T) (w : World C T) (m : Move C T) :
    Relation.ReflTransGen (Step env m) w (w.move env m) := by
  by_cases hm : ∃ i j, m = .look i j
  · obtain ⟨i, j, rfl⟩ := hm
    exact look_steps env w i j
  · rcases move_cases env w (fun i j h => hm ⟨i, j, h⟩) with h | h
    · rw [h]
    · exact .single h

/-! ## Runs -/

theorem play_append (env : Collaborators C T) (w : World C T) (ms ms' : List (Move C T)) :
    w.play env (ms ++ ms') = (w.play env ms).play env ms' := List.foldl_append

theorem play_concat (env : Collaborators C T) (w : World C T) (ms : List (Move C T))
    (m : Move C T) : w.play env (ms ++ [m]) = (w.play env ms).move env m := by
  rw [play_append]
  rfl

/-- What every step of a move keeps, the move keeps. -/
theorem invariant_of_move {env : Collaborators C T} {P : World C T → Prop} {m : Move C T}
    (hstep : ∀ {w w'}, Step env m w w' → P w → P w') {w : World C T} (hw : P w) :
    P (w.move env m) := by
  have h := move_steps env w m
  generalize w.move env m = w' at h ⊢
  induction h with
  | refl => exact hw
  | tail _ hs ih => exact hstep hs ih

/-- A run that makes a move only in worlds in which it is allowed. -/
def Along (env : Collaborators C T) (A : World C T → Move C T → Prop) :
    World C T → List (Move C T) → Prop
  | _, [] => True
  | w, m :: ms => A w m ∧ Along env A (w.move env m) ms

section Along

variable {env : Collaborators C T} {A : World C T → Move C T → Prop} {w : World C T}
  {ms : List (Move C T)}

theorem along_append (ms ms' : List (Move C T)) :
    w.Along env A (ms ++ ms') ↔ w.Along env A ms ∧ (w.play env ms).Along env A ms' := by
  induction ms generalizing w with
  | nil => exact iff_of_eq (true_and _).symm
  | cons m ms ih => exact (and_congr_right fun _ => ih).trans and_assoc.symm

/-- Moves that are allowed everywhere make up a run from anywhere. -/
theorem along_of_forall (hms : ∀ m ∈ ms, ∀ v, A v m) : w.Along env A ms := by
  induction ms generalizing w with
  | nil => trivial
  | cons m ms ih => exact ⟨hms m (.head ms) w, ih fun m' hm' => hms m' (.tail m hm')⟩

theorem Along.exists_of_mem (hw : w.Along env A ms) {m : Move C T} (hm : m ∈ ms) :
    ∃ v, A v m := by
  obtain ⟨ms₁, ms₂, rfl⟩ := List.append_of_mem hm
  exact ⟨_, ((along_append ..).1 hw).2.1⟩

/-- What every allowed move keeps holds after the run. -/
theorem Along.invariant {P : World C T → Prop} (hms : w.Along env A ms)
    (hmove : ∀ {v m}, A v m → P v → P (v.move env m)) (hw : P w) : P (w.play env ms) := by
  induction ms generalizing w with
  | nil => exact hw
  | cons m ms ih => exact ih hms.2 (hmove hms.1 hw)

end Along

/-- What every step of the allowed moves keeps holds after every run of such
moves. -/
theorem invariant_of_play {env : Collaborators C T} {P : World C T → Prop}
    {A : Move C T → Prop}
    (hstep : ∀ {m w w'}, A m → Step env m w w' → P w → P w') {ms : List (Move C T)}
    (hms : ∀ m ∈ ms, A m) {w : World C T} (hw : P w) : P (w.play env ms) :=
  (along_of_forall (A := fun _ => A) fun m hm _ => hms m hm).invariant
    (fun hm => invariant_of_move (hstep hm)) hw

theorem hasBegun_move {env : Collaborators C T} {w : World C T} {i : Nat} (h : w.hasBegun i)
    (m : Move C T) : (w.move env m).hasBegun i :=
  invariant_of_move (P := fun w => w.hasBegun i) (fun hs => hs.hasBegun) h

theorem trace_suffix_move (env : Collaborators C T) (w : World C T) (m : Move C T) :
    w.trace <:+ (w.move env m).trace :=
  invariant_of_move (P := fun w' => w.trace <:+ w'.trace) (fun hs h => h.trans hs.trace_suffix)
    List.suffix_rfl

theorem trace_suffix_play (env : Collaborators C T) (w : World C T) (ms : List (Move C T)) :
    w.trace <:+ (w.play env ms).trace :=
  invariant_of_play (P := fun w' => w.trace <:+ w'.trace) (A := fun _ => True)
    (fun _ hs h => h.trans hs.trace_suffix) (fun _ _ => trivial) List.suffix_rfl

/-- A call keeps to what it is. -/
theorem later_play (env : Collaborators C T) {w : World C T} {i : Nat} {c : Call C T}
    (hc : w.calls[i]? = some c) (ms : List (Move C T)) :
    ∃ c', (w.play env ms).calls[i]? = some c' ∧ c.Later c' := by
  refine invariant_of_play (P := fun v => ∃ c', v.calls[i]? = some c' ∧ c.Later c')
    (A := fun _ => True) (fun _ h hv => ?_) (fun _ _ => trivial) ⟨c, hc, .refl c⟩
  obtain ⟨c', hc', hl⟩ := hv
  obtain ⟨d, hd, hl'⟩ := h.later hc'
  exact ⟨d, hd, hl.trans hl'⟩

end World

end Lifecycle
