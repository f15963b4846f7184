import Lifecycle.Proofs.Portion

/-!
# Targets that are listed twice

A call may list a reference several times. It works on the first target of each reference
and remarks the others, so it does what it would do if it listed each of them once:
`repeated_targets_ignored`.

Little tells two such runs apart: the remarks, and the number of listed targets, which
stands in every entry of the call. `collapse` leaves both out, and has each call list what
it works on. It commutes with whatever an attempt does, since an attempt does not read the
trace; only the collaborators could, and what is left out is not for them
(`Collaborators.IgnoresRepetition`). Apart from that the targets that are listed matter in
one place, where controllers are switched off that are not wanted, and there it is their
references that count: `deactivateStale_distinctTargets`.

The rest is plumbing. Worlds that are the same when collapsed are the same after every
move, hence after every list of moves, and after every pass of a round.
-/

namespace Lifecycle

variable {C T : Type}

/-- Of the targets with a reference the first one is kept. -/
theorem filter_distinctTargets [Targeted T] (targets : List T) (r : ResourceReference) :
    (distinctTargets targets).filter (fun t => reference t = r) =
      (targets.find? fun t => reference t = r).toList := by
  have h := filterMap_key (nodup_map_distinctBy (reference (T := T)) targets []) some r
  rw [Option.bind_fun_some, find?_distinctBy List.not_mem_nil] at h
  rw [← h, ← List.filterMap_eq_filter]
  refine List.filterMap_congr fun t _ => ?_
  simp [Option.guard]

/-! ## What is left out -/

def Happening.isRepeated : Happening C T → Bool
  | .repeated _ => true
  | _ => false

/-- A scope that does not tell how many targets its call lists. -/
def Scope.uncounted (x : Scope C) : Scope C := { x with targets := 0 }

def Context.uncounted (x : Context C) : Context C := { x with scope := x.scope.uncounted }

def Entry.uncounted (e : Entry C T) : Entry C T := { e with scope := e.scope.map .uncounted }

/-- What is noted apart from remarks about repeated targets and from how many targets a call
lists. -/
def Trace.collapse (t : Trace C T) : Trace C T :=
  (t.filter fun e => !e.what.isRepeated).map Entry.uncounted

def Site.collapse (s : Site C T) : Site C T := { s with trace := s.trace.collapse }

/-- Collaborators that do not read remarks about repeated targets, nor how many targets a call
lists. Both are written down for operators, and no collaborator is handed either of them. -/
structure Collaborators.IgnoresRepetition (env : Collaborators C T) : Prop where
  checks : ∀ tr now gv, env.check (Trace.collapse tr) now gv = env.check tr now gv
  creates : ∀ tr now capability t config,
    env.create (Trace.collapse tr) now capability t config = env.create tr now capability t config

theorem Trace.collapse_cons {e : Entry C T} (h : e.what.isRepeated = false) (t : Trace C T) :
    Trace.collapse (e :: t) = e.uncounted :: Trace.collapse t := by
  rw [collapse, List.filter_cons_of_pos (by simp [h])]
  rfl

/-- What is done about a reference is told in full. -/
theorem Trace.acts_collapse [Targeted T] (t : Trace C T) (k : Nat) (r : ResourceReference) :
    Trace.acts (Trace.collapse t) k r = Trace.acts t k r := by
  have hact : ∀ e : Entry C T, e.uncounted.act? k r = e.act? k r := by
    intro e
    unfold Entry.act? Entry.uncounted
    cases e.scope <;> cases e.what.act? <;> rfl
  rw [acts, acts, collapse, ← List.map_reverse, ← List.filter_reverse, List.filterMap_map,
    List.filterMap_filter]
  refine List.filterMap_congr fun e _ => ?_
  by_cases he : e.what.isRepeated
  · have hnone : e.act? k r = none := by
      unfold Entry.act?
      cases hw : e.what with
      | repeated q => cases e.scope <;> rfl
      | _ => simp [hw, Happening.isRepeated] at he
    simp [he, hnone]
  · simp [he, hact]

namespace Site

variable (x : Context C) (s : Site C T)

@[simp]
theorem now_collapse : s.collapse.now = s.now := rfl

@[simp]
theorem registry_collapse : s.collapse.registry = s.registry := rfl

@[simp]
theorem store_collapse : s.collapse.store = s.store := rfl

@[simp]
theorem cancelled_collapse : s.collapse.cancelled x.uncounted = s.cancelled x := rfl

theorem collapse_note {what : Happening C T} (h : what.isRepeated = false) :
    (s.note x what).collapse = s.collapse.note x.uncounted what := by
  rw [note, collapse, Trace.collapse_cons h]
  rfl

end Site

/-! ## Attempts -/

theorem Registration.run_collapse (x : Context C) (c : String) (r : ResourceReference)
    (rest : Registration) (since : Option Nat) (s : Site C T) :
    rest.run x.uncounted c r since s.collapse =
      ((rest.run x c r since s).1, (rest.run x c r since s).2.collapse) := by
  induction rest generalizing since s with
  | finish fault => rfl
  | spawn name body next ih =>
      rw [run, run, Site.registry_collapse]
      cases s.registry.spawn name body with
      | error f => rfl
      | ok registry =>
          dsimp only
          rw [← ih, Site.collapse_note _ _ rfl]
          rfl
  | spawnOr name body next refused ih ihr =>
      rw [run, run, Site.registry_collapse]
      cases s.registry.spawn name body with
      | error f => exact ihr ..
      | ok registry =>
          dsimp only
          rw [← ih, Site.collapse_note _ _ rfl]
          rfl
  | cancel whole next ih => exact ih none { s with fired := s.fired.fire whole x.scope.call }
  | synced next ih =>
      rw [run, run, ← ih, Site.collapse_note _ _ rfl]
  | sleep millis interrupted next ih =>
      rw [run.eq_def, run.eq_def]
      dsimp only
      rw [Site.cancelled_collapse, Site.now_collapse]
      split
      · rfl
      · cases millis with
        | none => rfl
        | some d =>
            dsimp only
            split
            · exact ih ..
            · rfl

namespace Attempt

theorem release_collapse (x : Context C) (r : ResourceReference) (c : String) (free : Bool)
    (s : Site C T) :
    release x.uncounted r c free s.collapse = (release x r c free s).collapse := by
  unfold release
  rw [Site.registry_collapse]
  split
  · cases s.registry.abort? c with
    | none => rfl
    | some registry =>
        dsimp only
        rw [Site.collapse_note _ _ rfl, Site.collapse_note _ _ rfl]
        rfl
  · rfl

section Collapse

variable [Targeted T] (x : Context C) (a : Attempt T) (s : Site C T)

theorem settle_collapse (c : String) (free : Bool) (fault : Option Fault) :
    settle x.uncounted a c free fault s.collapse =
      ((settle x a c free fault s).1, (settle x a c free fault s).2.collapse) := by
  have hnoted : s.collapse.note x.uncounted (.returned c a.reference fault (s.cancelled x)) =
      (s.note x (.returned c a.reference fault (s.cancelled x))).collapse :=
    (Site.collapse_note _ _ rfl).symm
  unfold settle
  dsimp only
  rw [Site.cancelled_collapse, hnoted, release_collapse, ← apply_ite Site.collapse]
  -- Whether a name was freed is of no interest from here on.
  generalize (if fault.isSome = true ∨ s.cancelled x = true then _ else _ : Site C T) = s'
  split
  · rfl
  · cases fault with
    | none =>
        dsimp only
        rw [Site.collapse_note _ _ rfl]
        rfl
    | some f =>
        dsimp only
        rw [Site.collapse_note _ _ rfl]
        rfl

theorem register_collapse (c : String) (free : Bool) (rest : Registration) (since : Option Nat) :
    register x.uncounted a c free rest since s.collapse =
      ((register x a c free rest since s).1, (register x a c free rest since s).2.collapse) := by
  unfold register
  rw [Registration.run_collapse]
  rcases rest.run x c a.reference since s with ⟨⟨rest, since⟩ | ⟨fault⟩, s'⟩
  · rfl
  · exact settle_collapse ..

omit [Targeted T] in
theorem noteFinding_collapse (r : ResourceReference) (f : Option (Finding Fault)) :
    noteFinding x.uncounted r s.collapse f = (noteFinding x r s f).collapse := by
  cases f with
  | none => rfl
  | some f => exact (Site.collapse_note _ _ rfl).symm

variable {env : Collaborators C T} (henv : env.IgnoresRepetition)

include henv

theorem create_collapse : create env x.uncounted a s.collapse =
    ((create env x a s).1, (create env x a s).2.collapse) := by
  have hcreate : env.create s.collapse.trace s.collapse.now x.uncounted.scope.capability a.target
      x.uncounted.scope.config = env.create s.trace s.now x.scope.capability a.target
        x.scope.config := henv.creates ..
  unfold create
  dsimp only
  rw [hcreate]
  generalize env.create s.trace s.now x.scope.capability a.target x.scope.config = c
  rw [← register_collapse, Site.collapse_note _ _ rfl, Site.collapse_note _ _ rfl]
  rfl

theorem afterWait_collapse (o : Outcome Fault) :
    afterWait env x.uncounted a s.collapse o =
      ((afterWait env x a s o).1, (afterWait env x a s o).2.collapse) := by
  cases o with
  | ready => exact create_collapse x a s henv
  | cancelled => rfl
  | timedOut | failed f =>
      rw [afterWait, afterWait, Site.collapse_note _ _ rfl]
      rfl

theorem afterTurn_collapse (turn : Wait.Turn Fault) :
    afterTurn env x.uncounted a s.collapse turn =
      ((afterTurn env x a s turn).1, (afterTurn env x a s turn).2.collapse) := by
  cases turn with
  | stay w => rfl
  | ask => rfl
  | _ => exact afterWait_collapse x a s henv _

omit [Targeted T] in
theorem startCheck_collapse (r : ResourceReference) :
    startCheck env x.uncounted r s.collapse =
      ((startCheck env x r s).1, (startCheck env x r s).2.collapse) := by
  have hcheck : env.check s.collapse.trace s.collapse.now r.groupVersion =
      env.check s.trace s.now r.groupVersion := henv.checks ..
  unfold startCheck
  dsimp only
  rw [hcheck, Site.collapse_note _ _ rfl]
  rfl

theorem makeCheck_collapse (w : Wait Fault) :
    makeCheck env x.uncounted a w s.collapse =
      ((makeCheck env x a w s).1, (makeCheck env x a w s).2.collapse) := by
  unfold makeCheck
  dsimp only
  split
  · exact afterWait_collapse x a s henv _
  · split
    · rfl
    · rw [startCheck_collapse x s henv]
      simp only [noteFinding_collapse, Site.now_collapse, Site.cancelled_collapse]
      exact afterTurn_collapse x a _ henv _

theorem awaitSchema_collapse (w : Wait Fault) :
    awaitSchema env x.uncounted a w s.collapse =
      ((awaitSchema env x a w s).1, (awaitSchema env x a w s).2.collapse) := by
  unfold awaitSchema
  simp only [Site.cancelled_collapse, Site.now_collapse, noteFinding_collapse]
  split
  · exact makeCheck_collapse x a s henv w
  · exact afterTurn_collapse x a _ henv _

theorem poll_collapse :
    poll env x.uncounted a s.collapse = ((poll env x a s).1, (poll env x a s).2.collapse) := by
  unfold poll
  cases a.stage with
  | done => rfl
  | registering c free rest since => exact register_collapse ..
  | waiting w => exact awaitSchema_collapse x a s henv w
  | fresh =>
      dsimp only
      rw [Site.store_collapse]
      cases s.store.get? a.reference with
      | some h =>
          dsimp only
          rw [Site.collapse_note _ _ rfl]
          rfl
      | none => exact awaitSchema_collapse x a s henv _

theorem look_collapse :
    look env x.uncounted a s.collapse = ((look env x a s).1, (look env x a s).2.collapse) := by
  unfold look
  rw [poll_collapse x a s henv]
  dsimp only
  split <;> rfl

/-- What is left out makes no difference to a look. -/
theorem look_congr {x x' : Context C} {s s' : Site C T} (hx : x'.uncounted = x.uncounted)
    (hs : s'.collapse = s.collapse) :
    (look env x' a s').1 = (look env x a s).1 ∧
      (look env x' a s').2.collapse = (look env x a s).2.collapse := by
  have h := look_collapse x' a s' henv
  rw [hx, hs, look_collapse x a s henv] at h
  obtain ⟨ha, hs⟩ := Prod.mk.inj h
  exact ⟨ha.symm, hs.symm⟩

end Collapse

end Attempt

/-! ## Calls and worlds -/

section Calls

variable [Targeted T]

/-- A call that lists each target once. -/
def Call.collapse (c : Call C T) : Call C T := { c with targets := distinctTargets c.targets }

def Request.collapse (q : Request C T) : Request C T :=
  { q with targets := distinctTargets q.targets }

theorem Request.map_congr {α : Type} {f : Request C T → α} (hf : ∀ q, f q.collapse = f q)
    {rs rs' : List (Request C T)} (hrs : rs'.map collapse = rs.map collapse) :
    rs'.map f = rs.map f := by
  have hmap : ∀ rs : List (Request C T), rs.map f = (rs.map collapse).map f := by
    intro rs
    rw [List.map_map]
    exact List.map_congr_left fun q _ => (hf q).symm
  rw [hmap rs', hrs, hmap rs]

/-- A world in which every call lists each of its targets once, and nothing is remarked about
that. -/
def World.collapse (w : World C T) : World C T :=
  { w with calls := w.calls.map Call.collapse, trace := w.trace.collapse }

namespace Site

omit [Targeted T] in
theorem collapse_foldl_note {α : Type} {f : α → Happening C T} (hf : ∀ y, (f y).isRepeated = false)
    (x : Context C) (ys : List α) (s : Site C T) :
    (ys.foldl (fun s y => s.note x (f y)) s).collapse =
      ys.foldl (fun s y => s.note x.uncounted (f y)) s.collapse := by
  induction ys generalizing s with
  | nil => rfl
  | cons y ys ih => rw [List.foldl_cons, ih, collapse_note x s (hf y), List.foldl_cons]

omit [Targeted T] in
theorem collapse_foldl_repeated (x : Context C) (rs : List ResourceReference) (s : Site C T) :
    (rs.foldl (fun s r => s.note x (.repeated r)) s).collapse = s.collapse := by
  induction rs generalizing s with
  | nil => rfl
  | cons r rs ih => exact ih (s.note x (.repeated r))

end Site

namespace World

theorem deactivateStale_distinctTargets (x : Context C) (ts : List T) (s : Site C T) :
    deactivateStale x (distinctTargets ts) s = deactivateStale x ts s := by
  simp only [deactivateStale, Store.stale, Store.retire, mem_map_distinctTargets]

/-- What a call does first is to switch off what is not wanted, when the remarks are left out. -/
theorem collapse_beginWork (x : Context C) (ts : List T) (s : Site C T) :
    (beginWork x ts s).2.collapse =
      deactivateStale x.uncounted (distinctTargets ts) s.collapse := by
  rw [deactivateStale_distinctTargets, beginWork]
  dsimp only
  rw [Site.collapse_foldl_repeated]
  exact Site.collapse_foldl_note (fun _ => rfl) ..

/-! ## Operations -/

theorem registry_collapse (w : World C T) : w.collapse.registry = w.registry := rfl

theorem collapse_withSite (w : World C T) (k : Nat) (s : Site C T) :
    (w.withSite k s).collapse = w.collapse.withSite k s.collapse := rfl

theorem collapse_setQueue (w : World C T) (k : Nat) (f : List Nat → List Nat) :
    (w.setQueue k f).collapse = w.collapse.setQueue k f := rfl

theorem collapse_modify {f : Call C T → Call C T} (hf : ∀ c, (f c).collapse = f c.collapse)
    (w : World C T) (i : Nat) : ({ w with calls := w.calls.modify i f } : World C T).collapse =
      { w.collapse with calls := w.collapse.calls.modify i f } := by
  rw [collapse, map_modify hf]
  rfl

theorem collapse_setStage (w : World C T) (i : Nat) (st : CallStage T) :
    (w.setStage i st).collapse = w.collapse.setStage i st :=
  collapse_modify (f := fun c => { c with stage := st }) (fun _ => rfl) w i

theorem collapse_cancel (w : World C T) (i : Nat) : (w.cancel i).collapse = w.collapse.cancel i :=
  collapse_modify (f := fun c => { c with cancelled := true }) (fun _ => rfl) w i

theorem collapse_note (w : World C T) (x : Option (Scope C)) {what : Happening C T}
    (h : what.isRepeated = false) :
    (w.note x what).collapse = w.collapse.note (x.map .uncounted) what := by
  rw [note, collapse, Trace.collapse_cons h]
  rfl

theorem collapse_foldl_noteLoop (ns : List LoopNotice) (w : World C T) :
    (ns.foldl noteLoop w).collapse = ns.foldl noteLoop w.collapse := by
  induction ns generalizing w with
  | nil => rfl
  | cons n ns ih => exact ih (w.noteLoop n)

theorem collapse_turnLoops (w : World C T) : w.turnLoops.collapse = w.collapse.turnLoops :=
  collapse_foldl_noteLoop ..

theorem collapse_spawn (w : World C T) (name : String) (body : LoopBody) :
    (w.spawn name body).2.collapse = (w.collapse.spawn name body).2 := by
  rw [spawn, spawn, registry_collapse]
  cases w.registry.spawn name body with
  | error f => rfl
  | ok registry => exact collapse_turnLoops ..

theorem collapse_abort (w : World C T) (name : String) :
    (w.abort name).2.collapse = (w.collapse.abort name).2 := by
  rw [abort, abort, registry_collapse]
  cases w.registry.abort? name with
  | none => rfl
  | some registry => exact collapse_turnLoops ..

theorem collapse_submit (w : World C T) (cs : List (Call C T)) :
    (w.submit cs).collapse = w.collapse.submit (cs.map Call.collapse) := by
  simp only [collapse, submit, List.map_append, List.length_map]

theorem find?_collapse (w : World C T) (i : Nat) :
    w.collapse.find? i = (w.find? i).map fun p => (p.1.collapse, p.2) := by
  simp only [find?, collapse, List.getElem?_map]
  cases w.calls[i]? with
  | none => rfl
  | some c => cases h : w.activators[c.activator]? <;> simp [Call.collapse, h]

theorem collapse_join (w : World C T) (i : Nat) : (w.join i).collapse = w.collapse.join i := by
  rw [join, join, find?_collapse]
  rcases w.find? i with _ | ⟨c, a⟩
  · rfl
  · dsimp only [Option.map_some, Call.collapse]
    cases c.stage with
    | fresh => exact collapse_setStage ..
    | _ => rfl

theorem collapse_drop (w : World C T) (i : Nat) : (w.drop i).collapse = w.collapse.drop i := by
  have hcall : w.collapse.calls[i]? = w.calls[i]?.map Call.collapse := List.getElem?_map ..
  rw [drop, drop, hcall]
  cases w.calls[i]? with
  | none => rfl
  | some c =>
      show _ = if c.isOver then w.collapse else _
      rw [apply_ite World.collapse, collapse_setQueue, collapse_setStage]
      rfl

/-! ## Moves -/

variable {env : Collaborators C T} {w w' : World C T}

theorem uncounted_context {c c' : Call C T} (hc : c'.collapse = c.collapse) (a : Activator)
    (i : Nat) : (context a i c').uncounted = (context a i c).uncounted := by
  show (context a i c'.collapse).uncounted = (context a i c.collapse).uncounted
  rw [hc]

section Congr

variable (h : w'.collapse = w.collapse)

include h

theorem read_congr {α : Type} {f : World C T → α} (hf : ∀ w, f w.collapse = f w) :
    f w' = f w := by rw [← hf w', h, hf w]

theorem commute_congr {f : World C T → World C T} (hf : ∀ w, (f w).collapse = f w.collapse) :
    (f w').collapse = (f w).collapse := by rw [hf, hf, h]

/-- The same call stands at the same place, on the same activator. -/
theorem find?_of_collapse (i : Nat) : (w.find? i = none ∧ w'.find? i = none) ∨
    ∃ c c' a, w.find? i = some (c, a) ∧ w'.find? i = some (c', a) ∧ c'.collapse = c.collapse := by
  have hf : w'.collapse.find? i = w.collapse.find? i := by rw [h]
  rw [find?_collapse, find?_collapse] at hf
  cases hw : w.find? i with
  | none =>
      rw [hw, Option.map_none, Option.map_eq_none_iff] at hf
      exact .inl ⟨rfl, hf⟩
  | some p =>
      rw [hw, Option.map_some, Option.map_eq_some_iff] at hf
      obtain ⟨p', hw', hp⟩ := hf
      obtain ⟨hc, ha⟩ := Prod.mk.inj hp
      exact .inr ⟨p.1, p'.1, p.2, rfl, by rw [hw', ← ha], hc⟩

theorem site_congr (a : Activator) : (w'.site a).collapse = (w.site a).collapse := by
  show w'.collapse.site a = w.collapse.site a
  rw [h]

/-- What the attempts of a call have come to is taken over alike. -/
theorem takeOver_congr {c c' : Call C T} (hc : c'.collapse = c.collapse) {s s' : Site C T}
    (hs : s'.collapse = s.collapse) (i : Nat) (st : CallStage T) :
    ((w'.withSite c'.activator s').setStage i st).collapse =
      ((w.withSite c.activator s).setStage i st).collapse := by
  have hactivator : c'.activator = c.activator := (congrArg Call.activator hc :)
  rw [collapse_setStage, collapse_withSite, collapse_setStage, collapse_withSite, h, hs,
    hactivator]

theorem begin_congr (i : Nat) : (w'.begin i).collapse = (w.begin i).collapse := by
  rcases find?_of_collapse h i with ⟨hf, hf'⟩ | ⟨c, c', a, hf, hf', hc⟩
  · simp only [begin, hf, hf', h]
  · have hst : c'.stage = c.stage := (congrArg Call.stage hc :)
    have hts : distinctTargets c'.targets = distinctTargets c.targets :=
      (congrArg Call.targets hc :)
    simp only [begin, hf, hf', hst]
    cases c.stage with
    | queued =>
        dsimp only
        split
        · -- Both have attempts for the first targets, which are the same.
          have hattempts : (beginWork (context a i c') c'.targets (w'.site a)).1 =
              (beginWork (context a i c) c.targets (w.site a)).1 :=
            congrArg (List.map Attempt.begin) hts
          rw [hattempts]
          refine takeOver_congr h hc ?_ i _
          rw [collapse_beginWork, collapse_beginWork, uncounted_context hc, hts, site_congr h]
        · exact h
    | _ => exact h

theorem look_congr (henv : env.IgnoresRepetition) (i j : Nat) :
    (w'.look env i j).collapse = (w.look env i j).collapse := by
  rcases find?_of_collapse h i with ⟨hf, hf'⟩ | ⟨c, c', a, hf, hf', hc⟩
  · simp only [look, hf, hf', h]
  · have hst : c'.stage = c.stage := (congrArg Call.stage hc :)
    simp only [look, hf, hf', hst]
    cases c.stage with
    | working as =>
        dsimp only
        cases as[j]? with
        | none => exact h
        | some t =>
            obtain ⟨ht, hs⟩ :=
              Attempt.look_congr t henv (uncounted_context hc a i) (site_congr h a)
            dsimp only
            rw [ht]
            exact takeOver_congr h hc hs i _
    | _ => exact h

/-- A call that has ended leaves its queue. -/
theorem leave_congr (i k : Nat) (as : List (Attempt T)) :
    ((w'.setStage i (.ended as w'.now)).setQueue k (·.erase i)).collapse =
      ((w.setStage i (.ended as w.now)).setQueue k (·.erase i)).collapse := by
  have hnow : w'.now = w.now := (congrArg World.now h :)
  rw [collapse_setQueue, collapse_setStage, h, hnow, collapse_setQueue, collapse_setStage]

theorem close_congr (i : Nat) : (w'.close i).collapse = (w.close i).collapse := by
  rcases find?_of_collapse h i with ⟨hf, hf'⟩ | ⟨c, c', a, hf, hf', hc⟩
  · simp only [close, hf, hf', h]
  · have hst : c'.stage = c.stage := (congrArg Call.stage hc :)
    have hcauses : c'.causes = c.causes := (congrArg Call.causes hc :)
    have hactivator : c'.activator = c.activator := (congrArg Call.activator hc :)
    have hscope := congrArg Context.scope (uncounted_context hc a i)
    simp only [close, hf, hf', hst, hcauses, hactivator]
    cases c.stage with
    | working as =>
        dsimp only
        split
        · refine leave_congr ?_ i _ as
          split
          · exact h
          · rw [collapse_note _ _ rfl, collapse_note _ _ rfl, h]
            exact congrArg (w.collapse.note · _) (congrArg some hscope)
        · exact h
    | _ => exact h

theorem isQuiet_congr : w'.isQuiet = w.isQuiet := read_congr h fun _ => List.all_map

theorem attempts_congr (i : Nat) : w'.attempts i = w.attempts i := by
  refine read_congr (f := (·.attempts i)) h fun w => ?_
  rw [attempts, collapse, List.getElem?_map, Option.map_map]
  rfl

theorem isCancelled_congr (i : Nat) : w'.isCancelled i = w.isCancelled i := by
  refine read_congr (f := (·.isCancelled i)) h fun w => ?_
  rw [isCancelled, collapse, List.getElem?_map, Option.any_map]
  rfl

theorem hasAsked_congr : w'.hasAsked = w.hasAsked := read_congr h fun _ => List.any_map

theorem wakes_congr (plans : List Plan) : w'.wakes plans = w.wakes plans := by
  refine read_congr (f := wakes plans) h fun w => ?_
  rw [wakes, collapse, ← List.map_drop, List.zip_map_left, List.flatMap_map]
  rfl

/-- What is done when its time has come is done at the same time. -/
theorem ifDue_congr {f : World C T → World C T}
    (hf : ∀ {w w'}, w'.collapse = w.collapse → (f w').collapse = (f w).collapse)
    (time : Option Nat) :
    (if time.any (· ≤ w'.now) then f w' else w').collapse =
      (if time.any (· ≤ w.now) then f w else w).collapse := by
  have hnow : w'.now = w.now := (congrArg World.now h :)
  rw [hnow]
  split
  · exact hf h
  · exact h

/-- Calls are made that list the same targets, apart from repeated ones. -/
theorem submit_congr {rs rs' : List (Request C T)}
    (hrs : rs'.map Request.collapse = rs.map Request.collapse) :
    (w'.submit (rs'.map Request.call)).collapse = (w.submit (rs.map Request.call)).collapse := by
  have hcalls : ∀ rs : List (Request C T), (rs.map Request.call).map Call.collapse =
      (rs.map Request.collapse).map Request.call := by
    intro rs
    rw [List.map_map, List.map_map]
    rfl
  rw [collapse_submit, collapse_submit, h, hcalls, hrs, hcalls]

section Ignoring

variable (henv : env.IgnoresRepetition)

include henv

/-- What is left out makes no difference to a move. -/
theorem move_congr (m : Move C T) : (w'.move env m).collapse = (w.move env m).collapse := by
  cases m with
  | submit rs =>
      rw [move, move, isQuiet_congr h]
      split
      · exact submit_congr h rfl
      · exact h
  | join i => exact commute_congr h fun w => collapse_join w i
  | begin i => exact begin_congr h i
  | look i j => exact look_congr h henv i j
  | close i => exact close_congr h i
  | cancel i => exact commute_congr h fun w => collapse_cancel w i
  | drop i => exact commute_congr h fun w => collapse_drop w i
  | turnLoops => exact commute_congr h collapse_turnLoops
  | advance t => exact commute_congr (f := (·.advance t)) h fun _ => rfl
  | spawn name body => exact commute_congr h fun w => collapse_spawn w name body
  | abort name => exact commute_congr h fun w => collapse_abort w name
  | beginShutdown => exact commute_congr (f := (·.move env .beginShutdown)) h fun _ => rfl
  | turnShutdown s =>
      exact commute_congr (f := (·.move env (.turnShutdown s))) h fun w =>
        collapse_foldl_noteLoop (s.turn w.registry).2.2 _

theorem play_congr (ms : List (Move C T)) :
    (w'.play env ms).collapse = (w.play env ms).collapse := by
  induction ms generalizing w w' with
  | nil => exact h
  | cons m ms ih => exact ih (move_congr h henv m)

/-! ## Rounds -/

theorem lookEach_congr (i : Nat) (places : List Nat) :
    (w'.lookEach env i places).collapse = (w.lookEach env i places).collapse := by
  induction places generalizing w w' with
  | nil => exact h
  | cons j places ih => exact ih (look_congr h henv i j)

theorem lookAll_congr (i : Nat) : (w'.lookAll env i).collapse = (w.lookAll env i).collapse := by
  have hnow : w'.now = w.now := (congrArg World.now h :)
  rw [lookAll, lookAll, attempts_congr h, hnow]
  dsimp only
  split
  · exact lookEach_congr h henv ..
  · have hdue := lookEach_congr h henv i
      (Attempt.byTicket (Attempt.dueTicket? w.now) (w.attempts i))
    rw [isCancelled_congr hdue, attempts_congr hdue]
    split
    · exact lookEach_congr hdue henv ..
    · exact hdue

theorem poll_congr (i : Nat) : (w'.poll env i).collapse = (w.poll env i).collapse :=
  close_congr (lookAll_congr (begin_congr (move_congr h henv (.join i)) i) henv i) i

theorem visit_congr (i : Nat) (p : Plan) :
    (w'.visit env i p).collapse = (w.visit env i p).collapse :=
  ifDue_congr (poll_congr (ifDue_congr h (fun h => move_congr h henv (.cancel i)) _) henv i)
    (fun h => move_congr h henv (.drop i)) _

theorem visitFrom_congr (i : Nat) (ps : List Plan) :
    (visitFrom env i ps w').collapse = (visitFrom env i ps w).collapse := by
  induction ps generalizing i w w' with
  | nil => exact h
  | cons p ps ih => exact ih (visit_congr h henv i p) (i + 1)

theorem pass_congr (plans : List Plan) :
    (w'.pass env plans).1.collapse = (w.pass env plans).1.collapse ∧
      (w'.pass env plans).2 = (w.pass env plans).2 := by
  have hfired : w'.fired = w.fired := (congrArg World.fired h :)
  have hopened : w'.opened = w.opened := (congrArg World.opened h :)
  have hvisited := visitFrom_congr h henv w.opened plans
  have hturned := move_congr hvisited henv .turnLoops
  have hcut : (visitFrom env w.opened plans w').fired = (visitFrom env w.opened plans w).fired :=
    (congrArg World.fired hvisited :)
  rw [move, move] at hturned
  unfold pass
  dsimp only
  rw [hopened, hfired, hasAsked_congr hvisited, hcut, isQuiet_congr hturned, wakes_congr hturned]
  split
  · exact ⟨hturned, rfl⟩
  · split
    · exact ⟨hturned, rfl⟩
    · split
      · exact ⟨hturned, rfl⟩
      · exact ⟨move_congr hturned henv (.advance _), rfl⟩

theorem run_congr (plans : List Plan) (fuel : Nat) :
    (run env plans fuel w').collapse = (run env plans fuel w).collapse := by
  induction fuel generalizing w w' with
  | zero => exact h
  | succ fuel ih =>
      -- Both are passed once more, or neither is.
      have hpass := pass_congr h henv plans
      revert hpass
      rw [run, run]
      rcases w.pass env plans with ⟨v, _ | _⟩ <;> rcases w'.pass env plans with ⟨v', _ | _⟩
      · exact fun hpass => hpass.1
      · exact fun hpass => nomatch hpass.2
      · exact fun hpass => nomatch hpass.2
      · exact fun hpass => ih hpass.1

theorem round_congr (patience : Nat) {rs rs' : List (Request C T)}
    (hrs : rs'.map Request.collapse = rs.map Request.collapse) :
    (w'.round env patience rs').collapse = (w.round env patience rs).collapse := by
  have hnow : w'.now = w.now := (congrArg World.now h :)
  have hplans : rs'.map (·.plan w'.now) = rs.map (·.plan w.now) := by
    rw [hnow]
    exact Request.map_congr (fun _ => rfl) hrs
  have hlongest : ∀ q : Request C T, q.longest w' patience = q.longest w patience :=
    fun q => read_congr (f := (q.longest · patience)) h fun _ => rfl
  have hlength : rs'.length = rs.length := by simpa using congrArg List.length hrs
  have hpasses : w'.passes rs' patience = w.passes rs patience := by
    simp only [passes, hlongest, hlength,
      Request.map_congr (f := (·.longest w patience)) (fun _ => rfl) hrs]
  rw [round, round, hplans, hpasses]
  exact run_congr (submit_congr h hrs) henv ..

end Ignoring

end Congr

/-! ## Repeated targets -/

/-- Two worlds in which all went the same way, though calls may have listed some of their
targets more or less often. -/
structure SameCourse (w w' : World C T) : Prop where
  now : w'.now = w.now
  /-- The stores of the activators and their queues. -/
  activators : w'.activators = w.activators
  registry : w'.registry = w.registry
  /-- How far the calls have come, with every attempt. -/
  stages : w'.calls.map Call.stage = w.calls.map Call.stage
  results : w'.calls.map Call.result? = w.calls.map Call.result?
  /-- About each reference the same was done by each call: checks, controllers made and
  registered, updates and switch-offs. -/
  acts : ∀ k r, Trace.acts w'.trace k r = Trace.acts w.trace k r
  /-- All this and whatever else was noted came in the same order and at the same instants. -/
  trace : w'.trace.collapse = w.trace.collapse

theorem sameCourse_of_collapse (h : w'.collapse = w.collapse) : w.SameCourse w' where
  now := (congrArg World.now h :)
  activators := (congrArg World.activators h :)
  registry := (congrArg World.registry h :)
  stages := by
    have hcalls := congrArg (List.map Call.stage) (congrArg World.calls h)
    rw [collapse, collapse, List.map_map, List.map_map] at hcalls
    exact hcalls
  results := by
    have hcalls := congrArg (List.map Call.result?) (congrArg World.calls h)
    rw [collapse, collapse, List.map_map, List.map_map] at hcalls
    exact hcalls
  acts k r := by
    have htrace : w'.trace.collapse = w.trace.collapse := (congrArg World.trace h :)
    rw [← Trace.acts_collapse w'.trace, htrace, Trace.acts_collapse]
  trace := (congrArg World.trace h :)

/-- Of the targets that a call lists, the first one of each reference counts. The others make
no difference: all goes as if they were not listed, in whatever order the moves come, and in
the order of a round. -/
theorem repeated_targets_ignored (targets : List T) :
    (distinctTargets targets).Sublist targets ∧
    ((distinctTargets targets).map reference).Nodup ∧
    (∀ r, (distinctTargets targets).filter (fun t => reference t = r) =
      (targets.find? fun t => reference t = r).toList) ∧
    distinctTargets (distinctTargets targets) = distinctTargets targets ∧
    ∀ env : Collaborators C T, env.IgnoresRepetition →
    ∀ (w : World C T) (before after : List (Request C T)) (q : Request C T),
      let listed := before ++ { q with targets } :: after
      let distinct := before ++ { q with targets := distinctTargets targets } :: after
      (∀ ms, (w.play env (.submit listed :: ms)).SameCourse
        (w.play env (.submit distinct :: ms))) ∧
      ∀ patience, (w.round env patience listed).SameCourse (w.round env patience distinct) := by
  refine ⟨distinctBy_sublist .., nodup_map_distinctBy .., filter_distinctTargets targets,
    distinctTargets_distinctTargets targets, ?_⟩
  intro env henv w before after q listed distinct
  have hrs : distinct.map Request.collapse = listed.map Request.collapse := by
    simp only [distinct, listed, List.map_append, List.map_cons, Request.collapse,
      distinctTargets_distinctTargets]
  refine ⟨fun ms => sameCourse_of_collapse ?_, fun patience => sameCourse_of_collapse ?_⟩
  · refine play_congr ?_ henv ms
    rw [move, move]
    split
    · exact submit_congr rfl hrs
    · rfl
  · exact round_congr rfl henv patience hrs

/-- One target that has a controller already and one that has none, each listed twice; a
third one is not wanted any more. The schemas are served once a check was answered. -/
theorem repeated_targets_ignored_known :
    let isAnswer : Entry String ResourceReference → Bool := fun e => e.what matches .answered ..
    let env : Collaborators String ResourceReference :=
      { Collaborators.prompt with
        check := fun tr _ _ => ⟨false, some 30, if tr.any isAnswer then .ready else .notYet⟩ }
    let targets : List ResourceReference := [.plain "b", .plain "a", .plain "b", .plain "a"]
    let w : World String ResourceReference :=
      (ofActivators [("widgets", .default)]).round env 0 [.plain 0 "v1" ["b", "c"]]
    let q := Request.plain 0 "v2" []
    let listed := w.round env 0 [{ q with targets }]
    let distinct := w.round env 0 [{ q with targets := distinctTargets targets }]
    env.IgnoresRepetition ∧ distinct.trace ≠ listed.trace ∧ listed.results = [some (.ok, 290)] ∧
      listed.SameCourse distinct := by
  intro isAnswer env targets w q listed distinct
  have hanswer : ∀ tr, (Trace.collapse tr).any isAnswer = tr.any isAnswer := by
    intro tr
    rw [Trace.collapse, List.any_map, List.any_filter]
    refine congrArg tr.any (funext fun e => ?_)
    obtain ⟨time, scope, what⟩ := e
    cases what <;> rfl
  have henv : env.IgnoresRepetition :=
    ⟨fun tr _ _ => by simp only [env, hanswer], fun _ _ _ _ _ => rfl⟩
  refine ⟨henv, by decide +kernel, by decide +kernel, ?_⟩
  obtain ⟨-, -, -, -, hsame⟩ := repeated_targets_ignored (C := String) targets
  exact (hsame env henv w [] [] q).2 0

end World

end Calls

end Lifecycle
