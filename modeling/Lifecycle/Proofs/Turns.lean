import Lifecycle.Proofs.Convergence
import Lifecycle.Proofs.Protocol

/-!
# Calls on one activator take turns

The trace of an activator is that of its calls, one after another in the order
in which their turns came: `Taken.split`. Nothing of a call is before its turn,
and nothing of it is after the turn of the next one.

A step that notes something notes it for one call, and that call is at work when
the step is over, or ends with it. So it is the last one that had its turn, and
what the step adds to the trace it adds to the end of the last piece. The order
of turns is not in the world; `turns` reads it off a run.
-/

namespace Lifecycle

variable {C T : Type}

/-- What was noted for the calls of an activator, in the order of time. -/
def Trace.ofActivator (t : Trace C T) (k : Nat) : List (Entry C T) :=
  t.reverse.filter fun e => e.scope.any (·.activator = k)

/-- What was noted for a call, in the order of time. -/
def Trace.ofCall (t : Trace C T) (i : Nat) : List (Entry C T) :=
  t.reverse.filter fun e => e.scope.any (·.call = i)

/-- The entries that say something of some kind. -/
def Trace.only (p : Happening C T → Bool) (t : Trace C T) : Trace C T := t.filter fun e => p e.what

theorem Trace.ofActivator_append (t t' : Trace C T) (k : Nat) :
    Trace.ofActivator (t' ++ t) k = Trace.ofActivator t k ++ Trace.ofActivator t' k := by
  simp [ofActivator]

theorem Trace.ofCall_append (t t' : Trace C T) (i : Nat) :
    Trace.ofCall (t' ++ t) i = Trace.ofCall t i ++ Trace.ofCall t' i := by
  simp [ofCall]

/-- Entries of one scope are picked out by it all together, or none of them is. -/
theorem Trace.filter_of_scope {t : Trace C T} {x : Option (Scope C)}
    (h : ∀ e ∈ t, e.scope = x) (p : Scope C → Bool) :
    t.reverse.filter (fun e => e.scope.any p) = if x.any p then t.reverse else [] := by
  have hmem : ∀ e ∈ t.reverse, e.scope = x := fun e he => h e (List.mem_reverse.1 he)
  split
  · next hx => exact List.filter_eq_self.2 fun e he => by rw [hmem e he]; exact hx
  · next hx => exact List.filter_eq_nil_iff.2 fun e he => by rw [hmem e he]; exact hx

theorem Trace.ofActivator_of_scope {t : Trace C T} {x : Option (Scope C)}
    (h : ∀ e ∈ t, e.scope = x) (k : Nat) :
    Trace.ofActivator t k = if x.any (·.activator = k) then t.reverse else [] :=
  filter_of_scope h _

theorem Trace.ofCall_of_scope {t : Trace C T} {x : Option (Scope C)}
    (h : ∀ e ∈ t, e.scope = x) (i : Nat) :
    Trace.ofCall t i = if x.any (·.call = i) then t.reverse else [] :=
  filter_of_scope h _

/-- Freeing a name is noted as what it is. -/
theorem Trace.only_release {p : Happening C T → Bool}
    (hloop : ∀ c r, p (.loop (.aborted c) r) = false)
    (hreleased : ∀ r c, p (.released r c) = false) (x : Context C) (r : ResourceReference)
    (c : String) (free : Bool) (s : Site C T) :
    Trace.only p (Attempt.release x r c free s).trace = Trace.only p s.trace := by
  rcases Attempt.release_cases x r c free s with h | ⟨g, -, h⟩ <;> rw [h]
  simp [only, Site.note, hloop, hreleased]

/-! ## What a step notes

Stores change by what is noted at the same instant, and by nothing else, so the
trace of an activator has its store. -/

/-- What a happening makes of the store of its activator. -/
def Store.after (s : Store) : Happening C T → Store
  | .installed r c => s.install r c
  | .updated r _ _ => s.activate r
  | .deactivated r _ => s.adjust r fun h => { h with active := false }
  | _ => s

/-- What entries make of a store, the latest entry first. -/
def Trace.storeAfter (t : Trace C T) (s : Store) : Store := t.foldr (fun e s => s.after e.what) s

theorem Trace.storeAfter_append (t t' : Trace C T) (s : Store) :
    Trace.storeAfter (t' ++ t) s = Trace.storeAfter t' (Trace.storeAfter t s) := List.foldr_append

/-- Making holdings inactive reference by reference. -/
theorem foldl_adjust (rs : List ResourceReference) (s : Store) :
    rs.foldl (fun s r => s.adjust r fun h => { h with active := false }) s =
      s.map fun h => if h.reference ∈ rs then { h with active := false } else h := by
  induction rs generalizing s with
  | nil => simp
  | cons r rs ih =>
      rw [List.foldl_cons, ih, Store.adjust, List.map_map]
      refine List.map_congr_left fun h _ => ?_
      dsimp only [Function.comp_apply]
      by_cases hr : h.reference = r
      · simp [hr]
      · simp [hr]

/-- Retiring a store is switching off its stale holdings one after another. -/
theorem Store.retire_eq (s : Store) (wanted : List ResourceReference) :
    s.retire wanted = ((s.stale wanted).map Holding.reference).foldl
      (fun s r => s.adjust r fun h => { h with active := false }) s := by
  rw [foldl_adjust, retire]
  refine List.map_congr_left fun h hh => ?_
  by_cases hw : h.reference ∈ wanted
  · have hn : h.reference ∉ (s.stale wanted).map Holding.reference := by
      intro hm
      obtain ⟨h', hs, hr⟩ := List.mem_map.1 hm
      have hu := (List.mem_filter.1 hs).2
      simp [hr, hw] at hu
    rw [if_pos hw, if_neg hn]
  · rw [if_neg hw]
    cases ha : h.active with
    | true =>
        have hm : h.reference ∈ (s.stale wanted).map Holding.reference :=
          List.mem_map_of_mem (List.mem_filter.2 ⟨hh, by simp [ha, hw]⟩)
        rw [if_pos hm]
    | false =>
        have hsame : { h with active := false } = h := by rw [← ha]
        rw [hsame, ite_self]

/-- All that was noted between two sites was noted for one call, and changed the
store as it did. -/
def Site.Noted (x : Context C) (s s' : Site C T) : Prop :=
  ∃ new, s'.trace = new ++ s.trace ∧ (∀ e ∈ new, e.scope = some x.scope) ∧
    s'.store = Trace.storeAfter new s.store

namespace Site.Noted

variable {x : Context C} {s s' s'' : Site C T}

theorem of_eq (ht : s'.trace = s.trace) (hs : s'.store = s.store) : s.Noted x s' :=
  ⟨[], ht, by simp, hs⟩

theorem note {h : Happening C T} (ht : s'.trace = ⟨s.now, some x.scope, h⟩ :: s.trace)
    (hs : s'.store = s.store.after h) : s.Noted x s' := ⟨[_], ht, by simp, hs⟩

theorem trans (h : s.Noted x s') (h' : s'.Noted x s'') : s.Noted x s'' := by
  obtain ⟨new, ht, hnew, hs⟩ := h
  obtain ⟨new', ht', hnew', hs'⟩ := h'
  refine ⟨new' ++ new, by rw [ht', ht, List.append_assoc],
    List.forall_mem_append.2 ⟨hnew', hnew⟩, ?_⟩
  rw [hs', hs, Trace.storeAfter_append]

theorem release (r : ResourceReference) (c : String) (free : Bool) :
    s.Noted x (Attempt.release x r c free s) := by
  rcases Attempt.release_cases x r c free s with h | ⟨g, -, h⟩ <;> rw [h]
  · exact of_eq rfl rfl
  · have habort : s.Noted x ({ s with registry := g }.note x (.loop (.aborted c) (some r))) :=
      note rfl rfl
    exact habort.trans (note rfl rfl)

end Site.Noted

variable [Targeted T]

theorem Attempt.Step.noted {env : Collaborators C T} {x : Context C} {p q : Attempt T × Site C T}
    (h : Attempt.Step env x p q) : p.2.Noted x q.2 := by
  have hnote : ∀ (s : Site C T) (h : Happening C T), s.store.after h = s.store →
      s.Noted x (s.note x h) := fun s h hs => .note rfl hs.symm
  cases h with
  | draw | wait | ask | giveUp => exact .of_eq rfl rfl
  | unaskable | expire | miss => exact hnote _ _ rfl
  | update | probe => exact .note rfl rfl
  | fail => exact (hnote _ _ rfl).trans (hnote _ _ rfl)
  | create _ _ _ _ _ _ hs =>
      subst hs
      exact ((hnote _ _ rfl).trans (hnote _ _ rfl)).trans (hnote _ _ rfl)
  | register _ hs =>
      cases hs with
      | refused | cancel | wake => exact .of_eq rfl rfl
      | spawn | spawnOr | synced => exact .note rfl rfl
  | install => exact (hnote _ (.returned _ _ none false) rfl).trans (.note rfl rfl)
  | refuse => exact ((hnote _ _ rfl).trans (.release ..)).trans (hnote _ _ rfl)
  | revoke => exact (hnote _ _ rfl).trans (.release ..)

namespace World

omit [Targeted T] in
theorem exists_of_modify {w w' : World C T} {l : Nat} {f : Activator → Activator}
    (h : w'.activators = w.activators.modify l f) {k : Nat} {a' : Activator}
    (ha : w'.activators[k]? = some a') :
    ∃ a, w.activators[k]? = some a ∧ a' = if l = k then f a else a := by
  rw [h, List.getElem?_modify] at ha
  obtain ⟨a, hk, rfl⟩ := Option.map_eq_some_iff.1 ha
  refine ⟨a, hk, ?_⟩
  split <;> rfl

/-- What a step has noted, for one call or for none. -/
structure Noted (m : Move C T) (w w' : World C T) (new : Trace C T) (x : Option (Scope C)) :
    Prop where
  trace : w'.trace = new ++ w.trace
  scope : ∀ e ∈ new, e.scope = x
  /-- The call begins, is at work or ends with the step. -/
  call : ∀ y ∈ x, ∃ c a, w.find? y.call = some (c, a) ∧ c.activator = y.activator ∧
    (m = .begin y.call ∨ ∃ as, c.stage = .working as)
  store : ∀ k a', w'.activators[k]? = some a' → ∃ a, w.activators[k]? = some a ∧
    a'.store = if x.any (·.activator = k) then Trace.storeAfter new a.store else a.store

omit [Targeted T] in
/-- A step that changes no store. -/
theorem Noted.of_queue {m : Move C T} {w w' : World C T} {new : Trace C T} {x : Option (Scope C)}
    (ht : w'.trace = new ++ w.trace) (hx : ∀ e ∈ new, e.scope = x)
    (hc : ∀ y ∈ x, ∃ c a, w.find? y.call = some (c, a) ∧ c.activator = y.activator ∧
      (m = .begin y.call ∨ ∃ as, c.stage = .working as))
    (hs : ∀ s, Trace.storeAfter new s = s) {l : Nat} {f : Activator → Activator}
    (ha : w'.activators = w.activators.modify l f) (hf : ∀ a, (f a).store = a.store) :
    Noted m w w' new x := by
  refine ⟨ht, hx, hc, fun k a' hk' => ?_⟩
  obtain ⟨a, hk, rfl⟩ := exists_of_modify ha hk'
  refine ⟨a, hk, ?_⟩
  rw [hs, ite_self]
  split
  · exact hf a
  · rfl

omit [Targeted T] in
/-- A step that does something to the site of one call. -/
theorem Noted.of_site {m : Move C T} {w w' : World C T} {i : Nat} {c : Call C T} {a : Activator}
    (hf : w.find? i = some (c, a)) (hm : m = .begin i ∨ ∃ as, c.stage = .working as)
    {s : Site C T} (hs : (w.site a).Noted (context a i c) s) (ht : w'.trace = s.trace)
    (ha : w'.activators = w.activators.modify c.activator fun a => { a with store := s.store }) :
    ∃ new x, Noted m w w' new x := by
  obtain ⟨new, hnew, hscope, hstore⟩ := hs
  refine ⟨new, some (context a i c).scope, ht.trans hnew, hscope, ?_, fun k a' hk' => ?_⟩
  · rintro _ ⟨⟩
    exact ⟨c, a, hf, rfl, hm⟩
  · obtain ⟨b, hk, rfl⟩ := exists_of_modify ha hk'
    refine ⟨b, hk, ?_⟩
    by_cases hck : c.activator = k
    · rw [← hck, (find?_eq_some.1 hf).2] at hk
      cases hk
      simp [context, hck, hstore, World.site]
    · simp [context, hck]

theorem beginWork_noted (x : Context C) (targets : List T) (s : Site C T) :
    s.Noted x (beginWork x targets s).2 := by
  rw [beginWork_eq]
  refine ⟨_, (List.append_assoc ..).symm, fun e he => ?_, ?_⟩
  · rcases List.mem_append.1 he with he | he <;>
    · obtain ⟨_, -, rfl⟩ := List.mem_map.1 (List.mem_reverse.1 he)
      rfl
  · have hrep : ∀ (rs : List ResourceReference) (st : Store), Trace.storeAfter
        (rs.map fun r => (⟨s.now, some x.scope, .repeated r⟩ : Entry C T)).reverse st = st := by
      intro rs st
      simp only [Trace.storeAfter, List.foldr_reverse, List.foldl_map, Store.after]
      exact List.foldl_fixed rs
    rw [Trace.storeAfter_append, hrep, Store.retire_eq, List.foldl_map, Trace.storeAfter,
      List.foldr_reverse, List.foldl_map]
    rfl

/-- A step notes what it notes for the call that begins, is at work or ends with
it, or for no call. -/
theorem Step.noted {env : Collaborators C T} {m : Move C T} {w w' : World C T}
    (h : Step env m w w') : ∃ new x, Noted m w w' new x := by
  have hback := h.background
  cases h with
  | submit | cancel =>
      refine ⟨[], none, .of_queue rfl (by simp) nofun (fun _ => rfl) (l := 0) (f := id) ?_
        fun _ => rfl⟩
      exact (List.modify_id ..).symm
  | join | drop =>
      exact ⟨[], none, .of_queue rfl (by simp) nofun (fun _ => rfl) rfl fun _ => rfl⟩
  | begin hf => exact Noted.of_site hf (.inl rfl) (beginWork_noted ..) rfl rfl
  | look hf hs _ hp => exact Noted.of_site hf (.inr ⟨_, hs⟩) hp.noted rfl rfl
  | @close _ i c a as hf hs hd =>
      unfold closed
      dsimp only
      split
      · exact ⟨[], none, .of_queue rfl (by simp) nofun (fun _ => rfl) rfl fun _ => rfl⟩
      · refine ⟨[_], some (context a i c).scope, .of_queue rfl (by simp) ?_ (fun _ => rfl) rfl
          fun _ => rfl⟩
        rintro _ ⟨⟩
        exact ⟨c, a, hf, rfl, .inr ⟨as, hs⟩⟩
  | _ =>
      obtain ⟨-, ha, ns, ht⟩ := hback rfl
      refine ⟨_, none, ht, fun e he => ?_, nofun, fun k a' hk => ⟨a', by rw [← ha, hk], rfl⟩⟩
      obtain ⟨n, -, rfl⟩ := List.mem_map.1 he
      rfl

/-- A call that begins notes what it switches off and what it leaves out. -/
theorem only_begun {p : Happening C T → Bool} (hdeactivated : ∀ r n, p (.deactivated r n) = false)
    (hrepeated : ∀ r, p (.repeated r) = false) (w : World C T) (i : Nat) (c : Call C T)
    (a : Activator) : Trace.only p (w.begun i c a).trace = Trace.only p w.trace := by
  rw [begun, beginWork_eq]
  simp [setStage, withSite, Trace.only, List.filter_map, Function.comp_def, hdeactivated,
    hrepeated, World.site]

/-- Outside the beginning of a call and the looks at its attempts little is noted. -/
theorem Step.only_eq {env : Collaborators C T} {m : Move C T} {w w' : World C T}
    (h : Step env m w w') {p : Happening C T → Bool} (hloop : ∀ n, p (.loop n none) = false)
    (hfailed : ∀ n, p (.callFailed n) = false) (hbegin : ∀ i, m ≠ .begin i)
    (hlook : ∀ i j, m ≠ .look i j) : Trace.only p w'.trace = Trace.only p w.trace := by
  have hback := h.background
  cases h with
  | submit | join | cancel | drop => rfl
  | begin => exact absurd rfl (hbegin _)
  | look => exact absurd rfl (hlook _ _)
  | close =>
      unfold closed
      dsimp only
      split
      · rfl
      · exact List.filter_cons_of_neg (by simp [hfailed])
  | _ =>
      obtain ⟨-, -, ns, ht⟩ := hback rfl
      have hnone : Trace.only p
          (ns.map fun n => (⟨w.now, none, .loop n none⟩ : Entry C T)) = [] := by
        simp [Trace.only, hloop]
      refine (congrArg (Trace.only p) ht).trans ((List.filter_append ..).trans ?_)
      exact (congrArg (· ++ _) hnone).trans (List.nil_append _)

/-! ## The order of turns -/

/-- Whether a call was made on an activator. -/
def isOn (w : World C T) (k i : Nat) : Bool := w.calls[i]?.any (·.activator = k)

/-- The call of an activator whose turn a move brings, with the instant. -/
def turn (k : Nat) (w : World C T) : Move C T → List (Nat × Nat)
  | .begin i => if w.hasTurn i ∧ w.isOn k i then [(i, w.now)] else []
  | _ => []

/-- The calls of an activator that have their turns in a run, in this order, each
with the instant at which its turn comes. -/
def turns (env : Collaborators C T) (k : Nat) : World C T → List (Move C T) → List (Nat × Nat)
  | _, [] => []
  | w, m :: ms => w.turn k m ++ turns env k (w.move env m) ms

omit [Targeted T] in
theorem isOn_iff {w : World C T} {k i : Nat} :
    w.isOn k i ↔ ∃ c, w.calls[i]? = some c ∧ c.activator = k := by
  simp [isOn, Option.any_eq_true]

theorem Step.isOn {env : Collaborators C T} {m : Move C T} {w w' : World C T}
    (h : Step env m w w') {k i : Nat} (hi : w.isOn k i) : w'.isOn k i := by
  obtain ⟨c, hc, hk⟩ := isOn_iff.1 hi
  obtain ⟨c', hc', hl⟩ := h.later hc
  exact isOn_iff.2 ⟨c', hc', hl.activator.trans hk⟩

/-- A call that is at work after a step was at work before, or its turn has come. -/
theorem Step.atWork {env : Collaborators C T} {m : Move C T} {w w' : World C T}
    (h : Step env m w w') (hw : w.Orderly) {k i : Nat} {as : List (Attempt T)}
    (hi : w'.atWork k = some (i, as)) :
    (∃ bs, w.atWork k = some (i, bs)) ∨ m = .begin i ∧ w.isOn k i := by
  -- Who is at work is in every standing, so any reference will do.
  have hcall : (w'.standing k (.plain "")).call = some i := by rw [standing, hi]; rfl
  have hbefore : (w.standing k (.plain "")).call = some i → ∃ bs, w.atWork k = some (i, bs) := by
    intro h
    obtain ⟨⟨j, bs⟩, hbs, rfl⟩ := Option.map_eq_some_iff.1 h
    exact ⟨bs, hbs⟩
  cases h.effect hw k (.plain "") with
  | same heq =>
      rw [heq] at hcall
      exact .inl (hbefore hcall)
  | begin hc _ hk _ heq =>
      rw [heq] at hcall
      cases hcall
      exact .inr ⟨rfl, isOn_iff.2 ⟨_, hc, hk⟩⟩
  | look _ _ _ _ _ _ _ heq heq' =>
      rw [heq'] at hcall
      cases hcall
      exact .inl (hbefore (by rw [heq]))
  | close _ _ heq | drop _ _ _ heq =>
      rw [heq] at hcall
      cases hcall

/-- Some calls of an activator had their turns, in an order. -/
structure Taken (k : Nat) (order : List Nat) (w : World C T) : Prop where
  nodup : order.Nodup
  begun : ∀ i ∈ order, w.isOn k i ∧ w.hasBegun i
  last : ∀ i as, w.atWork k = some (i, as) → order.getLast? = some i
  known : ∀ e ∈ w.trace, ∀ x, e.scope = some x → w.isOn x.activator x.call ∧ w.hasBegun x.call
  split : Trace.ofActivator w.trace k = order.flatMap (Trace.ofCall w.trace)
  store : ∀ a, w.activators[k]? = some a →
    a.store = Trace.storeAfter (Trace.ofActivator w.trace k).reverse []

omit [Targeted T] in
/-- What is noted for the last call of an order goes to the end, and what is noted
for a call that is not in it goes nowhere. -/
theorem flatMap_ofCall_append {order : List Nat} (hn : order.Nodup) {new t : Trace C T}
    {x : Option (Scope C)} (hnew : ∀ e ∈ new, e.scope = x)
    (hx : ∀ y ∈ x, y.call ∈ order → order.getLast? = some y.call) :
    order.flatMap (Trace.ofCall (new ++ t)) = order.flatMap (Trace.ofCall t) ++
      if x.any (·.call ∈ order) then new.reverse else [] := by
  have hpiece : ∀ i, Trace.ofCall (new ++ t) i =
      Trace.ofCall t i ++ if x.any (·.call = i) then new.reverse else [] := by
    intro i
    rw [Trace.ofCall_append, Trace.ofCall_of_scope hnew]
  have hother : ∀ l : List Nat, (∀ y ∈ x, y.call ∉ l) →
      l.flatMap (Trace.ofCall (new ++ t)) = l.flatMap (Trace.ofCall t) := by
    refine fun l hl => List.flatMap_congr fun i hi => ?_
    have hne : ¬ x.any (·.call = i) := by
      rintro h
      obtain ⟨y, hy, hi'⟩ := (Option.any_eq_true ..).1 h
      exact hl y hy (of_decide_eq_true hi' ▸ hi)
    rw [hpiece, if_neg hne, List.append_nil]
  by_cases hin : x.any (·.call ∈ order)
  · obtain ⟨y, rfl, hy⟩ := (Option.any_eq_true ..).1 hin
    obtain ⟨init, rfl⟩ := List.getLast?_eq_some_iff.1 (hx y rfl (of_decide_eq_true hy))
    have hinit : ∀ z ∈ some y, z.call ∉ init := by
      rintro _ ⟨⟩ h
      exact (List.nodup_append.1 hn).2.2 _ h _ (List.mem_singleton_self _) rfl
    rw [List.flatMap_append, List.flatMap_append, hother init hinit, List.append_assoc]
    simp [hpiece]
  · rw [if_neg hin, List.append_nil]
    exact hother order fun y hy h => hin ((Option.any_eq_true ..).2 ⟨y, hy, decide_eq_true h⟩)

omit [Targeted T] in
/-- Nothing is noted for a call before its turn. -/
theorem Taken.ofCall_eq_nil {k : Nat} {order : List Nat} {w : World C T} (h : Taken k order w)
    {i : Nat} (hi : w.hasBegun i = false) : Trace.ofCall w.trace i = [] := by
  refine List.filter_eq_nil_iff.2 fun e he hx => ?_
  obtain ⟨x, hx, hi'⟩ := (Option.any_eq_true ..).1 hx
  have hb := (h.known e (List.mem_reverse.1 he) x hx).2
  rw [of_decide_eq_true hi', hi] at hb
  cases hb

theorem Step.hasBegun_begin {env : Collaborators C T} {w w' : World C T} {i : Nat}
    (h : Step env (.begin i) w w') : w.hasTurn i ∧ w.hasBegun i = false ∧ w'.hasBegun i := by
  cases h with
  | begin hf hs hh =>
      have hc := (find?_eq_some.1 hf).1
      refine ⟨hasTurn_iff.2 ⟨_, _, hf, hs, hh⟩, ?_, ?_⟩
      · simp [World.hasBegun, hc, Call.hasBegun, hs]
      · simp [begun, setStage, withSite, World.hasBegun, hc, Call.hasBegun]

omit [Targeted T] in
theorem turn_eq_nil {k : Nat} {w : World C T} {m : Move C T}
    (h : ∀ i, m = .begin i → w.hasTurn i → w.isOn k i → False) : w.turn k m = [] := by
  unfold turn
  split
  · next i => exact if_neg fun hi => h i rfl hi.1 hi.2
  · rfl

section Taken

variable {env : Collaborators C T} {m : Move C T} {w w' : World C T} {k : Nat} {order : List Nat}

/-- A step notes something only for calls that have begun by then. -/
theorem Noted.hasBegun {new : Trace C T} {x : Option (Scope C)} (hnoted : Noted m w w' new x)
    (h : Step env m w w') : ∀ y ∈ x, w'.isOn y.activator y.call ∧ w'.hasBegun y.call := by
  intro y hy
  obtain ⟨c, a, hf, hk, hc⟩ := hnoted.call y hy
  obtain ⟨hcall, -⟩ := find?_eq_some.1 hf
  refine ⟨h.isOn (isOn_iff.2 ⟨c, hcall, hk⟩), ?_⟩
  rcases hc with rfl | ⟨as, hs⟩
  · exact h.hasBegun_begin.2.2
  · exact h.hasBegun (by simp [World.hasBegun, hcall, Call.hasBegun, hs])

/-- What a step notes goes to the piece of the last call of the order, which may be one that
the step has added. -/
theorem Taken.extend (ht : Taken k order w) (h : Step env m w w') {new : Trace C T}
    {x : Option (Scope C)} (hnoted : Noted m w w' new x) {order' : List Nat}
    (hn : order'.Nodup) (hb : ∀ i ∈ order', w'.isOn k i ∧ w'.hasBegun i)
    (hl : ∀ i as, w'.atWork k = some (i, as) → order'.getLast? = some i)
    (hlast : ∀ y ∈ x, y.activator = k → order'.getLast? = some y.call)
    (hpieces : order'.flatMap (Trace.ofCall w.trace) = order.flatMap (Trace.ofCall w.trace)) :
    Taken k order' w' := by
  have hscope := hnoted.hasBegun h
  obtain ⟨htrace, hnew, -, hstore⟩ := hnoted
  refine ⟨hn, hb, hl, fun e he y hy => ?_, ?_, fun a' ha' => ?_⟩
  · rw [htrace] at he
    rcases List.mem_append.1 he with he | he
    · exact hscope y (by rw [← hnew e he, hy]; rfl)
    · obtain ⟨hon, hb⟩ := ht.known e he y hy
      exact ⟨h.isOn hon, h.hasBegun hb⟩
  · have hiff : ∀ y ∈ x, y.activator = k ↔ y.call ∈ order' := by
      refine fun y hy => ⟨fun hk => List.mem_of_getLast? (hlast y hy hk), fun hm => ?_⟩
      obtain ⟨c, hc, hk⟩ := isOn_iff.1 (hb _ hm).1
      obtain ⟨c', hc', hk'⟩ := isOn_iff.1 (hscope y hy).1
      rw [hc] at hc'
      cases hc'
      rw [← hk', hk]
    rw [htrace, Trace.ofActivator_append, ht.split, Trace.ofActivator_of_scope hnew,
      flatMap_ofCall_append hn hnew fun y hy hm => hlast y hy ((hiff y hy).2 hm), hpieces]
    congr 1
    cases x with
    | none => rfl
    | some y => simp [hiff y rfl]
  · obtain ⟨a, ha, heq⟩ := hstore k a' ha'
    rw [heq, htrace, Trace.ofActivator_append, List.reverse_append, Trace.storeAfter_append,
      ← ht.store a ha, Trace.ofActivator_of_scope hnew]
    split
    · rw [List.reverse_reverse]
    · rfl

theorem taken_step (h : Step env m w w') (hw : w.Orderly) (ht : Taken k order w) :
    Taken k (order ++ (w.turn k m).map Prod.fst) w' := by
  have hkept : ∀ i ∈ order, w'.isOn k i ∧ w'.hasBegun i :=
    fun i hi => ⟨h.isOn (ht.begun i hi).1, h.hasBegun (ht.begun i hi).2⟩
  obtain ⟨new, x, hnoted⟩ := h.noted
  by_cases hm : ∃ i, m = .begin i ∧ w.isOn k i
  · obtain ⟨i, rfl, hi⟩ := hm
    obtain ⟨hturn, hbefore, hafter⟩ := h.hasBegun_begin
    have hout : i ∉ order := by
      intro hm
      have hb := (ht.begun i hm).2
      rw [hbefore] at hb
      cases hb
    have heq : w.turn k (.begin i) = [(i, w.now)] := if_pos ⟨hturn, hi⟩
    rw [heq]
    have hidle : w.atWork k = none := by
      obtain ⟨c, a, hf, hs, hh⟩ := hasTurn_iff.1 hturn
      obtain ⟨c', hc', rfl⟩ := isOn_iff.1 hi
      rw [(find?_eq_some.1 hf).1] at hc'
      cases hc'
      exact atWork_of_queued hw hf hs hh
    have hnodup : (order ++ [i]).Nodup := by simpa using ht.nodup.concat hout
    refine ht.extend h hnoted hnodup ?_ ?_ ?_ ?_
    · exact List.forall_mem_append.2 ⟨hkept, by simpa using ⟨h.isOn hi, hafter⟩⟩
    · intro j as hj
      rcases h.atWork hw hj with ⟨bs, hbs⟩ | ⟨heq, -⟩
      · rw [hidle] at hbs
        cases hbs
      · cases heq
        exact List.getLast?_concat ..
    · intro y hy hk
      obtain ⟨c, a, hf, hc, heq | ⟨as, hs⟩⟩ := hnoted.call y hy
      · cases heq
        exact List.getLast?_concat ..
      · have hwork := (atWork_eq_some_iff hw).2 ⟨c, a, hf, hc.trans hk, hs⟩
        rw [hidle] at hwork
        cases hwork
    · simp [ht.ofCall_eq_nil hbefore]
  · have hturn : w.turn k m = [] := turn_eq_nil fun i hi _ ho => hm ⟨i, hi, ho⟩
    rw [hturn, List.map_nil, List.append_nil]
    have hlast : ∀ i as, w'.atWork k = some (i, as) → order.getLast? = some i := by
      intro i as hi
      rcases h.atWork hw hi with ⟨bs, hbs⟩ | h
      · exact ht.last i bs hbs
      · exact absurd ⟨i, h⟩ hm
    refine ht.extend h hnoted ht.nodup hkept hlast (fun y hy hk => ?_) rfl
    obtain ⟨c, a, hf, hc, hs⟩ := hnoted.call y hy
    rcases hs with rfl | ⟨as, hs⟩
    · exact absurd ⟨_, rfl, isOn_iff.2 ⟨c, (find?_eq_some.1 hf).1, hc.trans hk⟩⟩ hm
    · exact ht.last _ as ((atWork_eq_some_iff hw).2 ⟨c, a, hf, hc.trans hk, hs⟩)

end Taken

omit [Targeted T] in
@[simp] theorem turn_of_not_begin (k : Nat) (w : World C T) {m : Move C T}
    (hm : ∀ i, m ≠ .begin i) : w.turn k m = [] :=
  turn_eq_nil fun i hi => absurd hi (hm i)

theorem begin_eq_self {w : World C T} {i : Nat} (h : w.hasTurn i = false) : w.begin i = w := by
  unfold begin
  unfold hasTurn at h
  cases hf : w.find? i with
  | none => rfl
  | some p =>
      obtain ⟨c, a⟩ := p
      simp only [hf] at h ⊢
      cases hs : c.stage with
      | queued =>
          simp only [hs] at h ⊢
          exact if_neg (by simpa using h)
      | _ => rfl

theorem close_eq_self {w : World C T} {i : Nat} (h : w.isSettled i = false) :
    w.close i = w := by
  unfold isSettled at h
  unfold close
  cases hf : w.find? i with
  | none => rfl
  | some p =>
      obtain ⟨c, a⟩ := p
      simp only [hf] at h ⊢
      cases hs : c.stage with
      | working as =>
          simp only [hs] at h ⊢
          exact if_neg (by simp [h])
      | _ => rfl

/-- What every step keeps of a world and the order of turns so far, a run keeps. -/
theorem invariant_of_turns {env : Collaborators C T} {k : Nat}
    {P : List Nat → World C T → Prop}
    (hstep : ∀ {order m w w'}, Step env m w w' → w.Orderly → P order w →
      P (order ++ (w.turn k m).map Prod.fst) w')
    (ms : List (Move C T)) {w : World C T} (hw : w.Orderly) {order : List Nat}
    (hP : P order w) : P (order ++ (turns env k w ms).map Prod.fst) (w.play env ms) := by
  have hmove : ∀ {w : World C T} {order : List Nat} (m : Move C T), w.Orderly → P order w →
      P (order ++ (w.turn k m).map Prod.fst) (w.move env m) := by
    intro w order m hw hP
    by_cases hm : ∃ i, m = .begin i
    · obtain ⟨i, rfl⟩ := hm
      cases hi : w.hasTurn i with
      | true =>
          obtain ⟨c, a, hf, hs, hh⟩ := hasTurn_iff.1 hi
          have h : Step env (.begin i) w (w.begun i c a) := .begin hf hs hh
          rw [move, begin_eq_begun hf hs hh]
          exact hstep h hw hP
      | false =>
          have hnil : w.turn k (.begin i) = [] := turn_eq_nil fun j hj hturn _ => by
            cases hj
            rw [hi] at hturn
            cases hturn
          rw [hnil, List.map_nil, List.append_nil, move, begin_eq_self hi]
          exact hP
    · have hne : ∀ i, m ≠ .begin i := fun i hi => hm ⟨i, hi⟩
      rw [turn_of_not_begin k w hne, List.map_nil, List.append_nil]
      refine (invariant_of_move (P := fun v => v.Orderly ∧ P order v) (fun {v v'} h hv => ?_)
        ⟨hw, hP⟩).2
      have hv' := hstep h hv.1 hv.2
      rw [turn_of_not_begin k v hne, List.map_nil, List.append_nil] at hv'
      exact ⟨orderly_step h hv.1, hv'⟩
  induction ms generalizing w order with
  | nil => simpa [turns, play] using hP
  | cons m ms ih =>
      have hw' : (w.move env m).Orderly := orderly_play [m] hw
      have h := ih hw' (hmove m hw hP)
      rwa [List.append_assoc, ← List.map_append] at h

theorem taken_play {env : Collaborators C T} {k : Nat} (ms : List (Move C T)) {w : World C T}
    (hw : w.Orderly) {order : List Nat} (ht : Taken k order w) :
    Taken k (order ++ (turns env k w ms).map Prod.fst) (w.play env ms) :=
  invariant_of_turns taken_step ms hw ht

theorem taken_ofActivators (as : List (String × Policy)) (k : Nat) :
    Taken k [] (ofActivators as : World C T) := by
  refine ⟨List.nodup_nil, by simp, fun i bs h => ?_, by simp [ofActivators, start], rfl,
    fun a ha => ?_⟩
  · have hcall : ((ofActivators as : World C T).standing k (.plain "")).call = some i := by
      rw [standing, h]
      rfl
    rw [standing_ofActivators] at hcall
    cases hcall
  · obtain ⟨p, -, rfl⟩ := List.mem_map.1 (List.mem_of_getElem? ha)
    rfl

/-! ## At most one success

What the store has for a reference is what its one success has brought. -/

end World

/-- A word of the protocol has one success if there is a controller, and none
otherwise. -/
theorem Protocol.filter_isSuccess {gv : GroupVersion} {d : Prop} {h? : Option Holding}
    {u : List Act} (h : Protocol gv d h? u) :
    u.filter Act.isSuccess = h?.toList.map fun h => .returned h.controller none false := by
  have hbarren : ∀ {v : List Act}, (∀ a ∈ v, a.isUpkeep = false ∧ a.isSuccess = false) →
      v.filter Act.isSuccess = [] :=
    fun hv => List.filter_eq_nil_iff.2 fun a ha => by simp [(hv a ha).2]
  cases h with
  | unknown h => exact hbarren h.barren
  | @known u v m h hu hv hm =>
      have hm' : m.filter Act.isSuccess = [] := by
        generalize h.active = b at hm
        induction hm with
        | nil => rfl
        | update _ ih | deactivate _ ih => simp [ih, Act.isSuccess]
      simp only [List.filter_append, hbarren hu.barren, hbarren hv.barren,
        hbarren (barren_admitted gv h.controller), hm']
      rfl

/-- What an attempt does before it is done is no success. -/
theorem Stage.Doing.barren {gv : GroupVersion} {h? : Option Holding} {u : List Act} {st : Stage}
    (h : st.Doing gv h? u) : ∀ a ∈ u, a.isUpkeep = false ∧ a.isSuccess = false := by
  cases st with
  | fresh | done =>
      cases h
      simp
  | waiting w => exact (h.failed_waiting (d := False)).2.barren
  | registering c free rest since =>
      obtain ⟨-, v, hv, rfl⟩ := h
      exact List.forall_mem_append.2 ⟨hv.barren, barren_admitted gv c⟩

namespace World

/-- The successes for a reference are that of the controller that the store has. -/
theorem Reachable.filter_isSuccess {env : Collaborators C T} {as : List (String × Policy)}
    {w : World C T} (hw : Reachable env as w) (k : Nat) (r : ResourceReference) :
    ((Trace.acts w.trace k r).map Prod.snd).filter Act.isSuccess =
      (w.holding? k r).toList.map fun h => .returned h.controller none false := by
  obtain ⟨past, now, hacts, hp, hd⟩ := hw.follows k r
  have hnow : now.filter Act.isSuccess = [] := by
    refine List.filter_eq_nil_iff.2 fun a ha => ?_
    cases hu : (w.standing k r).attempt with
    | none =>
        rw [hu] at hd
        rw [hd] at ha
        cases ha
    | some t =>
        rw [hu] at hd
        simp [(hd.barren a ha).2]
  have hacts : (Trace.acts w.trace k r).map Prod.snd = past ++ now := hacts
  rw [hacts, List.filter_append, hnow, List.append_nil]
  exact hp.filter_isSuccess

end World

end Lifecycle
