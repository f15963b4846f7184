import Lifecycle.Proofs.Queues

/-!
# Calls come to the same one after another

However many calls on an activator overlap, and however their moves are mixed,
they come to the same as if each of them had been made at the instant at which
its turn came: `calls_one_by_one`. So there is never anything to be explained
about two calls at once.

The proof turns one run into the other move by move. `World.outside` is the world
in which the calls that wait have not come yet, and `move_outside` says that a
move makes of it what the same move makes of the world with the waiting calls in
it; only joining is left out, and made up for when the turn comes. What has to be
known for that is who stands in a queue: the call whose turn comes finds nobody
before it outside, and a call of another activator is in no queue of this one.
-/

namespace Lifecycle

variable {C T : Type}

/-! ## Calls that wait outside -/

/-- The stage of a call that waits for its turn, as if it had not come yet. -/
def CallStage.outside : CallStage T → CallStage T
  | .queued => .fresh
  | st => st

namespace World

/-- The world in which the calls on an activator that wait for their turns have not
come yet. -/
def outside (k : Nat) (w : World C T) : World C T :=
  { w with
    calls := w.calls.map fun c =>
      { c with stage := if c.activator = k then c.stage.outside else c.stage },
    activators := w.activators.modify k fun a => { a with queue := a.queue.filter w.hasBegun } }

theorem find?_outside (k : Nat) (w : World C T) (i : Nat) :
    (w.outside k).find? i = (w.find? i).map fun (c, a) =>
      ({ c with stage := if c.activator = k then c.stage.outside else c.stage },
        { a with queue := if c.activator = k then a.queue.filter w.hasBegun else a.queue }) := by
  simp only [find?, outside, List.getElem?_map, List.getElem?_modify]
  cases w.calls[i]? with
  | none => rfl
  | some c =>
      cases h : w.activators[c.activator]? with
      | none => simp [h]
      | some a =>
          by_cases hk : c.activator = k
          · subst hk
            simp [h]
          · simp [h, hk, Ne.symm hk]

theorem outside_withSite (k : Nat) (w : World C T) (l : Nat) (s : Site C T) :
    (w.withSite l s).outside k = (w.outside k).withSite l s := by
  have hact := modify_comm (f := fun a : Activator => { a with store := s.store })
    (g := fun a => { a with queue := a.queue.filter w.hasBegun }) (fun _ => rfl) w.activators l k
  simp only [outside, withSite]
  rw [← hact]
  rfl

theorem hasBegun_setStage_of_ne {w : World C T} {i j : Nat} {st : CallStage T} (h : j ≠ i) :
    (w.setStage i st).hasBegun j = w.hasBegun j := by
  simp [hasBegun, setStage, Ne.symm h]

theorem hasBegun_setStage {w : World C T} {i : Nat} {st : CallStage T} {c : Call C T}
    (hc : w.calls[i]? = some c) :
    (w.setStage i st).hasBegun i = ({ c with stage := st } : Call C T).hasBegun := by
  simp [hasBegun, setStage, hc]

theorem outside_setStage {k : Nat} {w : World C T} {i : Nat} {st : CallStage T}
    (hst : w.isOn k i → st.outside = st)
    (hb : ∀ a, w.activators[k]? = some a → i ∈ a.queue →
      (w.setStage i st).hasBegun i = w.hasBegun i) :
    (w.setStage i st).outside k = (w.outside k).setStage i st := by
  have hcalls : (w.calls.modify i fun c => { c with stage := st }).map (fun c =>
        { c with stage := if c.activator = k then c.stage.outside else c.stage }) =
      (w.calls.map fun c =>
        { c with stage := if c.activator = k then c.stage.outside else c.stage }).modify i
          fun c => { c with stage := st } := by
    refine List.ext_getElem? fun j => ?_
    simp only [List.getElem?_map, List.getElem?_modify]
    cases hc : w.calls[j]? with
    | none => rfl
    | some c =>
        by_cases hij : i = j
        · subst hij
          by_cases hk : c.activator = k
          · simp [hk, hst (isOn_iff.2 ⟨c, hc, hk⟩)]
          · simp [hk]
        · simp [hij]
  have hact : (w.activators.modify k fun a =>
        { a with queue := a.queue.filter (w.setStage i st).hasBegun }) =
      w.activators.modify k fun a => { a with queue := a.queue.filter w.hasBegun } := by
    refine List.ext_getElem? fun l => ?_
    simp only [List.getElem?_modify]
    by_cases hl : k = l
    · subst hl
      cases ha : w.activators[k]? with
      | none => rfl
      | some a =>
          have hq : a.queue.filter (w.setStage i st).hasBegun = a.queue.filter w.hasBegun := by
            refine List.filter_congr fun j hj => ?_
            by_cases hij : j = i
            · subst hij
              exact hb a ha hj
            · exact hasBegun_setStage_of_ne hij
          simp [hq]
    · simp [hl]
  simp only [outside, setStage] at hact ⊢
  rw [hcalls, hact]

theorem outside_setQueue {k : Nat} {w : World C T} {l : Nat} {f : List Nat → List Nat}
    (hf : l = k → ∀ a, w.activators[k]? = some a →
      (f a.queue).filter w.hasBegun = f (a.queue.filter w.hasBegun)) :
    (w.setQueue l f).outside k = (w.outside k).setQueue l f := by
  have hact : ((w.activators.modify l fun a => { a with queue := f a.queue }).modify k fun a =>
        { a with queue := a.queue.filter w.hasBegun }) =
      (w.activators.modify k fun a => { a with queue := a.queue.filter w.hasBegun }).modify l
        fun a => { a with queue := f a.queue } := by
    refine List.ext_getElem? fun n => ?_
    simp only [List.getElem?_modify]
    cases ha : w.activators[n]? with
    | none => rfl
    | some a =>
        by_cases hk : k = n
        · subst hk
          by_cases hl : l = k
          · simp [hl, hf hl a ha]
          · simp [hl]
        · simp [hk]
  simp only [outside, setQueue]
  rw [← hact]
  rfl

variable [Targeted T]

theorem look_outside (env : Collaborators C T) (k : Nat) (w : World C T) (i j : Nat) :
    (w.outside k).look env i j = (w.look env i j).outside k := by
  rw [look, look, find?_outside]
  cases hf : w.find? i with
  | none => rfl
  | some p =>
      obtain ⟨c, a⟩ := p
      have hc := (find?_eq_some.1 hf).1
      dsimp only [Option.map_some]
      cases hs : c.stage with
      | working as =>
          have hst : (if c.activator = k then (CallStage.working as).outside
              else CallStage.working as) = .working as := ite_self _
          simp only [hst]
          cases ht : as[j]? with
          | none => rfl
          | some t =>
              refine Eq.trans ?_ (outside_withSite k (w.setStage i _) c.activator _).symm
              rw [outside_setStage (fun _ => rfl)]
              · rfl
              · intro b _ _
                rw [hasBegun_setStage hc]
                simp [hasBegun, hc, Call.hasBegun, hs]
      | _ => by_cases hk : c.activator = k <;> simp [hk, CallStage.outside]

omit [Targeted T] in
theorem join_outside_of_ne {k : Nat} {w : World C T} (hw : w.InLine) {i : Nat}
    (hi : ¬ w.isOn k i) : (w.outside k).join i = (w.join i).outside k := by
  rw [join, join, find?_outside]
  cases hf : w.find? i with
  | none => rfl
  | some p =>
      obtain ⟨c, a⟩ := p
      have hk : c.activator ≠ k := fun hk => hi (isOn_iff.2 ⟨c, (find?_eq_some.1 hf).1, hk⟩)
      dsimp only [Option.map_some]
      simp only [if_neg hk]
      cases hs : c.stage with
      | fresh =>
          refine Eq.trans ?_ (outside_setQueue (w := w.setStage i .queued) (f := (· ++ [i]))
            fun h => absurd h hk).symm
          rw [outside_setStage (fun h => absurd h hi) fun b hb hib => absurd (hw.inLine k b hb i hib).1 hi]
          rfl
      | _ => rfl

omit [Targeted T] in
theorem join_outside {k : Nat} {w : World C T} {i : Nat} (hi : w.isOn k i) :
    (w.join i).outside k = w.outside k := by
  rw [join]
  cases hf : w.find? i with
  | none => rfl
  | some p =>
      obtain ⟨c, a⟩ := p
      obtain ⟨hc, ha⟩ := find?_eq_some.1 hf
      dsimp only
      cases hs : c.stage with
      | fresh =>
          obtain ⟨c', hc', hk⟩ := isOn_iff.1 hi
          rw [hc] at hc'
          cases hc'
          have hb : ((w.setQueue c.activator (· ++ [i])).setStage i .queued).hasBegun = w.hasBegun := by
            funext j
            by_cases hj : j = i
            · subst hj
              simp [hasBegun, setStage, setQueue, hc, Call.hasBegun, hs]
            · exact hasBegun_setStage_of_ne hj
          have hi' : w.hasBegun i = false := by simp [hasBegun, hc, Call.hasBegun, hs]
          have hcalls : ((w.calls.modify i fun c => { c with stage := .queued }).map fun c =>
              { c with stage := if c.activator = k then c.stage.outside else c.stage }) =
              w.calls.map fun c =>
                { c with stage := if c.activator = k then c.stage.outside else c.stage } := by
            refine List.ext_getElem? fun j => ?_
            simp only [List.getElem?_map, List.getElem?_modify]
            by_cases hj : i = j
            · subst hj
              simp [hc, hk, hs, CallStage.outside]
            · simp [hj]
          subst hk
          simp only [outside, hb]
          simp only [setQueue, setStage, hcalls, List.modify_modify_eq]
          congr 1
          refine congrArg (w.activators.modify c.activator) (funext fun b => ?_)
          simp [hi']
      | _ => rfl

theorem begin_outside_of_ne {k : Nat} {w : World C T} (hw : w.InLine) {i : Nat}
    (hi : ¬ w.isOn k i) : (w.outside k).begin i = (w.begin i).outside k := by
  rw [begin, begin, find?_outside]
  cases hf : w.find? i with
  | none => rfl
  | some p =>
      obtain ⟨c, a⟩ := p
      have hk : c.activator ≠ k := fun hk => hi (isOn_iff.2 ⟨c, (find?_eq_some.1 hf).1, hk⟩)
      dsimp only [Option.map_some]
      simp only [if_neg hk]
      cases hs : c.stage with
      | queued =>
          dsimp only
          split
          · refine Eq.trans ?_ (outside_withSite k (w.setStage i _) c.activator _).symm
            rw [outside_setStage (fun h => absurd h hi) fun b hb hib => absurd (hw.inLine k b hb i hib).1 hi]
            rfl
          · rfl
      | _ => rfl

/-- Nobody has begun in a queue whose first call waits. -/
theorem filter_hasBegun_eq_nil {w : World C T} (ho : w.Orderly) (hw : w.InLine) {i : Nat}
    {c : Call C T} {a : Activator} (hf : w.find? i = some (c, a)) (hs : c.stage = .queued)
    (hh : a.queue.head? = some i) : a.queue.filter w.hasBegun = [] := by
  obtain ⟨hc, ha⟩ := find?_eq_some.1 hf
  refine List.filter_eq_nil_iff.2 fun j hj hb => ?_
  obtain ⟨hon, hin⟩ := hw.inLine _ a ha j hj
  obtain ⟨d, hd, hk⟩ := isOn_iff.1 hon
  obtain ⟨d', hd', hin⟩ := isInLine_iff.1 hin
  rw [hd] at hd'
  cases hd'
  cases hsd : d.stage with
  | working bs =>
      have hhead := ho.inTurn j d a bs (find?_eq_some.2 ⟨hd, hk ▸ ha⟩) hsd
      rw [hh] at hhead
      cases hhead
      rw [hc] at hd
      cases hd
      rw [hs] at hsd
      cases hsd
  | fresh | queued => simp [hasBegun, hd, Call.hasBegun, hsd] at hb
  | ended | dropped => simp [Call.isInLine, hsd] at hin

/-- When the first call in a queue has begun, it is the only one there that has. -/
theorem filter_hasBegun_begun {w : World C T} (ho : w.Orderly) (hw : w.InLine) {i : Nat}
    {c : Call C T} {a : Activator} (hf : w.find? i = some (c, a)) (hs : c.stage = .queued)
    (hh : a.queue.head? = some i) : a.queue.filter (w.begun i c a).hasBegun = [i] := by
  obtain ⟨hc, ha⟩ := find?_eq_some.1 hf
  have hnil := filter_hasBegun_eq_nil ho hw hf hs hh
  have hnd := hw.nodup a (List.mem_of_getElem? ha)
  cases hq : a.queue with
  | nil => simp [hq] at hh
  | cons j rest =>
      rw [hq] at hh hnil hnd
      cases hh
      have hi : (w.begun i c a).hasBegun i := by
        simp [begun, hasBegun, setStage, withSite, hc, Call.hasBegun]
      have hrest : rest.filter (w.begun i c a).hasBegun = rest.filter w.hasBegun := by
        refine List.filter_congr fun j hj => ?_
        have hne : j ≠ i := fun h => (List.nodup_cons.1 hnd).1 (h ▸ hj)
        simp [begun, hasBegun, setStage, withSite, hne.symm]
      have hrest' : rest.filter w.hasBegun = [] :=
        List.filter_eq_nil_iff.2 fun j hj => List.filter_eq_nil_iff.1 hnil j (.tail i hj)
      rw [List.filter_cons_of_pos hi, hrest, hrest']

/-- The world in which a call has come, and its turn too. -/
theorem find?_join_outside {k : Nat} {w : World C T} (ho : w.Orderly) (hw : w.InLine) {i : Nat}
    (hi : w.isOn k i) (ht : w.hasTurn i) : ∃ c a, c.activator = k ∧
      w.find? i = some (c, a) ∧ c.stage = .queued ∧ a.queue.head? = some i ∧
      (w.outside k).join i = ((w.outside k).setQueue k (· ++ [i])).setStage i .queued ∧
      ((w.outside k).join i).find? i = some (c, { a with queue := [i] }) := by
  obtain ⟨c, a, hf, hs, hh⟩ := hasTurn_iff.1 ht
  obtain ⟨hc, -⟩ := find?_eq_some.1 hf
  obtain ⟨c', hc', hk⟩ := isOn_iff.1 hi
  rw [hc] at hc'
  cases hc'
  subst hk
  have hnil := filter_hasBegun_eq_nil ho hw hf hs hh
  have hfo : (w.outside c.activator).find? i =
      some ({ c with stage := .fresh }, { a with queue := [] }) := by
    rw [find?_outside, hf]
    simp [hs, hnil, CallStage.outside]
  have hjoin : (w.outside c.activator).join i =
      ((w.outside c.activator).setQueue c.activator (· ++ [i])).setStage i .queued := by
    simp [join, hfo]
  refine ⟨c, a, rfl, hf, hs, hh, hjoin, ?_⟩
  rw [hjoin, find?_setStage, find?_setQueue, hfo]
  simp [← hs]

/-- A call that begins as soon as it has come begins as one that has waited. -/
theorem begin_outside {k : Nat} {w : World C T} (ho : w.Orderly) (hw : w.InLine) {i : Nat}
    (hi : w.isOn k i) (ht : w.hasTurn i) :
    ((w.outside k).join i).begin i = (w.begin i).outside k := by
  obtain ⟨c, a, rfl, hf, hs, hh, hjoin, hfj⟩ := find?_join_outside ho hw hi ht
  obtain ⟨hc, ha⟩ := find?_eq_some.1 hf
  have hnil := filter_hasBegun_eq_nil ho hw hf hs hh
  have hqueue := filter_hasBegun_begun ho hw hf hs hh
  rw [begin_eq_begun hfj hs rfl, begin_eq_begun hf hs hh, hjoin]
  have hact : ((w.activators.modify c.activator fun b =>
        { b with queue := b.queue.filter w.hasBegun }).modify c.activator fun b =>
          { b with queue := b.queue ++ [i] }) =
      w.activators.modify c.activator fun b =>
        { b with queue := b.queue.filter (w.begun i c a).hasBegun } := by
    refine List.ext_getElem? fun l => ?_
    simp only [List.getElem?_modify]
    by_cases hl : c.activator = l
    · subst hl
      simp [ha, hnil, hqueue]
    · simp [hl]
  have hcalls : ∀ as : List (Attempt T),
      ((w.calls.map fun d => { d with stage :=
        if d.activator = c.activator then d.stage.outside else d.stage }).modify i fun d =>
          { d with stage := .queued }).modify i (fun d => { d with stage := .working as }) =
      (w.calls.modify i fun d => { d with stage := .working as }).map fun d => { d with stage :=
        if d.activator = c.activator then d.stage.outside else d.stage } := by
    intro as
    refine List.ext_getElem? fun j => ?_
    simp only [List.getElem?_modify, List.getElem?_map]
    by_cases hj : i = j
    · subst hj
      simp [hc, CallStage.outside]
    · simp [hj]
  have hstage : ∀ as : List (Attempt T),
      (((w.outside c.activator).setQueue c.activator (· ++ [i])).setStage i .queued).setStage i
        (.working as) = (w.setStage i (.working as)).outside c.activator := by
    intro as
    have hbegun : (w.setStage i (.working as)).hasBegun = (w.begun i c a).hasBegun := by
      funext j
      by_cases hj : j = i
      · subst hj
        simp [begun, hasBegun, setStage, withSite, hc, Call.hasBegun]
      · simp [begun, hasBegun, setStage, withSite, Ne.symm hj]
    simp only [outside, hbegun]
    simp only [setStage, setQueue, hact, hcalls]
  refine Eq.trans ?_ (outside_withSite c.activator (w.setStage i _) c.activator _).symm
  rw [← hstage]
  rfl

omit [Targeted T] in
/-- A call that is over leaves its queue. -/
theorem leave_outside {k : Nat} {w : World C T} (hw : w.InLine) {i l : Nat} {st : CallStage T}
    (hi : w.isOn l i) (hst : st.outside = st) :
    ((w.outside k).setStage i st).setQueue l (·.erase i) =
      ((w.setStage i st).setQueue l (·.erase i)).outside k := by
  have hstage : ((w.setQueue l (·.erase i)).setStage i st).outside k =
      ((w.setQueue l (·.erase i)).outside k).setStage i st := by
    refine outside_setStage (fun _ => hst) fun a' ha' hia => ?_
    obtain ⟨a, ha, rfl⟩ := exists_of_modify (w := w) rfl ha'
    split at hia
    · exact absurd hia (hw.nodup a (List.mem_of_getElem? ha)).not_mem_erase
    · next hl => exact absurd (isOn_unique hi (hw.inLine k a ha i hia).1) hl
  have hqueue : (w.setQueue l (·.erase i)).outside k = (w.outside k).setQueue l (·.erase i) := by
    refine outside_setQueue fun _ a ha => ?_
    have hn := hw.nodup a (List.mem_of_getElem? ha)
    rw [hn.erase_eq_filter, (hn.filter _).erase_eq_filter, List.filter_comm]
  rw [hqueue] at hstage
  exact hstage.symm

theorem close_outside {k : Nat} {w : World C T} (hw : w.InLine) (i : Nat) :
    (w.outside k).close i = (w.close i).outside k := by
  rw [close, close, find?_outside]
  cases hf : w.find? i with
  | none => rfl
  | some p =>
      obtain ⟨c, a⟩ := p
      have hi : w.isOn c.activator i := isOn_iff.2 ⟨c, (find?_eq_some.1 hf).1, rfl⟩
      dsimp only [Option.map_some]
      cases hs : c.stage with
      | working as =>
          have hst : (if c.activator = k then (CallStage.working as).outside
              else CallStage.working as) = .working as := ite_self _
          simp only [hst]
          split
          · have hcauses : ({ c with stage := .working as } : Call C T).causes = c.causes := by
              simp [Call.causes, Call.attempts, hs]
            simp only [hcauses]
            split
            · exact leave_outside hw hi rfl
            · exact leave_outside (w := w.note ..) ⟨hw.nodup, hw.inLine⟩ hi rfl
          · rfl
      | _ => by_cases hk : c.activator = k <;> simp [hk, CallStage.outside]

omit [Targeted T] in
theorem drop_outside {k : Nat} {w : World C T} (hw : w.InLine) (i : Nat) :
    (w.outside k).drop i = (w.drop i).outside k := by
  rw [drop, drop]
  have hc : (w.outside k).calls[i]? = (w.calls[i]?).map fun c =>
      { c with stage := if c.activator = k then c.stage.outside else c.stage } :=
    List.getElem?_map ..
  rw [hc]
  cases hc : w.calls[i]? with
  | none => rfl
  | some c =>
      have hi : w.isOn c.activator i := isOn_iff.2 ⟨c, hc, rfl⟩
      have ho : ({ c with stage := if c.activator = k then c.stage.outside else c.stage } :
          Call C T).isOver = c.isOver := by
        split
        · cases hs : c.stage <;> simp [Call.isOver, CallStage.outside, hs]
        · rfl
      dsimp only [Option.map_some]
      rw [ho]
      split
      · rfl
      · exact leave_outside hw hi rfl

omit [Targeted T] in
theorem isQuiet_outside (k : Nat) (w : World C T) : (w.outside k).isQuiet = w.isQuiet := by
  have hover : ∀ c : Call C T, ({ c with stage := if c.activator = k then c.stage.outside
      else c.stage } : Call C T).isOver = c.isOver := by
    intro c
    split
    · cases hs : c.stage <;> simp [Call.isOver, CallStage.outside, hs]
    · rfl
  rw [isQuiet, outside, List.all_map]
  exact congrArg w.calls.all (funext hover)

omit [Targeted T] in
theorem submit_outside (k : Nat) (w : World C T) (rs : List (Request C T)) :
    (w.outside k).submit (rs.map Request.call) =
      (w.submit (rs.map Request.call)).outside k := by
  have hb : (w.submit (rs.map Request.call)).hasBegun = w.hasBegun := by
    funext i
    rw [hasBegun, hasBegun, submit]
    dsimp only
    rw [List.getElem?_append]
    split
    · rfl
    · next hi =>
        rw [List.getElem?_eq_none (Nat.le_of_not_lt hi), List.getElem?_map]
        cases rs[i - w.calls.length]? <;> rfl
  have hfresh : (rs.map Request.call).map (fun c : Call C T =>
      { c with stage := if c.activator = k then c.stage.outside else c.stage }) =
      rs.map Request.call := by
    rw [List.map_map]
    refine List.map_congr_left fun r _ => ?_
    rw [Function.comp_apply, Request.call]
    split <;> rfl
  simp only [outside, hb]
  simp only [submit, List.map_append, hfresh, List.length_map]

omit [Targeted T] in
theorem cancel_outside (k : Nat) (w : World C T) (i : Nat) :
    (w.outside k).cancel i = (w.cancel i).outside k := by
  have hb : (w.cancel i).hasBegun = w.hasBegun := by
    funext j
    simp only [hasBegun, cancel, List.getElem?_modify]
    cases w.calls[j]? with
    | none => rfl
    | some c => by_cases hij : i = j <;> simp [hij, Call.hasBegun]
  have hcalls : (w.calls.map fun c => { c with stage :=
        if c.activator = k then c.stage.outside else c.stage }).modify i (fun c =>
          { c with cancelled := true }) =
      (w.calls.modify i fun c => { c with cancelled := true }).map fun c => { c with stage :=
        if c.activator = k then c.stage.outside else c.stage } := by
    refine List.ext_getElem? fun j => ?_
    simp only [List.getElem?_modify, List.getElem?_map]
    by_cases hij : i = j <;> simp [hij, Function.comp_def]
  simp only [outside, hb]
  simp only [cancel, hcalls]

omit [Targeted T] in
theorem turnLoops_outside (k : Nat) (w : World C T) :
    (w.outside k).turnLoops = w.turnLoops.outside k := by
  rw [turnLoops_eq, turnLoops_eq]
  rfl

/-! ## The serial run -/

/-- What a move becomes when calls on an activator wait outside: they come when
their turns do. -/
def serial (k : Nat) (w : World C T) : Move C T → List (Move C T)
  | .join i => if w.isOn k i then [] else [.join i]
  | .begin i => if w.isOn k i then if w.hasTurn i then [.join i, .begin i] else [] else [.begin i]
  | m => [m]

/-- A run in which the calls on an activator come one after another, each when its
turn comes in another run. -/
def serially (env : Collaborators C T) (k : Nat) : World C T → List (Move C T) → List (Move C T)
  | _, [] => []
  | w, m :: ms => w.serial k m ++ serially env k (w.move env m) ms

theorem move_outside {env : Collaborators C T} {k : Nat} {w : World C T} (ho : w.Orderly)
    (hw : w.InLine) (m : Move C T) :
    (w.outside k).play env (w.serial k m) = (w.move env m).outside k := by
  cases m with
  | submit rs =>
      show (w.outside k).move env (.submit rs) = _
      rw [move, move, isQuiet_outside]
      split
      · exact submit_outside k w rs
      · rfl
  | join i =>
      rw [serial]
      split
      · next hi => exact (join_outside hi).symm
      · next hi => exact join_outside_of_ne hw hi
  | begin i =>
      rw [serial]
      split
      · next hi =>
          split
          · next ht => exact begin_outside ho hw hi ht
          · next ht => rw [move, begin_eq_self (by simpa using ht)]; rfl
      · next hi => exact begin_outside_of_ne hw hi
  | look i j => exact look_outside env k w i j
  | close i => exact close_outside hw i
  | cancel i => exact cancel_outside k w i
  | drop i => exact drop_outside hw i
  | turnLoops => exact turnLoops_outside k w
  | advance t => rfl
  | spawn name body =>
      show ((w.outside k).spawn name body).2 = (w.spawn name body).2.outside k
      rw [spawn, spawn]
      cases h : w.registry.spawn name body with
      | error f => simp only [outside, h]
      | ok registry =>
          simp only [outside, h]
          exact turnLoops_outside k ({ w with registry }.noteLoop (.registered name))
  | abort name =>
      show ((w.outside k).abort name).2 = (w.abort name).2.outside k
      rw [abort, abort]
      cases h : w.registry.abort? name with
      | none => simp only [outside, h]
      | some registry =>
          simp only [outside, h]
          exact turnLoops_outside k ({ w with registry }.noteLoop (.aborted name))
  | beginShutdown => rfl
  | turnShutdown s =>
      show World.move env (w.outside k) (.turnShutdown s) = _
      rw [move, move]
      dsimp only
      rw [foldl_noteLoop, foldl_noteLoop]
      rfl

theorem orderly_move {env : Collaborators C T} {w : World C T} (hw : w.Orderly) (m : Move C T) :
    (w.move env m).Orderly := orderly_play [m] hw

theorem inLine_move {env : Collaborators C T} {w : World C T} (hw : w.InLine) (m : Move C T) :
    (w.move env m).InLine := inLine_play hw [m]

theorem play_serially {env : Collaborators C T} {k : Nat} (ms : List (Move C T)) {w : World C T}
    (ho : w.Orderly) (hw : w.InLine) :
    (w.outside k).play env (serially env k w ms) = (w.play env ms).outside k := by
  induction ms generalizing w with
  | nil => rfl
  | cons m ms ih =>
      rw [serially, play_append, move_outside ho hw m]
      exact ih (orderly_move ho m) (inLine_move hw m)

omit [Targeted T] in
theorem outside_ofActivators (as : List (String × Policy)) (k : Nat) :
    (ofActivators as : World C T).outside k = ofActivators as := by
  have hact : ((as.map fun a => Activator.new a.1 a.2).modify k fun a =>
      { a with queue := a.queue.filter (ofActivators as : World C T).hasBegun }) =
      as.map fun a => .new a.1 a.2 := by
    refine List.ext_getElem? fun l => ?_
    simp only [List.getElem?_modify, List.getElem?_map]
    cases as[l]? with
    | none => rfl
    | some p => by_cases hl : k = l <;> simp [hl, Activator.new]
  simp only [outside, ofActivators, start, List.map_nil] at hact ⊢
  rw [hact]

/-- At most one call of an activator has come and is not over. -/
def Alone (k : Nat) (w : World C T) : Prop :=
  ∀ a, w.activators[k]? = some a → a.queue.length ≤ 1

/-- Among the calls in a queue only the one at work has begun. -/
theorem alone_outside {k : Nat} {w : World C T} (ho : w.Orderly) (hw : w.InLine) :
    (w.outside k).Alone k := by
  intro a' ha'
  obtain ⟨a, ha, rfl⟩ := exists_of_modify (w := w) rfl ha'
  rw [if_pos rfl]
  have hn := (hw.nodup a (List.mem_of_getElem? ha)).filter w.hasBegun
  have hhead : ∀ i ∈ a.queue.filter w.hasBegun, a.queue.head? = some i := by
    intro i hi
    obtain ⟨hi, hb⟩ := List.mem_filter.1 hi
    obtain ⟨hon, hin⟩ := hw.inLine k a ha i hi
    obtain ⟨c, hc, hk⟩ := isOn_iff.1 hon
    obtain ⟨c', hc', hin⟩ := isInLine_iff.1 hin
    rw [hc] at hc'
    cases hc'
    cases hs : c.stage with
    | working as => exact ho.inTurn i c a as (find?_eq_some.2 ⟨hc, hk ▸ ha⟩) hs
    | fresh | queued => simp [hasBegun, hc, Call.hasBegun, hs] at hb
    | ended | dropped => simp [Call.isInLine, hs] at hin
  rcases hq : a.queue.filter w.hasBegun with _ | ⟨i, _ | ⟨j, rest⟩⟩
  · exact Nat.zero_le 1
  · exact Nat.le_refl 1
  · rw [hq] at hn hhead
    have hij := (hhead i (by simp)).symm.trans (hhead j (by simp))
    simp at hn
    cases hij
    exact absurd rfl hn.1.1

omit [Targeted T] in
theorem serial_cases (k : Nat) (w : World C T) (m : Move C T) :
    (w.serial k m).length ≤ 1 ∨
      ∃ i, w.isOn k i ∧ w.hasTurn i ∧ w.serial k m = [.join i, .begin i] := by
  cases m with
  | join i =>
      rw [serial]
      split
      · exact .inl (Nat.zero_le 1)
      · exact .inl (Nat.le_refl 1)
  | begin i =>
      rw [serial]
      split
      · next hi =>
          split
          · next ht => exact .inr ⟨i, hi, ht, rfl⟩
          · exact .inl (Nat.zero_le 1)
      · exact .inl (Nat.le_refl 1)
  | _ => exact .inl (Nat.le_refl 1)

/-- On the way from one world of the serial run to the next there is at most one
more: a call has come and has not begun yet. -/
theorem alone_serial {env : Collaborators C T} {k : Nat} {w : World C T} (ho : w.Orderly)
    (hw : w.InLine) {m : Move C T} {ms₁ : List (Move C T)} (h : ms₁ <+: w.serial k m) :
    ((w.outside k).play env ms₁).Alone k := by
  have hnil : ((w.outside k).play env []).Alone k := alone_outside ho hw
  have hall : ((w.outside k).play env (w.serial k m)).Alone k := by
    rw [move_outside ho hw]
    exact alone_outside (orderly_move ho m) (inLine_move hw m)
  rcases serial_cases k w m with hlen | ⟨i, hi, ht, heq⟩
  · match hs : w.serial k m with
    | [] =>
        rw [hs] at h
        rw [List.prefix_nil.1 h]
        exact hnil
    | [m'] =>
        rw [hs] at h hall
        rcases List.prefix_cons_iff.1 h with rfl | ⟨t, rfl, ht⟩
        · exact hnil
        · rw [List.prefix_nil.1 ht]
          exact hall
    | m₁ :: m₂ :: rest => simp [hs] at hlen
  · rw [heq] at h hall
    rcases List.prefix_cons_iff.1 h with rfl | ⟨t, rfl, hp⟩
    · exact hnil
    · rcases List.prefix_cons_iff.1 hp with rfl | ⟨u, rfl, hu⟩
      · obtain ⟨c, a, rfl, -, -, -, -, hfj⟩ := find?_join_outside ho hw hi ht
        intro b hb
        have ha := (find?_eq_some.1 hfj).2
        have hb : ((w.outside c.activator).join i).activators[c.activator]? = some b := hb
        rw [ha] at hb
        cases hb
        exact Nat.le_refl 1
      · rw [List.prefix_nil.1 hu]
        exact hall

/-- In the serial run no two calls on the activator are ever under way together. -/
theorem alone_serially {env : Collaborators C T} {k : Nat} (ms : List (Move C T)) {w : World C T}
    (ho : w.Orderly) (hw : w.InLine) {ms₁ : List (Move C T)} (h : ms₁ <+: serially env k w ms) :
    ((w.outside k).play env ms₁).Alone k := by
  induction ms generalizing w ms₁ with
  | nil =>
      rw [List.prefix_nil.1 h]
      exact alone_outside ho hw
  | cons m ms ih =>
      obtain ⟨ms₂, h⟩ := h
      rcases List.append_eq_append_iff.1 h with ⟨t, ht, -⟩ | ⟨t, rfl, ht⟩
      · exact alone_serial ho hw ⟨t, ht.symm⟩
      · rw [play_append, move_outside ho hw]
        exact ih (orderly_move ho m) (inLine_move hw m) ⟨ms₂, ht.symm⟩

theorem turns_append (env : Collaborators C T) (k : Nat) (w : World C T)
    (ms ms' : List (Move C T)) :
    turns env k w (ms ++ ms') = turns env k w ms ++ turns env k (w.play env ms) ms' := by
  induction ms generalizing w with
  | nil => rfl
  | cons m ms ih =>
      rw [List.cons_append, turns, turns, ih, List.append_assoc]
      rfl

omit [Targeted T] in
theorem isOn_outside (k : Nat) (w : World C T) (l i : Nat) :
    (w.outside k).isOn l i = w.isOn l i := by
  simp only [isOn, outside, List.getElem?_map, Option.any_map]

theorem turns_serial (env : Collaborators C T) {k : Nat} {w : World C T} (ho : w.Orderly)
    (hw : w.InLine) (m : Move C T) : turns env k (w.outside k) (w.serial k m) = w.turn k m := by
  have hone : ∀ m : Move C T, turns env k (w.outside k) [m] = (w.outside k).turn k m :=
    fun m => List.append_nil _
  cases m with
  | join i =>
      rw [serial]
      split
      · rfl
      · rw [hone, turn_of_not_begin, turn_of_not_begin] <;> simp
  | begin i =>
      rw [serial]
      split
      · next hi =>
          split
          · next ht =>
              obtain ⟨c, a, rfl, -, hs, -, hjoin, hfj⟩ := find?_join_outside ho hw hi ht
              have hj : ((w.outside c.activator).join i).hasTurn i :=
                hasTurn_iff.2 ⟨c, _, hfj, hs, rfl⟩
              have hon : ((w.outside c.activator).join i).isOn c.activator i :=
                isOn_iff.2 ⟨c, (find?_eq_some.1 hfj).1, rfl⟩
              have hnow : ((w.outside c.activator).join i).now = w.now := by rw [hjoin]; rfl
              have hturn : ((w.outside c.activator).join i).turn c.activator (.begin i) =
                  [(i, w.now)] := by rw [turn, if_pos ⟨hj, hon⟩, hnow]
              rw [turns, turns, turns, turn_of_not_begin _ _ (by simp), List.nil_append,
                List.append_nil]
              exact hturn.trans (if_pos ⟨ht, hi⟩).symm
          · next ht => exact (if_neg fun h => ht h.1).symm
      · next hi =>
          rw [hone, turn, turn, isOn_outside, if_neg fun h => hi h.2, if_neg fun h => hi h.2]
  | _ => exact (hone _).trans ((turn_of_not_begin _ _ (by simp)).trans
      (turn_of_not_begin _ _ (by simp)).symm)

/-- In the serial run the turns come in the same order, at the same instants. -/
theorem turns_serially {env : Collaborators C T} {k : Nat} (ms : List (Move C T)) {w : World C T}
    (ho : w.Orderly) (hw : w.InLine) :
    turns env k (w.outside k) (serially env k w ms) = turns env k w ms := by
  induction ms generalizing w with
  | nil => rfl
  | cons m ms ih =>
      rw [serially, turns_append, turns_serial env ho hw, move_outside ho hw,
        ih (orderly_move ho m) (inLine_move hw m), turns]

/-! ## What waiting in a queue comes to -/

omit [Targeted T] in
theorem holding?_outside (k : Nat) (w : World C T) (l : Nat) (r : ResourceReference) :
    (w.outside k).holding? l r = w.holding? l r :=
  holding?_modify (f := fun a => { a with queue := a.queue.filter w.hasBegun }) rfl
    (fun _ => rfl) l r

theorem result?_outside (k : Nat) (w : World C T) (i : Nat) :
    (w.outside k).calls[i]?.bind Call.result? = w.calls[i]?.bind Call.result? := by
  have hresult : ∀ c : Call C T, ({ c with stage := if c.activator = k then c.stage.outside
      else c.stage } : Call C T).result? = c.result? := by
    intro c
    split
    · cases hs : c.stage <;>
        simp [Call.result?, CallStage.outside, Call.causes, Call.attempts, hs]
    · rfl
  have hc : (w.outside k).calls[i]? = (w.calls[i]?).map fun c =>
      { c with stage := if c.activator = k then c.stage.outside else c.stage } :=
    List.getElem?_map ..
  rw [hc]
  cases w.calls[i]? with
  | none => rfl
  | some c => exact hresult c

/-- What a call does at once about a controller that an earlier call installed. -/
structure Sees (w : World C T) (k i : Nat) (c : Call C T) (r : ResourceReference)
    (controller : String) (h : Holding) : Prop where
  found : w.holding? k r = some h
  same : h.controller = controller
  retired : r ∉ c.targets.map reference →
    (w.begin i).holding? k r = some { h with active := false }
  noted : r ∉ c.targets.map reference → Trace.acts (w.begin i).trace k r =
    Trace.acts w.trace k r ++ if h.active then [(i, .deactivated controller)] else []

theorem Reachable.sees {env : Collaborators C T} {as : List (String × Policy)} {w : World C T}
    (hw : Reachable env as w) {i : Nat} {c : Call C T} (hc : w.calls[i]? = some c)
    (ht : w.hasTurn i) {r : ResourceReference} {j : Nat} {n : String}
    (hs : (j, .returned n none false) ∈ Trace.acts w.trace c.activator r) :
    ∃ h, w.Sees c.activator i c r n h := by
  have hmem : Act.returned n none false ∈
      ((Trace.acts w.trace c.activator r).map Prod.snd).filter Act.isSuccess :=
    List.mem_filter.2 ⟨List.mem_map.2 ⟨_, hs, rfl⟩, rfl⟩
  rw [hw.filter_isSuccess c.activator r, List.mem_map] at hmem
  obtain ⟨h, hh, heq⟩ := hmem
  have hfound := Option.mem_toList.1 hh
  have hn : h.controller = n := by
    injection heq
  obtain ⟨c', a, hf, hq, hhead⟩ := hasTurn_iff.1 ht
  obtain ⟨hc', -⟩ := find?_eq_some.1 hf
  rw [hc] at hc'
  cases hc'
  have hstep : Step env (.begin i) w (w.begun i c a) := .begin hf hq hhead
  have hstanding := standing_begun hw.orderly (orderly_step hstep hw.orderly) hf hq hhead r
  rw [← begin_eq_begun hf hq hhead] at hstanding
  have hholding : (w.standing c.activator r).holding = some h := hfound
  refine ⟨h, hfound, hn, fun hr => ?_, fun hr => ?_⟩
  · have := congrArg Standing.holding hstanding
    simpa [standing, Standing.begun, hfound, hr] using this
  · have := congrArg Standing.acts hstanding
    cases ha : h.active <;> simpa [standing, Standing.begun, hfound, hr, ha, hn] using this

/-- The run in which the calls on an activator come one after another. -/
def playSerially (env : Collaborators C T) (k : Nat) (w : World C T) (ms : List (Move C T)) :
    World C T := w.play env (serially env k w ms)

/-- The calls on an activator that some moves make at the same time come to the same
as if each of them had been made when its turn came. -/
structure OneByOne (env : Collaborators C T) (k : Nat) (w : World C T) (ms : List (Move C T)) :
    Prop where
  nodup : ((turns env k w ms).map Prod.fst).Nodup
  /-- What is noted for the activator is what is noted for one call after another. -/
  split : Trace.ofActivator (w.play env ms).trace k =
    ((turns env k w ms).map Prod.fst).flatMap (Trace.ofCall (w.play env ms).trace)
  /-- The store changes by what is noted, and by nothing else. -/
  store : ∀ a, (w.play env ms).activators[k]? = some a →
    a.store = Trace.storeAfter (Trace.ofActivator (w.play env ms).trace k).reverse []
  alone : ∀ ms₁, ms₁ <+: serially env k w ms → (w.play env ms₁).Alone k
  turns : turns env k w (serially env k w ms) = turns env k w ms
  outside : w.playSerially env k ms = (w.play env ms).outside k
  trace : (w.playSerially env k ms).trace = (w.play env ms).trace
  holding : ∀ l r, (w.playSerially env k ms).holding? l r = (w.play env ms).holding? l r
  result : ∀ i : Nat, (w.playSerially env k ms).calls[i]?.bind Call.result? =
    (w.play env ms).calls[i]?.bind Call.result?
  /-- Of all attempts for a reference at most one succeeds. -/
  once : ∀ r, ((Trace.acts (w.play env ms).trace k r).filter (·.2.isSuccess)).length ≤ 1
  sees : ∀ (i : Nat) c, (w.play env ms).calls[i]? = some c → c.activator = k →
    (w.play env ms).hasTurn i → ∀ r j n,
      (j, .returned n none false) ∈ Trace.acts (w.play env ms).trace k r →
      ∃ h, (w.play env ms).Sees k i c r n h

/-- Whatever calls are made on an activator, and however their moves are mixed with
each other and with all other moves, they come to the same as one after another
in the order of their turns. -/
theorem calls_one_by_one (env : Collaborators C T) (as : List (String × Policy)) (k : Nat)
    (ms : List (Move C T)) : OneByOne env k (ofActivators as) ms := by
  have ho : (ofActivators as : World C T).Orderly := orderly_ofActivators as
  have hw : (ofActivators as : World C T).InLine := inLine_ofActivators as
  have hreach : Reachable env as ((ofActivators as).play env ms) := ⟨ms, rfl⟩
  have htaken : Taken k ([] ++ _) ((ofActivators as).play env ms) :=
    taken_play ms ho (taken_ofActivators as k)
  rw [List.nil_append] at htaken
  have hplay : (ofActivators as).playSerially env k ms =
      ((ofActivators as).play env ms).outside k := by
    have h := (play_serially ms ho hw : World.play env _ (serially env k _ ms) = _)
    rwa [outside_ofActivators] at h
  have halone : ∀ ms₁, ms₁ <+: serially env k (ofActivators as) ms →
      ((ofActivators as).play env ms₁).Alone k := by
    intro ms₁ hp
    have h := alone_serially ms ho hw hp
    rwa [outside_ofActivators] at h
  have hturns : turns env k (ofActivators as) (serially env k (ofActivators as) ms) =
      turns env k (ofActivators as) ms := by
    have h := (turns_serially ms ho hw : turns env k _ _ = _)
    rwa [outside_ofActivators] at h
  refine ⟨htaken.nodup, htaken.split, htaken.store, halone, hturns, hplay, ?_, fun l r => ?_,
    fun i => ?_, fun r => ?_, ?_⟩
  · rw [hplay]
    rfl
  · rw [hplay]
    exact holding?_outside ..
  · rw [hplay]
    exact result?_outside ..
  · have h := congrArg List.length (hreach.filter_isSuccess k r)
    rw [List.filter_map, List.length_map, List.length_map] at h
    have hle := Option.length_toList_le (o := ((ofActivators as).play env ms).holding? k r)
    rw [← h] at hle
    exact hle
  · rintro i c hc rfl ht r j n hs
    exact hreach.sees hc ht hs

/-- Two calls for one target overlap: the first one to come has the first turn, and the
other one finds its controller. -/
example :
    let ms : List (Move String ResourceReference) :=
      [.submit [.plain 0 "v1" ["a"], .plain 0 "v2" ["a", "b"]], .join 1, .join 0, .begin 0,
        .begin 1, .look 1 0, .advance 7, .look 1 1, .close 1, .begin 0, .look 0 0, .close 0]
    turns .prompt 0 (ofActivators [("widgets", .default)]) ms = [(1, 0), (0, 7)] := by
  decide +kernel

end World

end Lifecycle
