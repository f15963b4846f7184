import Lifecycle.Proofs.Fulfilment

/-!
# A call that is dropped

Whoever makes a call may drop it wherever it waits. The call is out of the way at once
(`World.MadeWay`), and whatever it was doing stops. For nearly all that it can be doing
that is enough: a check leaves nothing behind, and a controller that is made has nothing
outside of its attempt.

A loop is the exception. It is the attempt that would free its name when the registration
has failed, and a dropped attempt does nothing any more. So a loop that a registration
has started before the drop runs on under its name, which nobody knows: the store has no
controller for the reference, and the next attempt on it finds its own name taken.
`dropped_call_leaves_nothing` says that this is the only case. Otherwise the world is as
tidy as before, and a call that comes later and is favoured returns with all of its
targets active, whatever was dropped before it.
-/

namespace Lifecycle

variable {C T : Type}

namespace World

/-- Whether a call is registering a controller whose loop is started already. -/
def hasPendingLoop (w : World C T) (i : Nat) : Bool :=
  (w.find? i).any fun p => p.1.attempts.any fun u => u.name?.any w.registry.isRegistered

theorem hasPendingLoop_iff {w : World C T} {i : Nat} : w.hasPendingLoop i ↔
    ∃ c a, w.find? i = some (c, a) ∧ ∃ u ∈ c.attempts, ∃ n, u.name? = some n ∧
      w.registry.isRegistered n := by
  simp [hasPendingLoop, Option.any_eq_true]

/-- Whether a move leaves the loops to the attempts and lets every attempt look after its own. -/
def isClean (w : World C T) : Move C T → Bool
  | .drop i => !w.hasPendingLoop i
  | m => m.isOrdinary

variable [Targeted T]

/-- Whether all moves of a run do. -/
def isCleanRun (env : Collaborators C T) : World C T → List (Move C T) → Bool
  | _, [] => true
  | w, m :: ms => w.isClean m && isCleanRun env (w.move env m) ms

/-- A loop that nobody knows: its name was made for a reference, whose controller does not
have it, and no attempt is about to register it. -/
def Orphaned (w : World C T) (n : String) : Prop :=
  w.registry.isRegistered n ∧
    ∃ k r l, (l, .created n) ∈ Trace.acts w.trace k r ∧ ¬ (w.standing k r).Names n

/-- A call is out of the way of its activator: it neither is at work nor stands in the
queue, and if nobody else is at work the first in the queue has its turn. -/
structure MadeWay (w v : World C T) (i k : Nat) : Prop where
  gone : ∀ a, v.activators[k]? = some a → i ∉ a.queue
  others : ∀ l as, v.atWork k = some (l, as) → l ≠ i ∧ ∃ bs, w.atWork k = some (l, bs)
  next : v.atWork k = none → ∀ a l, v.activators[k]? = some a → a.queue.head? = some l →
    v.hasTurn l

theorem isInLine_of_atWork {w : World C T} (hw : w.Orderly) {k i : Nat}
    {as : List (Attempt T)} (h : w.atWork k = some (i, as)) : w.isInLine i := by
  obtain ⟨c, a, hf, -, hs⟩ := (atWork_eq_some_iff hw).1 h
  exact isInLine_iff.2 ⟨c, (find?_eq_some.1 hf).1, by simp [Call.isInLine, hs]⟩

/-- If nobody is at work the first in the queue has its turn. -/
theorem hasTurn_of_head {w : World C T} (hw : w.Orderly) (hline : w.InLine) {k l : Nat}
    (hidle : w.atWork k = none) {a : Activator} (ha : w.activators[k]? = some a)
    (hl : a.queue.head? = some l) : w.hasTurn l := by
  obtain ⟨hon, hin⟩ := hline.inLine k a ha l (List.mem_of_head? hl)
  obtain ⟨c, hc, rfl⟩ := isOn_iff.1 hon
  obtain ⟨c', hc', hc''⟩ := isInLine_iff.1 hin
  obtain rfl : c = c' := Option.some.inj (hc.symm.trans hc')
  have hf : w.find? l = some (c, a) := find?_eq_some.2 ⟨hc, ha⟩
  refine hasTurn_iff.2 ⟨c, a, hf, ?_, hl⟩
  cases hs : c.stage with
  | queued => rfl
  | working as =>
      rw [(atWork_eq_some_iff hw).2 ⟨c, a, hf, rfl, hs⟩] at hidle
      cases hidle
  | _ => simp [Call.isInLine, hs] at hc''

/-! ## What a drop changes -/

section Drop

variable {w : World C T} {i : Nat} {c : Call C T} (hc : w.calls[i]? = some c)
  (ho : c.isOver = false)

include hc ho

omit [Targeted T] in
theorem drop_eq : w.drop i =
    (w.setStage i (.dropped w.now)).setQueue c.activator (·.erase i) := by
  simp [drop, hc, ho]

theorem step_drop (env : Collaborators C T) : Step env (.drop i) w (w.drop i) := by
  rw [drop_eq hc ho]
  exact .drop hc ho

omit [Targeted T] in
theorem isInLine_drop : (w.drop i).isInLine i = false := by
  rw [drop_eq hc ho]
  simp [isInLine, setQueue, setStage, hc, Call.isInLine]

/-- A call that is dropped at work leaves every reference to itself. -/
theorem standing_drop (env : Collaborators C T) (hw : w.Orderly) {k : Nat}
    {as : List (Attempt T)} (hwork : w.atWork k = some (i, as)) (r : ResourceReference) :
    (w.drop i).standing k r = (w.standing k r).left := by
  have hstep := step_drop hc ho env
  cases hstep.effect hw k r with
  | drop _ _ _ heq => exact heq
  | same heq =>
      have hcall : ((w.drop i).standing k r).call = some i := by
        rw [heq, standing, hwork]
        rfl
      obtain ⟨⟨j, bs⟩, hj, rfl⟩ := Option.map_eq_some_iff.1 hcall
      have hl := isInLine_of_atWork (orderly_step hstep hw) hj
      rw [isInLine_drop hc ho] at hl
      cases hl

/-- The names in use for a reference are the same after a drop, but for the one that the
call itself was registering. -/
theorem names_of_drop (env : Collaborators C T) (hw : w.Orderly) {k : Nat}
    {r : ResourceReference} {n : String} (hn : (w.standing k r).Names n) :
    ((w.drop i).standing k r).Names n ∨ (w.registry.isRegistered n → w.hasPendingLoop i) := by
  cases (step_drop hc ho env).effect hw k r with
  | same heq => exact .inl (heq ▸ hn)
  | @drop _ _ _ as hwork _ _ heq =>
      rcases hn with hn | hn
      · exact .inl (by rw [heq]; exact .inl hn)
      · refine .inr fun hreg => hasPendingLoop_iff.2 ?_
        obtain ⟨d, a, hf, -, hs⟩ := (atWork_eq_some_iff hw).1 hwork
        rw [standing, hwork] at hn
        obtain ⟨u, hu, hname⟩ := Option.bind_eq_some_iff.1 hn
        refine ⟨d, a, hf, u, ?_, n, hname, hreg⟩
        simpa [Call.attempts, hs] using List.mem_of_find?_eq_some hu

/-- What is held is in use after a drop too, if the call had no loop pending. -/
theorem inUse_drop (env : Collaborators C T) (hw : w.Orderly) (huse : w.InUse)
    (hloop : w.hasPendingLoop i = false) : (w.drop i).InUse := by
  refine ⟨fun k r => ?_, fun n hn => ?_⟩
  · cases (step_drop hc ho env).effect hw k r with
    | same heq => exact heq ▸ huse.units k r
    | drop _ _ _ heq => exact heq ▸ (huse.units k r).left
  · rw [drop_eq hc ho] at hn ⊢
    rcases huse.owned n hn with hforeign | ⟨k, r, hkr⟩
    · exact .inl hforeign
    · rw [← drop_eq hc ho]
      rcases names_of_drop hc ho env hw hkr with hkr | hpending
      · exact .inr ⟨k, r, hkr⟩
      · have hpending := hpending hn
        rw [hloop] at hpending
        cases hpending

theorem tidy_drop (env : Collaborators C T) (hw : w.Tidy) (hloop : w.hasPendingLoop i = false) :
    (w.drop i).Tidy := by
  refine ⟨orderly_step (step_drop hc ho env) hw.orderly, fun hapart => ?_, ?_⟩
  · rw [drop_eq hc ho] at hapart
    exact inUse_drop hc ho env hw.orderly (hw.inUse hapart) hloop
  · rw [drop_eq hc ho]
    exact hw.isOpen

/-- The loops that a drop leaves to nobody are those that the call had pending. -/
theorem exists_orphaned_drop_iff (env : Collaborators C T) (hw : w.Orderly) (huse : w.InUse)
    (hapart : Trace.Apart w.trace) :
    (∃ n, (w.drop i).Orphaned n) ↔ w.hasPendingLoop i := by
  have htrace : (w.drop i).trace = w.trace ∧ (w.drop i).registry = w.registry := by
    rw [drop_eq hc ho]
    exact ⟨rfl, rfl⟩
  constructor
  · rintro ⟨n, hreg, k, r, l, hl, hnot⟩
    by_contra hloop
    have huse' := inUse_drop hc ho env hw huse (Bool.eq_false_iff.2 hloop)
    rw [huse'.isRegistered_eq_false (List.suffix_rfl) (htrace.1 ▸ hapart) hl hnot] at hreg
    cases hreg
  · intro hloop
    obtain ⟨d, a, hf, u, hu, n, hn, hreg⟩ := hasPendingLoop_iff.1 hloop
    obtain rfl : c = d := Option.some.inj (hc.symm.trans (find?_eq_some.1 hf).1)
    obtain ⟨as, hs, hu⟩ : ∃ as, c.stage = .working as ∧ u ∈ as := by
      cases hs : c.stage <;> simp [Call.attempts, Call.isOver, hs] at hu ho ⊢
      exact hu
    have hstanding := standing_of_working hw hf hs hu
    have hliable := huse.units c.activator u.reference
    rw [hstanding] at hliable
    obtain ⟨l, hl⟩ := hliable.known n (.inr hn)
    refine ⟨n, htrace.2 ▸ hreg, c.activator, u.reference, l, htrace.1 ▸ hl, ?_⟩
    -- The reference had no controller, and has no attempt now.
    have hwork := (atWork_eq_some_iff hw).2 ⟨c, a, hf, rfl, hs⟩
    have hnone : a.store.get? u.reference = none := by
      have h := hliable.attempt u rfl
      cases hst : u.stage <;> simp [Attempt.name?, hst] at hn
      simp only [Attempt.Liable, hst] at h
      exact h.1
    rw [standing_drop hc ho env hw hwork, hstanding]
    simp [Standing.left, Standing.Names, hnone]

theorem madeWay_drop (env : Collaborators C T) (hw : w.Orderly) (hline : w.InLine) :
    w.MadeWay (w.drop i) i c.activator := by
  have hstep := step_drop hc ho env
  have hw' := orderly_step hstep hw
  have hline' := inLine_step hstep hline
  refine ⟨fun a ha hi => ?_, fun l as hl => ⟨?_, ?_⟩, fun hidle a l ha hl => ?_⟩
  · have h := (hline'.inLine _ a ha i hi).2
    rw [isInLine_drop hc ho] at h
    cases h
  · rintro rfl
    have h := isInLine_of_atWork hw' hl
    rw [isInLine_drop hc ho] at h
    cases h
  · exact (hstep.atWork hw hl).resolve_right nofun
  · exact hasTurn_of_head hw' hline' hidle ha hl

end Drop

/-! ## Runs -/

section Clean

variable {env : Collaborators C T} (hd : env.KeepsNames)

include hd

theorem Tidy.move {w : World C T} {m : Move C T} (hm : w.isClean m) (hw : w.Tidy) :
    (w.move env m).Tidy := by
  by_cases hdrop : ∃ i, m = .drop i
  · obtain ⟨i, rfl⟩ := hdrop
    rw [isClean, Bool.not_eq_true'] at hm
    cases hc : w.calls[i]? with
    | none => simpa [World.move, drop, hc] using hw
    | some c =>
        cases ho : c.isOver with
        | true => simpa [World.move, drop, hc, ho] using hw
        | false => exact tidy_drop hc ho env hw hm
  · have hordinary : m.isOrdinary := by
      cases m with
      | drop i => exact absurd ⟨i, rfl⟩ hdrop
      | _ => exact hm
    exact invariant_of_move (P := fun v => v.Tidy) (fun h hv => hv.step hd h hordinary) hw

theorem Tidy.play {ms : List (Move C T)} : ∀ {w : World C T}, w.isCleanRun env ms → w.Tidy →
    (w.play env ms).Tidy := by
  induction ms with
  | nil => exact fun _ hw => hw
  | cons m ms ih =>
      intro w hms hw
      rw [isCleanRun, Bool.and_eq_true] at hms
      exact ih hms.2 (hw.move hd hms.1)

end Clean

/-- However a world is carried on, a call that is favoured when its turn has come returns
without a cause, with all of its targets active. -/
def Serviceable (env : Collaborators C T) (w : World C T) : Prop :=
  ∀ ms, w.isCleanRun env ms → ∀ i c ns, (w.play env ms).calls[i]? = some c →
    (w.play env ms).hasTurn i → (w.play env ms).Welcomed env i →
      ((w.play env ms).begin i).FavoursCall env i ns →
        ∃ n, (((w.play env ms).begin i).along env ns n).ReturnsWell i c.activator c.targets

theorem Tidy.serviceable {env : Collaborators C T} (hd : env.KeepsNames) {w : World C T}
    (hw : w.Tidy) : w.Serviceable env := by
  intro ms hms i c ns hc hturn henv hns
  obtain ⟨c', a, hfind, hq, hh⟩ := hasTurn_iff.1 hturn
  obtain rfl : c = c' := Option.some.inj (hc.symm.trans (find?_eq_some.1 hfind).1)
  exact hns.returns (hw.play hd hms) hd hfind hq hh henv

/-- When nobody is at work, all loops of an activator are those of its controllers. -/
def OnlyKnownLoops (w : World C T) (k : Nat) : Prop :=
  w.atWork k = none → ∀ r i n, (i, .created n) ∈ Trace.acts w.trace k r →
    w.registry.isRegistered n → (w.holding? k r).map Holding.controller = some n

theorem InUse.onlyKnownLoops {w : World C T} (huse : w.InUse) (hapart : Trace.Apart w.trace)
    (k : Nat) : w.OnlyKnownLoops k := by
  intro hidle r i n hi hreg
  by_contra hnot
  rw [huse.isRegistered_eq_false List.suffix_rfl hapart hi] at hreg
  · cases hreg
  · rintro (h | h)
    · exact hnot h
    · rw [standing, hidle] at h
      cases h

/-- A call may be dropped wherever it is, if no call before was dropped with a loop pending.
It is out of the way then. It leaves a loop to nobody exactly if it had one pending; if not,
all loops are accounted for, and a call that comes later gets what it wants. -/
theorem dropped_call_leaves_nothing {env : Collaborators C T} {policies : List (String × Policy)}
    {past : List (Move C T)} (hd : env.KeepsNames)
    (hpast : (ofActivators policies).isCleanRun env past) {w : World C T}
    (hw : w = (ofActivators policies).play env past) (hapart : Trace.Apart w.trace) {i : Nat}
    {c : Call C T} (hc : w.calls[i]? = some c) (ho : c.isOver = false) :
    w.MadeWay (w.drop i) i c.activator ∧
      ((∃ n, (w.drop i).Orphaned n) ↔ w.hasPendingLoop i) ∧
      (w.hasPendingLoop i = false →
        (w.drop i).OnlyKnownLoops c.activator ∧ (w.drop i).Serviceable env) := by
  have htidy : w.Tidy := by
    rw [hw]
    exact (tidy_ofActivators policies).play hd hpast
  have hline : w.InLine := by
    rw [hw]
    exact inLine_play (inLine_ofActivators policies) past
  have huse := htidy.inUse hapart
  refine ⟨madeWay_drop hc ho env htidy.orderly hline,
    exists_orphaned_drop_iff hc ho env htidy.orderly huse hapart, fun hloop => ⟨?_, ?_⟩⟩
  · have hapart' : Trace.Apart (w.drop i).trace := by rwa [drop_eq hc ho]
    exact (inUse_drop hc ho env htidy.orderly huse hloop).onlyKnownLoops hapart' _
  · exact (tidy_drop hc ho env htidy hloop).serviceable hd

/-- A call that is dropped while its registration sleeps before it starts the loop, and a
second one for the same target. -/
theorem dropped_call_leaves_nothing_sleeping :
    let env : Collaborators String ResourceReference :=
      { Collaborators.prompt with
        create := fun _ _ _ r config =>
          let register := Registration.spawn r.name .forever (.finish none)
          ⟨r.name, if config = "v1" then .sleep (some 1000) none register else register⟩ }
    let policies := [("widgets", Policy.default)]
    let past : List (Move String ResourceReference) :=
      [.submit [.plain 0 "v1" ["a"]], .join 0, .begin 0, .look 0 0, .advance 500]
    let w := (ofActivators policies).play env past
    let u := (w.drop 0).play env [.submit [.plain 0 "v2" ["a"]], .join 1]
    (ofActivators policies).isCleanRun env past ∧ Trace.Apart w.trace ∧
      (w.attempts 0).any (fun u => u.name? = some "a") ∧ w.hasPendingLoop 0 = false ∧
      w.MadeWay (w.drop 0) 0 0 ∧ (¬ ∃ n, (w.drop 0).Orphaned n) ∧ (w.drop 0).OnlyKnownLoops 0 ∧
      ∃ n, ((u.begin 1).along env (tending 1) n).ReturnsWell 1 0 [.plain "a"] := by
  intro env policies past w u
  have hd : env.KeepsNames := by
    intro t now capability r config
    dsimp only [env]
    split <;> simp [Registration.spawnsOnly]
  have hpast : (ofActivators policies).isCleanRun env past := by decide +kernel
  have hapart : Trace.Apart w.trace := ⟨by decide +kernel, by decide +kernel⟩
  have hname : (w.attempts 0).any (fun u => u.name? = some "a") := by decide +kernel
  have hloop : w.hasPendingLoop 0 = false := by decide +kernel
  have hcall : w.calls[0]?.any fun c => c.activator = 0 ∧ c.isOver = false := by decide +kernel
  have hclean : (w.drop 0).isCleanRun env [.submit [.plain 0 "v2" ["a"]], .join 1] := by
    decide +kernel
  have hturn : u.hasTurn 1 := by decide +kernel
  have hnext : u.find? 1 = some (⟨0, "v2", [.plain "a"], false, .queued⟩,
      ⟨"widgets", Policy.default, [], [1]⟩) := by decide +kernel
  have hfavours : (u.begin 1).FavoursCall env 1 (tending 1) :=
    favoursCall_tending (by decide +kernel) (by decide +kernel)
      ⟨by decide +kernel, by decide +kernel⟩ (by decide +kernel) (by decide +kernel)
  have hwelcomed : u.Welcomed env 1 := welcomed_of_one (t := .plain "a") hnext
    (by decide +kernel) ⟨rfl, .ready (fun _ _ => rfl) (by decide +kernel), fun _ _ _ => rfl⟩
  obtain ⟨c, hc, hkept⟩ := (Option.any_eq_true ..).1 hcall
  obtain ⟨hk, ho⟩ := of_decide_eq_true hkept
  obtain ⟨hway, horphan, hleft⟩ := dropped_call_leaves_nothing hd hpast rfl hapart hc ho
  obtain ⟨hknown, hserves⟩ := hleft hloop
  rw [hk] at hway hknown
  refine ⟨hpast, hapart, hname, hloop, hway, ?_, hknown, ?_⟩
  · rw [horphan, hloop]
    exact Bool.false_ne_true
  · exact hserves _ hclean 1 _ _ (find?_eq_some.1 hnext).1 hturn hwelcomed hfavours

/-- A call that is dropped while its registration has started the loop and sleeps. The loop
is in no store, and a second call for the same target, to which nobody objects, finds the name
taken. -/
theorem dropped_call_leaves_loop :
    let env : Collaborators String ResourceReference :=
      { Collaborators.prompt with
        create := fun _ _ _ r config => ⟨r.name, .spawn r.name .forever
          (if config = "v1" then .sleep (some 1000) none (.finish none) else .finish none)⟩ }
    let policies := [("widgets", Policy.default)]
    let past : List (Move String ResourceReference) :=
      [.submit [.plain 0 "v1" ["a"]], .join 0, .begin 0, .look 0 0, .advance 500]
    let w := (ofActivators policies).play env past
    let v := w.drop 0
    let u := v.play env [.submit [.plain 0 "v2" ["a"]], .join 1]
    env.KeepsNames ∧ (ofActivators policies).isCleanRun env past ∧ Trace.Apart w.trace ∧
      v.registry.isRegistered "a" ∧ v.holding? 0 (.plain "a") = none ∧ v.Orphaned "a" ∧
      u.hasTurn 1 ∧ u.Welcomed env 1 ∧ u.isCancelled 1 = false ∧
      (u.play env [.begin 1, .look 1 0, .close 1]).calls[1]?.bind Call.result? = some (.failed
        [.setup "a" (.registration "a" "a controller with this name is already registered")],
          500) := by
  intro env policies past w v u
  have hd : env.KeepsNames := by
    intro t now capability r config
    dsimp only [env]
    split <;> simp [Registration.spawnsOnly]
  have hpast : (ofActivators policies).isCleanRun env past := by decide +kernel
  have hapart : Trace.Apart w.trace := ⟨by decide +kernel, by decide +kernel⟩
  have hreg : v.registry.isRegistered "a" := by decide +kernel
  have hnone : v.holding? 0 (.plain "a") = none := by decide +kernel
  have hacts : (0, .created "a") ∈ Trace.acts v.trace 0 (.plain "a") := by decide +kernel
  have hwork : (v.atWork 0).isNone := by decide +kernel
  have hturn : u.hasTurn 1 := by decide +kernel
  have hnext : u.find? 1 = some (⟨0, "v2", [.plain "a"], false, .queued⟩,
      ⟨"widgets", Policy.default, [], [1]⟩) := by decide +kernel
  have hresult : (u.play env [.begin 1, .look 1 0, .close 1]).calls[1]?.bind Call.result? =
      some (.failed
        [.setup "a" (.registration "a" "a controller with this name is already registered")],
          500) := by decide +kernel
  have horphan : v.Orphaned "a" := by
    refine ⟨hreg, 0, .plain "a", 0, hacts, ?_⟩
    rw [Standing.Names, standing, hnone, Option.isNone_iff_eq_none.1 hwork]
    simp
  have hwelcomed : u.Welcomed env 1 := welcomed_of_one (t := .plain "a") hnext
    (by decide +kernel) ⟨rfl, .ready (fun _ _ => rfl) (by decide +kernel), fun _ _ _ => rfl⟩
  exact ⟨hd, hpast, hapart, hreg, hnone, horphan, hturn, hwelcomed, by decide +kernel, hresult⟩

end World

end Lifecycle
