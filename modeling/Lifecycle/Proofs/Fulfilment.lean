import Lifecycle.Proofs.Queues
import Lifecycle.Proofs.Retry
import Lifecycle.Proofs.Story
import Mathlib.Order.Filter.AtTopBot.Basic
import Mathlib.Order.Filter.Finite

/-!
# A call with which nothing goes wrong

A call whose attempts are all favoured returns without a cause, and all its targets are
active then (`FavoursCall.returns`). What is missing from `Favoured` to that is little:
an attempt for a known reference needs no favour, since it ends at the first look
(`Fair.known_ends`), and a call that is carried on cannot be over before it was closed
with all of its attempts done (`FavoursCall.works_or_returned`).

It is said of any tidy world, whatever has happened before.
-/

namespace Lifecycle

variable {C T : Type} [Targeted T]

namespace World

/-- A call has returned just now without a cause, with all its targets active. -/
def ReturnsWell (w : World C T) (i k : Nat) (targets : List T) : Prop :=
  (∃ c, w.calls[i]? = some c ∧ c.result? = some (.ok, w.now)) ∧
    ∀ t ∈ targets, ∃ h, w.holding? k (Targeted.reference t) = some h ∧ h.active

/-- An endless run that is favourable to all attempts of a call, and in which it is closed
again and again. -/
structure FavoursCall (env : Collaborators C T) (i : Nat) (w : World C T) (ms : Nat → Move C T) :
    Prop where
  attempts : ∀ j, (w.attempt? i j).isSome → w.Favours env i j ms
  closes : ∀ n, ∃ m, n ≤ m ∧ ms m = .close i
  ordinary : ∀ n, (ms n).isOrdinary

/-! ## Known references -/

section Known

variable {env : Collaborators C T} {w : World C T} {i j : Nat} {t : Attempt T}

/-- The first look at an attempt for a known reference ends it. -/
theorem Has.look_known (env : Collaborators C T) (ht : w.Has i j t) (hfresh : t.stage = .fresh)
    {c : Call C T} (hc : w.calls[i]? = some c) {h : Holding}
    (hh : w.holding? c.activator t.reference = some h) :
    ∃ u, (w.look env i j).Has i j u ∧ u.target = t.target ∧ u.isDone ∧ u.cause? = none := by
  obtain ⟨c', a, as, hf, hs, hj⟩ := ht
  obtain ⟨hc', ha⟩ := find?_eq_some.1 hf
  obtain rfl : c = c' := Option.some.inj (hc.symm.trans hc')
  rw [holding?_eq ha] at hh
  have hstage : (t.look env (context a i c) (w.site a)).1.stage = .done none w.now := by
    rw [Attempt.look_stage, Attempt.poll, hfresh]
    dsimp only [World.site]
    rw [hh]
    rfl
  rw [look_eq_put hf hs hj]
  refine ⟨_, ⟨_, _, _, find?_put hf, rfl,
    List.getElem?_set_self (List.getElem?_eq_some_iff.1 hj).1⟩,
    Attempt.Steps.target_eq (Attempt.look_steps ..), ?_, ?_⟩
  · rw [Attempt.isDone, hstage]
  · rw [Attempt.cause?, hstage]

/-- An attempt for a known reference comes to its end, and well. -/
theorem Fair.known_ends {ms : Nat → Move C T} (hfair : w.Fair env i j ms)
    {found : ResourceReference → Option Holding} {k : Nat} {targets : List T}
    (hw : w.Serving found i k targets) (ht : w.Has i j t) (hfresh : t.stage = .fresh)
    {h : Holding} (hfound : found t.reference = some h) :
    ∃ n u, (w.along env ms n).attempt? i j = some u ∧ u.target = t.target ∧ u.isDone ∧
      u.cause? = none := by
  have hzero : (w.along env ms 0).Has i j t := ht
  obtain ⟨m, -, hlook, hm⟩ := hfair.next hzero (by simp [Attempt.isDone, hfresh])
  have hserving : (w.along env ms m).Serving found i k targets := serving_play _ hw
  obtain ⟨c, a, as, hf, hs, hj⟩ := hm
  have hkeeps := hserving.attempt_keeps hf hs (List.mem_of_getElem? hj)
  rw [Attempt.Keeps, hfresh] at hkeeps
  have hholding := (holding?_eq (find?_eq_some.1 hf).2 t.reference).trans (hkeeps.trans hfound)
  obtain ⟨u, ⟨c', a', as', hf', hs', hj'⟩, htarget, hdone, hcause⟩ :=
    Has.look_known env ⟨c, a, as, hf, hs, hj⟩ hfresh (find?_eq_some.1 hf).1 hholding
  refine ⟨m + 1, u, ?_, htarget, hdone, hcause⟩
  rw [along_succ, hlook]
  exact (attempt?_of_working hf' hs' j).trans hj'

end Known

/-! ## A call from its turn to its end -/

/-- The collaborators welcome whatever a call in turn finds no controller for. -/
def Welcomed (env : Collaborators C T) (w : World C T) (i : Nat) : Prop :=
  ∀ c a, w.find? i = some (c, a) → ∀ j t, (distinctTargets c.targets)[j]? = some t →
    w.holding? c.activator (Targeted.reference t) = none →
      ∃ misses, env.Welcomes (w.errand i j c a t) misses

theorem welcomed_of_one {env : Collaborators C T} {w : World C T} {i misses : Nat} {c : Call C T}
    {a : Activator} {t : T} (hf : w.find? i = some (c, a)) (ht : distinctTargets c.targets = [t])
    (h : env.Welcomes (w.errand i 0 c a t) misses) : w.Welcomed env i := by
  intro c' a' hf' j u hj _
  obtain ⟨rfl, rfl⟩ := Prod.mk.inj (Option.some.inj (hf.symm.trans hf'))
  rw [ht] at hj
  obtain ⟨rfl, rfl⟩ : 0 = j ∧ t = u := by
    cases j with
    | zero => exact ⟨rfl, Option.some.inj hj⟩
    | succ j => cases hj
  exact ⟨misses, h⟩

omit [Targeted T] in
/-- What is in line and has begun is at work. -/
theorem exists_working {w : World C T} {i : Nat} {c : Call C T} (hc : w.calls[i]? = some c)
    (hl : w.isInLine i) (hb : w.hasBegun i) : ∃ as, c.stage = .working as := by
  cases hs : c.stage <;>
    simp [World.isInLine, World.hasBegun, hc, Call.isInLine, Call.hasBegun, hs] at hl hb ⊢

/-- A call is at work. -/
def Works (w : World C T) (i : Nat) : Prop :=
  ∃ c a as, w.find? i = some (c, a) ∧ c.stage = .working as

/-- A call at work is so until it is closed or dropped. -/
theorem Step.works {env : Collaborators C T} {m : Move C T} {w w' : World C T} {i : Nat}
    (h : Step env m w w') (hw : w.Works i) (hclose : m ≠ .close i) (hdrop : m ≠ .drop i) :
    w'.Works i := by
  obtain ⟨c, a, as, hf, hs⟩ := hw
  have hc := (find?_eq_some.1 hf).1
  have hl : w.isInLine i := isInLine_iff.2 ⟨c, hc, by simp [Call.isInLine, hs]⟩
  have hb : w.hasBegun i := (Option.any_eq_true ..).2 ⟨c, hc, by simp [Call.hasBegun, hs]⟩
  obtain ⟨c', a', hf', -⟩ := h.find?_kept hf
  have hl' : w'.isInLine i :=
    (h.isInLine hl).resolve_right (not_or.2 ⟨hclose, hdrop⟩)
  obtain ⟨as', hs'⟩ := exists_working (find?_eq_some.1 hf').1 hl' (h.hasBegun hb)
  exact ⟨c', a', as', hf', hs'⟩

section FavoursCall

variable {env : Collaborators C T} {w : World C T} {i : Nat} {c : Call C T} {a : Activator}
  {ms : Nat → Move C T} (hw : w.Tidy) (hd : env.KeepsNames) (hfind : w.find? i = some (c, a))
  (hq : c.stage = .queued) (hh : a.queue.head? = some i) (henv : w.Welcomed env i)
  (hms : (w.begin i).FavoursCall env i ms)

include hw hd hfind hq hh henv hms

/-- Every attempt of the call ends well at some time. -/
theorem FavoursCall.attempt_ends {j : Nat} {t : T}
    (hplace : (distinctTargets c.targets)[j]? = some t) :
    ∃ n, ∀ m, n ≤ m → ((w.begin i).along env ms m).EndsWell (w.errand i j c a t) := by
  obtain ⟨b, hbegun⟩ := find?_begin hfind hq hh
  have hget : ((distinctTargets c.targets).map Attempt.begin)[j]? = some (.begin t) := by
    rw [List.getElem?_map, hplace]
    rfl
  have hhas : (w.begin i).Has i j (.begin t) := ⟨_, b, _, hbegun, rfl, hget⟩
  have hfavours : (w.begin i).Favours env i j ms :=
    hms.attempts j (by rw [attempt?_of_working hbegun rfl, hget]; rfl)
  cases hfound : w.holding? c.activator (Targeted.reference t) with
  | none =>
      obtain ⟨misses, hwelcomes⟩ := henv c a hfind j t hplace hfound
      exact hfavours.stays hwelcomes hd (hw.ground_begin hd hfind hq hh hplace)
        (hw.fares_begin hd hfind hq hh hplace hfound misses) hhas
  | some h =>
      rw [holding?_eq (find?_eq_some.1 hfind).2] at hfound
      obtain ⟨n, u, hu, htarget, hdone, hcause⟩ :=
        hfavours.fair.known_ends (serving_begin env hw.orderly hfind hq hh) hhas rfl hfound
      exact ⟨n, fun m hm => endsWell_along hms.ordinary hm ⟨u, hu, htarget, hdone, hcause⟩⟩

/-- All of them have at some time. -/
theorem FavoursCall.attempts_end :
    ∃ n, ∀ m, n ≤ m → ∀ j t, (distinctTargets c.targets)[j]? = some t →
      ((w.begin i).along env ms m).EndsWell (w.errand i j c a t) := by
  have hall : ∀ᶠ m in Filter.atTop, ∀ j : Fin (distinctTargets c.targets).length,
      ((w.begin i).along env ms m).EndsWell (w.errand i j c a (distinctTargets c.targets)[j]) := by
    refine Filter.eventually_all.2 fun j => Filter.eventually_atTop.2 ?_
    exact hms.attempt_ends hw hd hfind hq hh henv (List.getElem?_eq_getElem j.isLt)
  obtain ⟨n, hn⟩ := Filter.eventually_atTop.1 hall
  refine ⟨n, fun m hm j t hj => ?_⟩
  obtain ⟨hlt, rfl⟩ := List.getElem?_eq_some_iff.1 hj
  exact hn m hm ⟨j, hlt⟩

/-- An attempt that is done has an active controller. -/
theorem FavoursCall.attempt_active {n : Nat} {d : Call C T} {b : Activator}
    {as : List (Attempt T)} (hf : ((w.begin i).along env ms n).find? i = some (d, b))
    (hs : d.stage = .working as) {u : Attempt T} (hu : u ∈ as) (hdone : u.isDone) :
    u.cause? = none ∧ ∃ h, b.store.get? u.reference = some h ∧ h.active := by
  have hserving : ((w.begin i).along env ms n).Serving a.store.get? i c.activator c.targets :=
    serving_play _ (serving_begin env hw.orderly hfind hq hh)
  rcases (hserving.attempt_keeps hf hs hu).of_isDone hdone with
    ⟨hcause, h, hget, hactive, -⟩ | ⟨hcause, hfound, -⟩
  · exact ⟨Option.isNone_iff_eq_none.1 hcause, h, hget, hactive⟩
  -- If it had failed it would have been for a reference that was not known.
  obtain ⟨j, hj⟩ := List.mem_iff_getElem?.1 hu
  have hplace := hserving.place hf hs hj
  have hnone : w.holding? c.activator (Targeted.reference u.target) = none :=
    (holding?_eq (find?_eq_some.1 hfind).2 _).trans hfound
  obtain ⟨misses, hwelcomes⟩ := henv c a hfind j u.target hplace hnone
  have hstart : ((w.begin i).attempt? i j).isSome := by
    obtain ⟨_, hbegun⟩ := find?_begin hfind hq hh
    rw [attempt?_of_working hbegun rfl, List.getElem?_map, hplace]
    rfl
  obtain ⟨_, ⟨u', hu', -, -, hcause'⟩, -⟩ :=
    (hms.attempts j hstart).obtained hwelcomes hd (hw.ground_begin hd hfind hq hh hplace)
      (hw.fares_begin hd hfind hq hh hplace hnone misses) ⟨d, b, as, hf, hs, hj⟩ hdone
  obtain rfl : u = u' :=
    Option.some.inj ((attempt?_of_working hf hs j).trans hj |>.symm.trans hu')
  rw [hcause'] at hcause
  cases hcause

/-- Closed when its attempts are done, the call has got what it was for. -/
theorem FavoursCall.close_returnsWell {n : Nat}
    (hsettled : ((w.begin i).along env ms n).isSettled i) :
    (((w.begin i).along env ms n).close i).ReturnsWell i c.activator c.targets := by
  obtain ⟨d, b, as, hf, hs, hall⟩ := isSettled_iff.1 hsettled
  have hactive := fun u hu =>
    hms.attempt_active hw hd hfind hq hh henv hf hs (u := u) hu (List.all_eq_true.1 hall u hu)
  have hserving : ((w.begin i).along env ms n).Serving a.store.get? i c.activator c.targets :=
    serving_play _ (serving_begin env hw.orderly hfind hq hh)
  obtain ⟨hk, hcovers⟩ := hserving.covers hf hs
  generalize (w.begin i).along env ms n = v at *
  have hnow : (v.close i).now = v.now := by
    rw [close_eq_closed hf hs hall]
    unfold closed
    dsimp only
    split <;> rfl
  have hclosed : (v.close i).find? i =
      some ({ d with stage := .ended as v.now }, { b with queue := b.queue.erase i }) := by
    rw [close_eq_closed hf hs hall, find?_closed, hf]
    simp
  obtain ⟨hcall, hactivator⟩ := find?_eq_some.1 hclosed
  refine ⟨⟨_, hcall, ?_⟩, fun t ht => ?_⟩
  · have hcauses : as.filterMap Attempt.cause? = [] :=
      List.filterMap_eq_nil_iff.2 fun u hu => (hactive u hu).1
    simp [Call.result?, Call.causes, Call.attempts, hcauses, hnow]
  · obtain ⟨u, hu, hr⟩ := (mem_references_iff hcovers).1 (List.mem_map_of_mem ht)
    rw [← hr, holding?_eq (hk ▸ hactivator)]
    exact (hactive u hu).2

/-- Wherever the run has come to, the call is at work, or has returned by some time. -/
theorem FavoursCall.works_or_returned (n : Nat) : ((w.begin i).along env ms n).Works i ∨
    ∃ m, ((w.begin i).along env ms m).ReturnsWell i c.activator c.targets := by
  induction n with
  | zero =>
      obtain ⟨b, hbegun⟩ := find?_begin hfind hq hh
      exact .inl ⟨_, b, _, hbegun, rfl⟩
  | succ n ih =>
      rcases ih with hworks | h
      · by_cases hclose : ms n = .close i
        · cases hsettled : ((w.begin i).along env ms n).isSettled i with
          | true =>
              refine .inr ⟨n + 1, ?_⟩
              rw [along_succ, hclose]
              exact hms.close_returnsWell hw hd hfind hq hh henv hsettled
          | false =>
              refine .inl ?_
              rw [along_succ, hclose, World.move, close_eq_self hsettled]
              exact hworks
        · refine .inl ?_
          rw [along_succ]
          exact invariant_of_move (P := fun v => v.Works i) (fun h hv =>
            h.works hv hclose (ne_drop_of_isOrdinary (hms.ordinary n) i)) hworks
      · exact .inr h

/-- A favoured call returns without a cause, with all of its targets active. -/
theorem FavoursCall.returns :
    ∃ n, ((w.begin i).along env ms n).ReturnsWell i c.activator c.targets := by
  obtain ⟨n, hn⟩ := hms.attempts_end hw hd hfind hq hh henv
  obtain ⟨m, hm, hclose⟩ := hms.closes n
  rcases hms.works_or_returned hw hd hfind hq hh henv m with ⟨d, b, as, hf, hs⟩ | h
  · refine ⟨m + 1, ?_⟩
    rw [along_succ, hclose]
    refine hms.close_returnsWell hw hd hfind hq hh henv (isSettled_iff.2 ⟨d, b, as, hf, hs, ?_⟩)
    have hserving : ((w.begin i).along env ms m).Serving a.store.get? i c.activator c.targets :=
      serving_play _ (serving_begin env hw.orderly hfind hq hh)
    refine List.all_eq_true.2 fun u hu => ?_
    obtain ⟨j, hj⟩ := List.mem_iff_getElem?.1 hu
    obtain ⟨u', hu', -, hdone, -⟩ := hn m hm j u.target (hserving.place hf hs hj)
    obtain rfl : u = u' :=
      Option.some.inj ((attempt?_of_working hf hs j).trans hj |>.symm.trans hu')
    exact hdone
  · exact h

end FavoursCall

/-! ## A run that favours a call -/

/-- A settled call is over as soon as it is closed. -/
theorem isOver_of_close {w : World C T} {i : Nat} (h : w.isSettled i) :
    ∃ c a, (w.close i).find? i = some (c, a) ∧ c.isOver := by
  obtain ⟨c, a, as, hf, hs, hall⟩ := isSettled_iff.1 h
  rw [close_eq_closed hf hs hall, find?_closed, hf]
  exact ⟨_, _, rfl, by simp [Call.isOver]⟩

/-- Nothing is left to do for a call that is over. -/
theorem still_of_isOver (env : Collaborators C T) {w : World C T} {i : Nat} {c : Call C T}
    {a : Activator} (hf : w.find? i = some (c, a)) (ho : c.isOver) (j : Nat) :
    w.look env i j = w ∧ w.close i = w := by
  cases hs : c.stage <;> simp [Call.isOver, hs] at ho <;> simp [look, close, hf, hs]

/-- A call with one attempt is carried on: the attempt is looked at, the call is closed, and
the clock goes on. -/
def tending (i n : Nat) : Move C T :=
  if n % 3 = 0 then .look i 0 else if n % 3 = 1 then .close i else .advance n

omit [Targeted T] in
theorem isOrdinary_tending (i n : Nat) : (tending i n : Move C T).isOrdinary := by
  unfold tending
  split
  · rfl
  · split <;> rfl

/-- If the first look settles the call, only the clock moves after it is closed. -/
theorem along_tending {env : Collaborators C T} {w : World C T} {i : Nat}
    (h : (w.look env i 0).isSettled i) (n : Nat) : ∃ t, n ≤ t + (n + 2) % 3 ∧
      w.along env (tending i) (n + 2) = ((w.look env i 0).close i).advance t := by
  obtain ⟨c, a, hf, ho⟩ := isOver_of_close h
  induction n with
  | zero =>
      refine ⟨0, by omega, ?_⟩
      rw [advance, Nat.max_zero]
      rfl
  | succ n ih =>
      obtain ⟨t, ht, heq⟩ := ih
      have hf' : (((w.look env i 0).close i).advance t).find? i = some (c, a) := hf
      obtain ⟨hlook, hclose⟩ := still_of_isOver env hf' ho 0
      rw [along_succ, heq, tending]
      split
      · exact ⟨t, by omega, hlook⟩
      · split
        · exact ⟨t, by omega, hclose⟩
        · refine ⟨max t (n + 2), by omega, ?_⟩
          simp [move, advance, Nat.max_assoc]

theorem favoursCall_tending {env : Collaborators C T} {w : World C T} {i : Nat}
    (hone : (w.attempts i).length ≤ 1) (h : (w.look env i 0).isSettled i)
    (hapart : Trace.Apart ((w.look env i 0).close i).trace) (hw : w.isCancelled i = false)
    (hc : (w.look env i 0).isCancelled i = false) : w.FavoursCall env i (tending i) := by
  obtain ⟨c, a, hf, ho⟩ := isOver_of_close h
  have hafter := along_tending h
  -- From the second move on the call is over.
  have hover : ∀ n, ∃ t, w.along env (tending i) (n + 2) =
      ((w.look env i 0).close i).advance t ∧
      (w.along env (tending i) (n + 2)).find? i = some (c, a) := by
    intro n
    obtain ⟨t, -, heq⟩ := hafter n
    exact ⟨t, heq, by rw [heq]; exact hf⟩
  refine ⟨fun j hj => ?_, fun n => ⟨3 * n + 1, by omega, ?_⟩, isOrdinary_tending i⟩
  · obtain rfl : j = 0 := by
      have hlt := (List.getElem?_eq_some_iff.1 (Option.isSome_iff_exists.1 hj).choose_spec).1
      omega
    refine ⟨⟨fun n => ⟨3 * n, by omega, by simp [tending]⟩, fun n t => ?_, fun n => ?_⟩,
      fun n time hm u hu s _ _ => ?_, isOrdinary_tending i, fun n => ?_, fun n d hd hnot => ?_⟩
    · obtain ⟨t', ht', heq⟩ := hafter (max n (t + 2))
      refine ⟨max n (t + 2) + 2, by omega, ?_⟩
      rw [heq]
      have hle : t ≤ t' := by omega
      exact Nat.le_trans hle (Nat.le_max_right ..)
    · exact ne_drop_of_isOrdinary (isOrdinary_tending i n) i
    · rcases n with _ | _ | n
      · cases hm
      · cases hm
      · obtain ⟨-, -, hf'⟩ := hover n
        obtain ⟨d, b, as, hfd, hs, -⟩ := hu
        rw [hf'] at hfd
        cases hfd
        simp [Call.isOver, hs] at ho
    · rcases n with _ | _ | n
      · exact hapart.of_suffix ((trace_suffix_move env w (.look i 0)).trans
          (trace_suffix_move env _ (.close i)))
      · exact hapart.of_suffix (trace_suffix_move env _ (.close i))
      · obtain ⟨t, heq, -⟩ := hover n
        rw [heq]
        exact hapart
    · rcases n with _ | _ | n
      · exact hw
      · exact hc
      · obtain ⟨-, -, hf'⟩ := hover n
        rw [(find?_eq_some.1 hf').1] at hd
        cases hd
        rw [ho] at hnot
        cases hnot
  · have hmod : (3 * n + 1) % 3 = 1 := by omega
    simp [tending, hmod]

end World

end Lifecycle
