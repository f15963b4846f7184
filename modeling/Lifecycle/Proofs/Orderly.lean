import Mathlib.Data.List.Nodup
import Lifecycle.Proofs.WorldSteps

/-!
# Order in the world

Three things hold after any moves, and everything that is said about one call
and the store of its activator rests on them. A call at work stands first in
the queue, so at most one call of an activator is at work and nobody else
touches the store meanwhile; a call has one attempt for each distinct target;
and no store has two controllers for one reference.

The queue loses a call only when that call is over, and a call that leaves from
behind the first one leaves the first one where it is: in the first part these
are the cases with anything in them.
-/

namespace Lifecycle

variable {C T : Type}

theorem head?_erase_of_ne {l : List Nat} {i j : Nat} (h : l.head? = some j) (hij : i ≠ j) :
    (l.erase i).head? = some j := by
  cases l with
  | nil => cases h
  | cons x xs =>
      cases h
      rw [List.erase_cons_tail (by simpa using Ne.symm hij)]
      rfl

/-- Where no key occurs twice, a key finds the one element that has it. -/
theorem find?_key_eq_some_iff {α β : Type} [DecidableEq β] {key : α → β} {l : List α}
    (hl : (l.map key).Nodup) {r : β} {x : α} :
    (l.find? fun y => key y = r) = some x ↔ x ∈ l ∧ key x = r := by
  constructor
  · exact fun h => ⟨List.mem_of_find?_eq_some h, by simpa using List.find?_some h⟩
  · rintro ⟨hx, rfl⟩
    cases h : l.find? fun y => key y = key x with
    | none => exact absurd (decide_eq_true rfl) (List.find?_eq_none.1 h x hx)
    | some y =>
        have hy : key y = key x := by simpa using List.find?_some h
        rw [List.inj_on_of_nodup_map hl (List.mem_of_find?_eq_some h) hx hy]

/-- Where no key occurs twice, only one element of a key can be picked. -/
theorem filterMap_key {α β γ : Type} [DecidableEq β] {key : α → β} {l : List α}
    (hl : (l.map key).Nodup) (f : α → Option γ) (r : β) :
    l.filterMap (fun x => if key x = r then f x else none) =
      ((l.find? fun x => key x = r).bind f).toList := by
  induction l with
  | nil => rfl
  | cons x xs ih =>
      obtain ⟨hx, hxs⟩ := List.nodup_cons.1 hl
      by_cases hr : key x = r
      · subst hr
        have hnone : xs.filterMap (fun y => if key y = key x then f y else none) = [] := by
          rw [List.filterMap_eq_nil_iff]
          exact fun y hy => if_neg fun h : key y = key x => hx (h ▸ List.mem_map_of_mem hy)
        cases hf : f x <;> simp [hf, hnone]
      · simpa [hr] using ih hxs

/-! ## Stores -/

namespace Store

/-- No reference has two controllers. -/
def Simple (s : Store) : Prop := (s.map Holding.reference).Nodup

theorem map_reference_adjust {r : ResourceReference} {f : Holding → Holding}
    (hf : ∀ h, h.reference = r → (f h).reference = r) (s : Store) :
    (s.adjust r f).map Holding.reference = s.map Holding.reference := by
  rw [adjust, List.map_map]
  refine List.map_congr_left fun h _ => ?_
  dsimp only [Function.comp_apply]
  split
  · next hr => rw [hf h hr, hr]
  · rfl

theorem map_reference_retire (s : Store) (wanted : List ResourceReference) :
    (s.retire wanted).map Holding.reference = s.map Holding.reference := by
  rw [retire, List.map_map]
  refine List.map_congr_left fun h _ => ?_
  dsimp only [Function.comp_apply]
  split <;> rfl

theorem get?_eq_none_iff {s : Store} {r : ResourceReference} :
    s.get? r = none ↔ r ∉ s.map Holding.reference := by
  simp [get?, List.find?_eq_none]

theorem get?_eq_some_iff {s : Store} (hs : s.Simple) {r : ResourceReference} {h : Holding} :
    s.get? r = some h ↔ h ∈ s ∧ h.reference = r := find?_key_eq_some_iff hs

theorem Simple.activate {s : Store} (hs : s.Simple) (r : ResourceReference) :
    (s.activate r).Simple := by
  rw [Simple, Store.activate,
    map_reference_adjust (f := fun h => { h with active := true }) fun _ h => h]
  exact hs

theorem Simple.retire {s : Store} (hs : s.Simple) (wanted : List ResourceReference) :
    (s.retire wanted).Simple := by
  rw [Simple, map_reference_retire]
  exact hs

theorem Simple.install {s : Store} (hs : s.Simple) (r : ResourceReference) (c : String) :
    (s.install r c).Simple := by
  rw [Simple, Store.install]
  split
  · rw [map_reference_adjust (f := fun _ => ⟨r, c, true⟩) fun _ _ => rfl]
    exact hs
  · next hn =>
      rw [Option.not_isSome_iff_eq_none, get?_eq_none_iff] at hn
      rw [List.map_append, List.nodup_append]
      refine ⟨hs, by simp, ?_⟩
      rintro q hq q' hq' rfl
      rw [List.map_singleton, List.mem_singleton] at hq'
      subst hq'
      exact hn hq

end Store

/-! ## The order of the world -/

/-- The attempts of a call are for its distinct targets. -/
def Call.Covers [Targeted T] (c : Call C T) : Prop :=
  ∀ as, c.stage = .working as ∨ (∃ t, c.stage = .ended as t) →
    as.map Attempt.target = distinctTargets c.targets

namespace World

variable [Targeted T]

structure Orderly (w : World C T) : Prop where
  /-- Every call at work stands first in the queue of its activator. -/
  inTurn : ∀ i c a as, w.find? i = some (c, a) → c.stage = .working as → a.queue.head? = some i
  covers : ∀ c ∈ w.calls, c.Covers
  simple : ∀ a ∈ w.activators, a.store.Simple

theorem orderly_ofActivators (as : List (String × Policy)) :
    (ofActivators as : World C T).Orderly := by
  refine ⟨fun i c a _ h => ?_, fun c hc => ?_, fun a ha => ?_⟩
  · exact absurd (find?_eq_some.1 h).1 (by simp [ofActivators, start])
  · simp [ofActivators, start] at hc
  · obtain ⟨p, -, rfl⟩ := List.mem_map.1 ha
    exact List.nodup_nil

/-! ### The queue -/

/-- A call that is over leaves the queue, and the one at work stays first. -/
theorem head?_of_erase {w : World C T} (hw : w.Orderly) {i j k : Nat} {st : CallStage T}
    {d : Call C T} {b : Activator} {bs : List (Attempt T)} (hj : w.find? j = some (d, b))
    (hd : (if i = j then { d with stage := st } else d).stage = .working bs)
    (hst : st ≠ .working bs) :
    (if k = d.activator then { b with queue := b.queue.erase i } else b).queue.head? =
      some j := by
  by_cases hij : i = j
  · rw [if_pos hij] at hd
    exact absurd hd hst
  · rw [if_neg hij] at hd
    have hhead := hw.inTurn j d b bs hj hd
    split
    · exact head?_erase_of_ne hhead hij
    · exact hhead

theorem inTurn_step {env : Collaborators C T} {m : Move C T} {w w' : World C T}
    (h : Step env m w w') (hw : w.Orderly) :
    ∀ i c a as, w'.find? i = some (c, a) → c.stage = .working as → a.queue.head? = some i := by
  intro j d b bs hj hd
  have hback := h.background
  cases h with
  | submit hq =>
      rcases find?_submit hj with h | h
      · exact hw.inTurn j d b bs h hd
      · obtain ⟨r, -, rfl⟩ := List.mem_map.1 h
        cases hd
  | @join _ i c a hf hs =>
      simp only [find?_setStage, find?_setQueue, Option.map_map, Option.map_eq_some_iff,
        Prod.exists, Function.comp_apply, Prod.mk.injEq] at hj
      obtain ⟨d, b, hj, rfl, rfl⟩ := hj
      by_cases hij : i = j
      · rw [if_pos hij] at hd
        cases hd
      · rw [if_neg hij] at hd
        have hhead := hw.inTurn j d b bs hj hd
        split
        · rw [List.head?_append, hhead]
          rfl
        · exact hhead
  | @begin _ i c a hf hs hh =>
      simp only [find?_begun, Option.map_eq_some_iff, Prod.exists, Prod.mk.injEq] at hj
      obtain ⟨d, b, hj, rfl, rfl⟩ := hj
      have hhead : b.queue.head? = some j := by
        by_cases hij : i = j
        · subst hij
          rw [hf] at hj
          cases hj
          exact hh
        · rw [if_neg hij] at hd
          exact hw.inTurn j d b bs hj hd
      split <;> exact hhead
  | @look _ i _ c a as _ p hf hs ht hp =>
      simp only [put, find?_setStage, find?_withSite, Option.map_map, Option.map_eq_some_iff,
        Prod.exists, Function.comp_apply, Prod.mk.injEq] at hj
      obtain ⟨d, b, hj, rfl, rfl⟩ := hj
      have hhead : b.queue.head? = some j := by
        by_cases hij : i = j
        · subst hij
          rw [hf] at hj
          cases hj
          exact hw.inTurn i c a as hf hs
        · rw [if_neg hij] at hd
          exact hw.inTurn j d b bs hj hd
      split <;> exact hhead
  | @close _ i c a as hf hs hall =>
      simp only [find?_closed, Option.map_eq_some_iff, Prod.exists, Prod.mk.injEq] at hj
      obtain ⟨d, b, hj, rfl, rfl⟩ := hj
      exact head?_of_erase hw hj hd (by simp)
  | @cancel _ i =>
      simp only [find?_cancel, Option.map_eq_some_iff, Prod.exists, Prod.mk.injEq] at hj
      obtain ⟨d, b, hj, rfl, rfl⟩ := hj
      refine hw.inTurn j d b bs hj ?_
      split at hd <;> exact hd
  | @drop _ i c hc ho =>
      simp only [find?_leave, Option.map_eq_some_iff, Prod.exists, Prod.mk.injEq] at hj
      obtain ⟨d, b, hj, rfl, rfl⟩ := hj
      exact head?_of_erase hw hj hd (by simp)
  | _ =>
      obtain ⟨hc, ha, -⟩ := hback rfl
      rw [find?_congr hc ha] at hj
      exact hw.inTurn j d b bs hj hd

/-! ### The attempts -/

theorem covers_modify {w : World C T} (hw : w.Orderly) {i : Nat} {f : Call C T → Call C T}
    (hf : ∀ c, w.calls[i]? = some c → c.Covers → (f c).Covers) :
    ∀ c ∈ w.calls.modify i f, c.Covers :=
  forall_mem_modify hw.covers fun c hc => hf c hc (hw.covers c (List.mem_of_getElem? hc))

theorem covers_step {env : Collaborators C T} {m : Move C T} {w w' : World C T}
    (h : Step env m w w') (hw : w.Orderly) : ∀ c ∈ w'.calls, c.Covers := by
  have hback := h.background
  cases h with
  | submit hq =>
      intro c hc
      rcases List.mem_append.1 hc with hc | hc
      · exact hw.covers c hc
      · obtain ⟨r, -, rfl⟩ := List.mem_map.1 hc
        rintro as (h | ⟨t, h⟩) <;> cases h
  | join hf hs =>
      refine covers_modify hw fun c _ _ => ?_
      rintro as (h | ⟨t, h⟩) <;> cases h
  | @begin _ i c a hf hs hh =>
      refine covers_modify hw fun d hd _ => ?_
      rw [(find?_eq_some.1 hf).1] at hd
      cases hd
      rintro as (h | ⟨t, h⟩) <;> cases h
      rw [beginWork_eq, List.map_map]
      exact List.map_id _
  | @look _ i j c a as t p hf hs ht hp =>
      refine covers_modify hw fun d hd hcov => ?_
      rw [(find?_eq_some.1 hf).1] at hd
      cases hd
      rintro as (h | ⟨t, h⟩) <;> cases h
      have htarget := hp.target_eq
      rw [List.map_set, ← hcov as (.inl hs)]
      exact set_eq_self (by simp [ht, htarget])
  | @close _ i c a as hf hs hall =>
      rw [closed_calls]
      refine covers_modify hw fun d hd hcov => ?_
      rw [(find?_eq_some.1 hf).1] at hd
      cases hd
      rintro bs (h | ⟨t, h⟩) <;> cases h
      exact hcov as (.inl hs)
  | cancel => exact covers_modify hw fun c _ hcov => hcov
  | drop hc ho =>
      refine covers_modify hw fun c _ _ => ?_
      rintro as (h | ⟨t, h⟩) <;> cases h
  | _ =>
      obtain ⟨hc, -, -⟩ := hback rfl
      rw [hc]
      exact hw.covers

/-! ### The stores -/

theorem simple_modify {w : World C T} (hw : w.Orderly) {k : Nat} {f : Activator → Activator}
    (hf : ∀ a, a.store.Simple → (f a).store.Simple) :
    ∀ a ∈ w.activators.modify k f, a.store.Simple :=
  forall_mem_modify hw.simple fun a ha => hf a (hw.simple a (List.mem_of_getElem? ha))

theorem simple_step {env : Collaborators C T} {m : Move C T} {w w' : World C T}
    (h : Step env m w w') (hw : w.Orderly) : ∀ a ∈ w'.activators, a.store.Simple := by
  have hback := h.background
  cases h with
  | submit => exact hw.simple
  | join => exact simple_modify hw fun _ h => h
  | begin hf =>
      refine simple_modify hw fun _ _ => ?_
      rw [beginWork_eq]
      exact (hw.simple _ (List.mem_of_getElem? (find?_eq_some.1 hf).2)).retire _
  | @look _ _ _ _ a _ _ _ hf _ _ hp =>
      refine simple_modify hw fun _ _ => ?_
      have ha : a.store.Simple := hw.simple a (List.mem_of_getElem? (find?_eq_some.1 hf).2)
      rcases hp.store_cases with h | h | ⟨c, h⟩ <;> rw [h]
      · exact ha
      · exact ha.activate _
      · exact ha.install _ c
  | close =>
      unfold closed
      dsimp only
      split <;> exact simple_modify hw fun _ h => h
  | cancel => exact hw.simple
  | drop => exact simple_modify hw fun _ h => h
  | _ =>
      obtain ⟨-, ha, -⟩ := hback rfl
      rw [ha]
      exact hw.simple

/-! ### Every run -/

theorem orderly_step {env : Collaborators C T} {m : Move C T} {w w' : World C T}
    (h : Step env m w w') (hw : w.Orderly) : w'.Orderly :=
  ⟨inTurn_step h hw, covers_step h hw, simple_step h hw⟩

theorem orderly_play {env : Collaborators C T} {w : World C T} (ms : List (Move C T))
    (hw : w.Orderly) : (w.play env ms).Orderly :=
  invariant_of_play (P := Orderly) (A := fun _ => True) (fun _ => orderly_step)
    (fun _ _ => trivial) hw

/-- What every step of the allowed moves keeps in an orderly world holds after
every run of such moves. -/
theorem invariant_of_orderly {env : Collaborators C T} {P : World C T → Prop}
    {A : Move C T → Prop}
    (hstep : ∀ {m w w'}, A m → Step env m w w' → w.Orderly → P w → P w') {ms : List (Move C T)}
    (hms : ∀ m ∈ ms, A m) {w : World C T} (hw : w.Orderly) (hP : P w) : P (w.play env ms) :=
  (invariant_of_play (P := fun w => w.Orderly ∧ P w)
    (fun hm hs h => ⟨orderly_step hs h.1, hstep hm hs h.1 h.2⟩) hms ⟨hw, hP⟩).2

theorem Reachable.play {env : Collaborators C T} {as : List (String × Policy)} {w : World C T}
    (h : Reachable env as w) (ms : List (Move C T)) : Reachable env as (w.play env ms) := by
  obtain ⟨ms', rfl⟩ := h
  exact ⟨ms' ++ ms, (play_append ..).symm⟩

theorem Reachable.orderly {env : Collaborators C T} {as : List (String × Policy)}
    {w : World C T} (h : Reachable env as w) : w.Orderly := by
  obtain ⟨ms, rfl⟩ := h
  exact orderly_play ms (orderly_ofActivators as)

end World

end Lifecycle
