import Lifecycle.Proofs.Entries
import Lifecycle.Proofs.Tenure

/-!
# Which loops a shutdown waits for

A shutdown that returns leaves an empty table, but that does not say that the loops have
ended. A name is struck out before its loop has come to its end: by an abort, which does
not wait at all, and by a shutdown, which waits for it, but only for the loops that it has
taken itself. So a second shutdown that begins meanwhile finds a shorter list, and it may
return while the first one still waits.

`Accounted` keeps the books: a loop that has not ended is held under its name, or it was
told to end by an abort, or a shutdown waits for it. When the table is empty the first of
these is gone, and `all_ended_iff` is what is left. A shutdown that has no other one beside
it and comes after no abort does wait for every loop, which is `all_ended_of_alone`.
-/

namespace Lifecycle.Registry

/-- Whether a shutdown waits for a loop, or did so when it was dropped. -/
def Course.awaits (i : Nat) : Course → Bool
  | .underWay s | .dropped s => s.joining.any (·.2 = i)
  | .returned => false

namespace Session

/-- Where a loop is to be found that has not ended. -/
def Accounted (s : Session) (i : Nat) (l : Loop) : Prop :=
  l.isEnded ∨ (l.state = .condemned ∧ ∃ name, .aborted name ∈ s.past) ∨
    (∃ name, (name, i) ∈ s.registry.held) ∨ ∃ c ∈ s.shutdowns, c.awaits i

/-- Every loop is accounted for. -/
def Balanced (s : Session) : Prop :=
  ∀ i l, s.registry.loops[i]? = some l → s.Accounted i l

variable {s : Session}

theorem Accounted.mono {s' : Session} {i : Nat} {l : Loop} (h : s.Accounted i l)
    (hpast : s.past ⊆ s'.past)
    (hheld : ∀ name, (name, i) ∈ s.registry.held → (name, i) ∈ s'.registry.held)
    (hcourse : ∀ c ∈ s.shutdowns, c.awaits i → ∃ c' ∈ s'.shutdowns, c'.awaits i) :
    s'.Accounted i l := by
  rcases h with h | ⟨h, name, ha⟩ | ⟨name, hn⟩ | ⟨c, hc, hi⟩
  · exact .inl h
  · exact .inr (.inl ⟨h, name, hpast ha⟩)
  · exact .inr (.inr (.inl ⟨name, hheld name hn⟩))
  · exact .inr (.inr (.inr (hcourse c hc hi)))

theorem Balanced.spawn (h : s.Balanced) {name : String} {body : LoopBody} {r : Registry}
    (hs : s.registry.spawn name body = .ok r) :
    Balanced { s with registry := r, past := s.past ++ [.started name body] } := by
  obtain ⟨-, hheld, -⟩ := spawn_eq_ok hs
  intro i l hl
  rcases loop_of_spawn hs hl with hold | ⟨rfl, rfl⟩
  · exact (h i l hold).mono (List.subset_append_left ..)
      (fun n hn => hheld ▸ List.mem_append_left _ hn) fun c hc hi => ⟨c, hc, hi⟩
  · refine .inr (.inr (.inl ⟨name, ?_⟩))
    exact hheld ▸ List.mem_append_right _ (List.mem_singleton_self _)

theorem Balanced.abort (hk : s.Kept) (h : s.Balanced) {name : String} {r : Registry}
    (hs : s.registry.abort? name = some r) :
    Balanced { s with registry := r, past := s.past ++ [.aborted name] } := by
  have hheld : r.held = s.registry.held.filter (·.1 ≠ name) := (abort?_eq_some hs).1
  intro i l hl
  rcases loop_of_abort? hk.nodup hs hl with hover | ⟨hold, hnot⟩
  · rcases Loop.isOver_iff.1 hover with hended | hcondemned
    · exact .inl hended
    · refine .inr (.inl ⟨hcondemned, name, ?_⟩)
      exact List.mem_append_right _ (List.mem_singleton_self _)
  · refine (h i l hold).mono (List.subset_append_left ..) (fun n hn => ?_)
      fun c hc hi => ⟨c, hc, hi⟩
    refine hheld ▸ List.mem_filter.2 ⟨hn, decide_eq_true fun hname => hnot ?_⟩
    exact hname ▸ hn

theorem isEnded_of_joined? {r : Registry} {name : String} {i : Nat} {l : Loop}
    (h : (r.joined? name i).isSome) (hl : r.loops[i]? = some l) : l.isEnded := by
  unfold joined? at h
  rw [hl] at h
  unfold Loop.isEnded
  grind

theorem Balanced.turned (hkept : s.Kept) (h : s.Balanced) {sd : Shutdown} {sd' : Option Shutdown}
    {r : Registry} {gone rest : List String} {k : Nat}
    (hk : s.shutdowns[k]? = some (.underWay sd)) (hturned : sd.Turned s.registry r sd' gone rest)
    (past : List Deed) (hpast : s.past ⊆ past) :
    Balanced ⟨r, s.shutdowns.set k (sd'.elim .returned .underWay), past⟩ := by
  intro i l hl
  have hr := hturned.registry
  obtain ⟨hlt, -⟩ := List.getElem?_eq_some_iff.1 hk
  replace hl : s.registry.loops[i]? = some l := by
    rw [show s.registry.loops = r.loops by rw [hr]]
    exact hl
  -- What the shutdown waits for now is still waited for; what it went past has ended.
  have hmoves : ∀ name, (s.registry.joined? name i).isSome ∨
      sd'.bind Shutdown.joining = some (name, i) →
      Accounted ⟨r, s.shutdowns.set k (sd'.elim .returned .underWay), past⟩ i l := by
    rintro name (hended | hjoining)
    · exact .inl (isEnded_of_joined? hended hl)
    · obtain ⟨next, rfl, hnext⟩ := Option.bind_eq_some_iff.1 hjoining
      refine .inr (.inr (.inr ⟨.underWay next, List.mem_set hlt _, ?_⟩))
      simp [Course.awaits, hnext]
  rcases h i l hl with hended | ⟨hcondemned, name, ha⟩ | ⟨name, hn⟩ | ⟨c, hc, hi⟩
  · exact .inl hended
  · exact .inr (.inl ⟨hcondemned, name, hpast ha⟩)
  · by_cases hgone : name ∈ gone
    · exact hmoves name (hturned.taken name hgone i (lookup_of_mem hkept.nodup hn))
    · refine .inr (.inr (.inl ⟨name, ?_⟩))
      rw [hr]
      exact List.mem_filter.2 ⟨hn, decide_eq_true hgone⟩
  · obtain ⟨j, hj⟩ := List.mem_iff_getElem?.1 hc
    by_cases hjk : k = j
    · subst hjk
      obtain rfl := Option.some.inj (hj.symm.trans hk)
      obtain ⟨⟨name, i'⟩, hjoining, hi'⟩ := (Option.any_eq_true ..).1 hi
      obtain rfl : i' = i := of_decide_eq_true hi'
      exact hmoves name (hturned.awaited name i' hjoining)
    · refine .inr (.inr (.inr ⟨c, List.mem_iff_getElem?.2 ⟨j, ?_⟩, hi⟩))
      rw [List.getElem?_set_ne hjk]
      exact hj

theorem Balanced.step (hkept : s.Kept) (h : s.Balanced) (op : Operation) :
    Balanced (s.step op) := by
  cases op with
  | spawn name body =>
      rw [Session.step]
      split
      · exact h
      · next r hs => exact h.spawn hs
  | abort name =>
      rw [Session.step]
      split
      · exact h
      · next r hs => exact h.abort hkept hs
  | beginShutdown rank =>
      exact fun i l hl => (h i l hl).mono (List.subset_append_left ..) (fun _ => id)
        fun c hc hi => ⟨c, List.mem_append_left _ hc, hi⟩
  | turnShutdown k =>
      unfold Session.step
      dsimp only
      split
      · next sd hk =>
          obtain ⟨gone, rest, hturned⟩ := sd.exists_turned s.registry
          exact h.turned hkept hk hturned _ (List.subset_append_left ..)
      · exact h
  | dropShutdown k =>
      unfold Session.step
      dsimp only
      split
      · next sd hk =>
          intro i l hl
          refine (h i l hl).mono (List.Subset.refl _) (fun _ => id) fun c hc hi => ?_
          obtain ⟨hlt, -⟩ := List.getElem?_eq_some_iff.1 hk
          obtain ⟨j, hj⟩ := List.mem_iff_getElem?.1 hc
          by_cases hjk : k = j
          · subst hjk
            obtain rfl := Option.some.inj (hj.symm.trans hk)
            exact ⟨.dropped sd, List.mem_set hlt _, hi⟩
          · refine ⟨c, List.mem_iff_getElem?.2 ⟨j, ?_⟩, hi⟩
            rw [List.getElem?_set_ne hjk]
            exact hj
      · exact h
  | turnLoop j now =>
      intro i l hl
      change (s.registry.turnLoop j now).loops[i]? = some l at hl
      rw [turnLoop, List.getElem?_modify] at hl
      obtain ⟨l, hold, rfl⟩ := Option.map_eq_some_iff.1 hl
      by_cases hij : j = i
      · rw [if_pos hij]
        rcases h i l hold with hended | ⟨hcondemned, -⟩ | hrest
        · left
          unfold Loop.turn Loop.isEnded at *
          grind
        · left
          rw [Loop.turn, hcondemned]
          rfl
        · exact .inr (.inr hrest)
      · rw [if_neg hij]
        exact h i l hold

theorem balanced_after (ops : List Operation) : Balanced (after ops) := by
  have hrun : ∀ (ops : List Operation) {s : Session}, s.Kept → s.Balanced →
      Balanced (s.run ops) := by
    intro ops
    induction ops with
    | nil => exact fun _ h => h
    | cons op ops ih => exact fun hkept h => ih (hkept.step op) (h.step hkept op)
  exact hrun ops kept_new nofun

/-- When a shutdown has returned, every loop has ended but those that were aborted, or that
another shutdown waits for, and that are still on their way. -/
theorem all_ended_iff (ops : List Operation) (h : .returned ∈ (after ops).shutdowns) :
    (∀ l ∈ (after ops).registry.loops, l.isEnded) ↔
      (∀ l ∈ (after ops).registry.loops, l.state ≠ .condemned) ∧
        ∀ c ∈ (after ops).shutdowns, ∀ i l, c.awaits i →
          (after ops).registry.loops[i]? = some l → l.isEnded := by
  have hkept : (after ops).Kept := kept_new.run ops
  have hbalanced := balanced_after ops
  generalize after ops = s at *
  constructor
  · intro hall
    refine ⟨fun l hl hcondemned => ?_, fun _ _ i l _ hl => hall l (List.mem_of_getElem? hl)⟩
    have hended := hall l hl
    rw [Loop.isEnded, hcondemned] at hended
    cases hended
  · rintro ⟨hcondemned, hawaited⟩ l hl
    obtain ⟨i, hi⟩ := List.mem_iff_getElem?.1 hl
    rcases hbalanced i l hi with hended | ⟨hc, -⟩ | ⟨name, hn⟩ | ⟨c, hc, hci⟩
    · exact hended
    · exact (hcondemned l hl hc).elim
    · exact (hkept.empty h name (isRegistered_iff.2 (List.mem_map_of_mem hn))).elim
    · exact hawaited c hc i l hci hi

/-- A shutdown that is the only one, of a registry from which nothing was aborted, returns when
all loops have ended. -/
theorem all_ended_of_alone (ops : List Operation) (h : (after ops).shutdowns = [.returned])
    (ha : ∀ name, .aborted name ∉ (after ops).past) :
    ∀ l ∈ (after ops).registry.loops, l.isEnded := by
  have hreturned : Course.returned ∈ (after ops).shutdowns := by
    rw [h]
    exact List.mem_singleton_self _
  refine (all_ended_iff ops hreturned).2 ⟨fun l hl hcondemned => ?_, fun c hc i l hi _ => ?_⟩
  · obtain ⟨i, hi⟩ := List.mem_iff_getElem?.1 hl
    rcases balanced_after ops i l hi with hended | ⟨-, name, hn⟩ | ⟨name, hn⟩ | ⟨c, hc, hi⟩
    · rw [Loop.isEnded, hcondemned] at hended
      cases hended
    · exact ha name hn
    · exact (kept_new.run ops).empty hreturned name (isRegistered_iff.2 (List.mem_map_of_mem hn))
    · rw [h, List.mem_singleton] at hc
      subst hc
      cases hi
  · rw [h, List.mem_singleton] at hc
    subst hc
    cases hi

/-- Of two shutdowns the second returns while the first one waits for a loop that still runs. -/
theorem shutdown_overtakes :
    let s := after [.spawn "a" .forever, .turnLoop 0 0, .beginShutdown fun _ => 0,
      .turnShutdown 0, .beginShutdown fun _ => 0, .turnShutdown 1]
    s.shutdowns = [.underWay ⟨[], some ("a", 0)⟩, .returned] ∧
      s.registry.loops = [⟨"a", .forever, .running 0⟩] := by
  decide +kernel

/-- A shutdown does not wait for a loop that has just been aborted. -/
theorem shutdown_misses_aborted :
    let s := after [.spawn "a" .forever, .turnLoop 0 0, .abort "a", .beginShutdown fun _ => 0,
      .turnShutdown 0]
    s.shutdowns = [.returned] ∧ s.registry.loops = [⟨"a", .forever, .condemned⟩] := by
  decide +kernel

end Session

end Lifecycle.Registry
