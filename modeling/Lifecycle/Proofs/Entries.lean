import Lifecycle.Proofs.Loops

/-!
# Loops and their entries

A loop is found by its entry only, so one that went on without an entry could not be
stopped by anybody any more. There is none: whoever strikes an entry out tells the loop to
end in the same step, and a loop that was told to does nothing at its next turn but end
(`Loop.turn_of_isOver`). `Registry.Consistent` says so of every loop that was ever
started, and on the other hand that an entry is that of a loop which nobody told to end.

A shutdown strikes out first and waits for the loop afterwards, so its turns are left out
of the runs here; `Closing` has them.
-/

namespace Lifecycle

namespace Loop

/-- Whether a loop was told to end; it may not have had its turn since. -/
def isAborted (l : Loop) : Bool :=
  match l.state with
  | .condemned | .ended .aborted => true
  | _ => false

/-- Whether a loop has ended, or was told to. -/
def isOver (l : Loop) : Bool := l.isEnded || l.isAborted

theorem isOver_iff {l : Loop} : l.isOver ↔ l.isEnded ∨ l.state = .condemned := by
  rw [isOver, isAborted, isEnded]
  cases l.state with
  | ended how => simp
  | _ => simp

theorem isAborted_turn (closed : Bool) (now : Nat) (l : Loop) :
    (l.turn closed now).1.isAborted = l.isAborted := by
  unfold turn finish isAborted
  grind

/-- A loop that was told to end does nothing else any more. -/
theorem turn_of_isOver {l : Loop} (h : l.isOver) (closed : Bool) (now : Nat) :
    (l.turn closed now).1.isEnded ∧ (l.turn closed now).2 = none := by
  rcases isOver_iff.1 h with h | h
  · unfold isEnded at h
    split at h
    · next how hs => simp [turn, isEnded, hs]
    · cases h
  · simp [turn, isEnded, h]

end Loop

namespace Registry

/-- Entries and loops belong together. -/
structure Consistent (r : Registry) : Prop where
  nodup : (r.held.map Prod.fst).Nodup
  /-- An entry is that of a loop of its name, which nobody told to end. -/
  entry : ∀ p ∈ r.held, ∃ l, r.loops[p.2]? = some l ∧ l.name = p.1 ∧ l.isAborted = false
  /-- A loop has its entry, unless it has ended or was told to. -/
  loop : ∀ i l, r.loops[i]? = some l → (l.name, i) ∈ r.held ∨ l.isOver

variable {r r' : Registry} {name : String} {body : LoopBody} {i : Nat} {l : Loop}

/-- A name is held with one loop only. -/
theorem lookup_of_mem {held : List (String × Nat)} (hnodup : (held.map Prod.fst).Nodup)
    {name : String} {i : Nat} (h : (name, i) ∈ held) : held.lookup name = some i := by
  induction held with
  | nil => cases h
  | cons p held ih =>
      obtain ⟨n, j⟩ := p
      rw [List.map_cons, List.nodup_cons] at hnodup
      rw [List.lookup_cons]
      rcases List.mem_cons.1 h with heq | hmem
      · obtain ⟨rfl, rfl⟩ := Prod.mk.inj heq
        rw [beq_self_eq_true]
      · have hne : name ≠ n := by
          rintro rfl
          exact hnodup.1 (List.mem_map.2 ⟨(name, i), hmem, rfl⟩)
        rw [beq_eq_false_iff_ne.2 hne]
        exact ih hnodup.2 hmem

theorem mem_of_lookup {held : List (String × Nat)} {name : String} {i : Nat}
    (h : held.lookup name = some i) : (name, i) ∈ held := by
  induction held with
  | nil => cases h
  | cons p held ih =>
      obtain ⟨n, j⟩ := p
      rw [List.lookup_cons] at h
      split at h
      · next hn =>
          obtain rfl := eq_of_beq hn
          cases h
          exact .head _
      · exact .tail _ (ih h)

/-! ## What the operations do to a loop -/

/-- A loop that there is after a start was there before, or was started just now. -/
theorem loop_of_spawn (h : r.spawn name body = .ok r') (hl : r'.loops[i]? = some l) :
    r.loops[i]? = some l ∨ i = r.loops.length ∧ l = ⟨name, body, .fresh⟩ := by
  rw [(spawn_eq_ok h).2.2] at hl
  rcases Nat.lt_or_ge i r.loops.length with hlt | hge
  · exact .inl (List.getElem?_append_left hlt ▸ hl)
  · rw [List.getElem?_append_right hge, List.getElem?_singleton] at hl
    split at hl
    · next hzero => exact .inr ⟨by omega, (Option.some.inj hl).symm⟩
    · cases hl

/-- After an abort the loop of the name is over, and any other loop is as it was. -/
theorem loop_of_abort? (hnodup : (r.held.map Prod.fst).Nodup) (h : r.abort? name = some r')
    (hl : r'.loops[i]? = some l) : l.isOver ∨ r.loops[i]? = some l ∧ (name, i) ∉ r.held := by
  obtain ⟨j, hj, rfl⟩ := Option.map_eq_some_iff.1 h
  change (condemn r.loops j)[i]? = some l at hl
  rw [condemn, List.getElem?_modify] at hl
  obtain ⟨l, hold, rfl⟩ := Option.map_eq_some_iff.1 hl
  by_cases hij : j = i
  · left
    rw [if_pos hij, Loop.isOver_iff]
    cases he : l.isEnded with
    | true => exact .inl he
    | false => exact .inr rfl
  · rw [if_neg hij]
    refine .inr ⟨hold, fun hmem => hij ?_⟩
    rw [lookup_of_mem hnodup hmem] at hj
    exact (Option.some.inj hj).symm

theorem consistent_empty : empty.Consistent := ⟨List.nodup_nil, nofun, nofun⟩

namespace Consistent

theorem spawn (h : r.Consistent) (hs : r.spawn name body = .ok r') : r'.Consistent := by
  obtain ⟨-, hheld, hloops⟩ := spawn_eq_ok hs
  refine ⟨nodup_of_spawn h.nodup hs, fun p hp => ?_, fun i l hl => ?_⟩
  · rw [hheld] at hp
    rw [hloops]
    rcases List.mem_append.1 hp with hp | hp
    · obtain ⟨l, hl, hrest⟩ := h.entry p hp
      exact ⟨l, (List.getElem?_append_left (List.getElem?_eq_some_iff.1 hl).1).trans hl, hrest⟩
    · obtain rfl := List.mem_singleton.1 hp
      exact ⟨_, List.getElem?_concat_length, rfl, rfl⟩
  · rw [hheld]
    rcases loop_of_spawn hs hl with hl | ⟨rfl, rfl⟩
    · exact (h.loop i l hl).imp_left (List.mem_append_left _)
    · exact .inl (List.mem_append_right _ (List.mem_singleton_self _))

theorem abort (h : r.Consistent) (hs : r.abort? name = some r') : r'.Consistent := by
  obtain ⟨j, hj, heq⟩ := Option.map_eq_some_iff.1 hs
  have hheld : r'.held = r.held.filter (·.1 ≠ name) := by rw [← heq]
  refine ⟨h.nodup.sublist (hheld ▸ (List.filter_sublist ..).map _), fun p hp => ?_,
    fun i l hl => ?_⟩
  · -- The loop of another name is not the one that is told to end.
    rw [hheld, List.mem_filter, decide_eq_true_eq] at hp
    obtain ⟨l, hl, hname, hrest⟩ := h.entry p hp.1
    refine ⟨l, ?_, hname, hrest⟩
    rw [← heq]
    refine (List.getElem?_modify_ne _ _ ?_).trans hl
    rintro rfl
    obtain ⟨l', hl', hname', -⟩ := h.entry _ (mem_of_lookup hj)
    rw [hl] at hl'
    cases hl'
    exact hp.2 (hname.symm.trans hname')
  · rcases loop_of_abort? h.nodup hs hl with hover | ⟨hold, hnot⟩
    · exact .inr hover
    · rw [hheld]
      refine (h.loop i l hold).imp_left fun hmem => List.mem_filter.2 ⟨hmem, ?_⟩
      refine decide_eq_true fun hname => hnot ?_
      rwa [← hname]

/-- A turn of the loops ends those without an entry. -/
theorem isEnded_of_turn (h : r.Consistent) {now : Nat}
    (hl : (r.turn now).1.loops[i]? = some l) : (l.name, i) ∈ r.held ∨ l.isEnded := by
  simp only [turn, List.map_map, List.getElem?_map, Option.map_eq_some_iff] at hl
  obtain ⟨l, hl, rfl⟩ := hl
  refine (h.loop i l hl).imp (fun hmem => ?_) fun hover => (Loop.turn_of_isOver hover ..).1
  rwa [← Loop.name_turn r.closed now l] at hmem

theorem turn (h : r.Consistent) (now : Nat) : (r.turn now).1.Consistent := by
  refine ⟨h.nodup, fun p hp => ?_, fun i l hl => ?_⟩
  · obtain ⟨l, hl, hname, hrest⟩ := h.entry p hp
    refine ⟨(l.turn r.closed now).1, by simp [Registry.turn, hl], ?_, ?_⟩
    · rw [Loop.name_turn, hname]
    · rw [Loop.isAborted_turn, hrest]
  · exact (h.isEnded_of_turn hl).imp_right fun hended => Loop.isOver_iff.2 (.inl hended)

end Consistent

end Registry

/-! ## Every run -/

variable {C T : Type} [Targeted T]

/-- The only things that an attempt does to the registry are a start and an abort. -/
theorem Attempt.Step.registry_cases {env : Collaborators C T} {x : Context C}
    {p q : Attempt T × Site C T} (h : Attempt.Step env x p q) :
    q.2.registry = p.2.registry ∨
      (∃ name body, p.2.registry.spawn name body = .ok q.2.registry) ∨
      ∃ name, p.2.registry.abort? name = some q.2.registry := by
  have hrelease : ∀ {s s₁ : Site C T} (r : ResourceReference) (c : String) (free : Bool),
      s₁.registry = s.registry → (release x r c free s₁).registry = s.registry ∨
        (∃ name body, s.registry.spawn name body = .ok (release x r c free s₁).registry) ∨
        ∃ name, s.registry.abort? name = some (release x r c free s₁).registry := by
    intro s s₁ r c free hs
    rw [← hs]
    rcases release_cases x r c free s₁ with heq | ⟨g, hg, heq⟩ <;> rw [heq]
    · exact .inl rfl
    · exact .inr (.inr ⟨c, hg⟩)
  cases h with
  | register _ hs =>
      rcases hs.loops with ⟨hstill, -⟩ | ⟨name, body, -, hspawn, -⟩
      · exact .inl hstill.1
      · exact .inr (.inl ⟨name, body, hspawn⟩)
  | create _ _ _ _ _ _ hs => exact .inl (hs ▸ rfl)
  | refuse | revoke => exact hrelease _ _ _ rfl
  | _ => exact .inl rfl

namespace World

theorem consistent_step {env : Collaborators C T} {m : Move C T} {w w' : World C T}
    (h : Step env m w w') (hm : ∀ s, m ≠ .turnShutdown s) (hw : w.registry.Consistent) :
    w'.registry.Consistent := by
  cases h with
  | submit | join | cancel | drop | advance => exact hw
  | begin =>
      rw [begun, beginWork_eq]
      exact hw
  | look _ _ _ hp =>
      rcases hp.registry_cases with heq | ⟨name, body, hs⟩ | ⟨name, ha⟩
      · exact (congrArg Registry.Consistent heq).mpr hw
      · exact hw.spawn hs
      · exact hw.abort ha
  | close =>
      unfold closed
      dsimp only
      split <;> exact hw
  | turnLoops =>
      rw [turnLoops_eq]
      exact hw.turn w.now
  | spawn hs =>
      rw [turnLoops_eq]
      exact (hw.spawn hs).turn w.now
  | abort ha =>
      rw [turnLoops_eq]
      exact (hw.abort ha).turn w.now
  | beginShutdown => exact ⟨hw.nodup, hw.entry, hw.loop⟩
  | turnShutdown => exact absurd rfl (hm _)

/-- As long as no shutdown takes names, no loop is left without an entry. -/
theorem consistent_play {env : Collaborators C T} (as : List (String × Policy))
    {ms : List (Move C T)} (hms : ∀ m ∈ ms, ∀ s, m ≠ .turnShutdown s) :
    ((ofActivators as).play env ms).registry.Consistent :=
  invariant_of_play (P := fun w => w.registry.Consistent) (A := fun m => ∀ s, m ≠ .turnShutdown s)
    (fun hm hs => consistent_step hs hm) hms Registry.consistent_empty

end World

end Lifecycle
