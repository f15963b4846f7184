import Lifecycle.Proofs.WorldSteps

/-!
# Rounds stay among the reachable worlds

What is proved of the reachable worlds is proved for moves in any order. The
rounds that are run make theirs in one order, by functions of their own, and
this file says that they make no others: a pass, a round, a sleep and a shutdown
each lead from a reachable world to a reachable one. A shutdown takes names,
gives the loops a turn and takes the rest before it notes anything, which makes
no difference, as no time passes in between.
-/

namespace Lifecycle

namespace World

variable {C T : Type} [Targeted T] {env : Collaborators C T} {as : List (String × Policy)}
  {w : World C T}

theorem Reachable.move (h : Reachable env as w) (m : Move C T) :
    Reachable env as (w.move env m) := by
  obtain ⟨ms, rfl⟩ := h
  exact ⟨ms ++ [m], (play_concat ..).symm⟩

/-! ## Looking at a call -/

theorem Reachable.lookEach (h : Reachable env as w) (i : Nat) (places : List Nat) :
    Reachable env as (w.lookEach env i places) := by
  induction places generalizing w with
  | nil => exact h
  | cons j places ih => exact ih (h.move (.look i j))

theorem Reachable.lookAll (h : Reachable env as w) (i : Nat) :
    Reachable env as (w.lookAll env i) := by
  rw [World.lookAll]
  dsimp only
  split
  · exact h.lookEach ..
  · split
    · exact (h.lookEach ..).lookEach ..
    · exact h.lookEach ..

theorem Reachable.poll (h : Reachable env as w) (i : Nat) : Reachable env as (w.poll env i) :=
  (((h.move (.join i)).move (.begin i)).lookAll i).move (.close i)

theorem Reachable.visit (h : Reachable env as w) (i : Nat) (p : Plan) :
    Reachable env as (w.visit env i p) := by
  rw [World.visit]
  split
  · have hpolled := (h.move (.cancel i)).poll i
    split
    · exact hpolled.move (.drop i)
    · exact hpolled
  · have hpolled := h.poll i
    split
    · exact hpolled.move (.drop i)
    · exact hpolled

theorem Reachable.visitFrom (h : Reachable env as w) (i : Nat) (ps : List Plan) :
    Reachable env as (visitFrom env i ps w) := by
  induction ps generalizing i w with
  | nil => exact h
  | cons p ps ih => exact ih (h.visit i p) (i + 1)

/-! ## Rounds -/

theorem Reachable.pass (h : Reachable env as w) (plans : List Plan) :
    Reachable env as (w.pass env plans).1 := by
  have hvisited := (h.visitFrom w.opened plans).move .turnLoops
  rw [World.pass]
  split
  · exact hvisited
  · split
    · exact hvisited
    · split
      · exact hvisited
      · exact hvisited.move (.advance _)

theorem Reachable.run (h : Reachable env as w) (plans : List Plan) (fuel : Nat) :
    Reachable env as (run env plans fuel w) := by
  induction fuel generalizing w with
  | zero => exact h
  | succ fuel ih =>
      have hpass := h.pass plans
      rw [World.run]
      split
      · next w' heq =>
          rw [heq] at hpass
          exact ih hpass
      · next w' heq =>
          rw [heq] at hpass
          exact hpass

/-- A round is made in a world whose earlier calls are over. -/
theorem Reachable.round (h : Reachable env as w) (hq : w.isQuiet) (patience : Nat)
    (rs : List (Request C T)) : Reachable env as (w.round env patience rs) := by
  have hsubmit := h.move (.submit rs)
  rw [World.move, if_pos hq] at hsubmit
  exact hsubmit.run ..

/-! ## Between rounds -/

theorem Reachable.sleepUntil (h : Reachable env as w) (time fuel : Nat) :
    Reachable env as (sleepUntil time fuel w) := by
  induction fuel generalizing w with
  | zero => exact (h.move (.advance time)).move .turnLoops
  | succ fuel ih =>
      rw [World.sleepUntil]
      split
      · exact (h.move (.advance time)).move .turnLoops
      · exact ih ((h.move (.advance _)).move .turnLoops)

theorem Reachable.sleep (h : Reachable env as w) (millis : Nat) :
    Reachable env as (w.sleep millis) := h.sleepUntil ..

theorem Reachable.shutdown (h : Reachable env as w) : Reachable env as w.shutdown := by
  have hfirst := (h.move .beginShutdown).move (.turnShutdown w.registry.beginShutdown.2)
  rw [World.shutdown, Registry.shutdown]
  dsimp only
  split
  · exact hfirst.move .turnLoops
  · next s hs =>
      have hlast := ((hfirst.move .turnLoops).move (.turnShutdown s)).move .turnLoops
      simp only [World.move, turnLoops_eq, foldl_noteLoop] at hlast ⊢
      simpa only [List.map_append, List.reverse_append, List.map_reverse, List.append_assoc]
        using hlast

end World

end Lifecycle
