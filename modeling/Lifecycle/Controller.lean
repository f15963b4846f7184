import Lifecycle.Trace

/-!
# Collaborators

The engine itself neither asks a cluster nor runs a controller. What it works
with is given by functions of what has happened so far and of the clock: how a
check of a schema goes, and which controller is made for a target. A controller
is its name and the course of its registration.
-/

namespace Lifecycle

/-- The course of a registration. -/
inductive Registration where
  | finish (fault : Option Fault)
  /-- Starts a loop under a name; a refusal ends the registration with its fault. -/
  | spawn (name : String) (body : LoopBody) (next : Registration)
  /-- Starts a loop under a name; after a refusal the registration goes on differently. -/
  | spawnOr (name : String) (body : LoopBody) (next refused : Registration)
  /-- Cancels its own call, or all calls of the round. -/
  | cancel (whole : Bool) (next : Registration)
  /--
  Waits for a number of milliseconds, or for ever. If the registration watches its call, a
  cancellation ends it, with the given fault or without one; otherwise it takes no notice.
  -/
  | sleep (millis : Option Nat) (interrupted : Option (Option Fault)) (next : Registration)
  | synced (next : Registration)
  deriving DecidableEq

structure Controller where
  name : String
  registration : Registration
  deriving DecidableEq

/-- How the world around the engine behaves. -/
structure Collaborators (C T : Type) where
  /--
  Whether checks are sent to a server: such a check starts only when its wait is looked at again,
  after everything else that can be done at the instant.
  -/
  remote : Bool
  /-- The fault of a check that cannot be started at all. -/
  refusal? : GroupVersion → Option Fault
  check : Trace C T → Nat → GroupVersion → Check Fault
  create : Trace C T → Nat → String → T → C → Controller

end Lifecycle
