import Lifecycle.Readiness.Wait
import Lifecycle.Reference
import Lifecycle.Registry

/-!
# What happened

Everything that can be seen from outside is recorded in one trace, the latest
entry first: what is asked of the collaborators, what is done to controllers and
loops, and what is remarked about targets. An entry knows its instant and the
call it belongs to; the loops belong to no call.
-/

namespace Lifecycle

/-- The call that an entry belongs to. -/
structure Scope (C : Type) where
  /-- The index of the call among all calls. -/
  call : Nat
  activator : Nat
  capability : String
  config : C
  /-- The number of targets that the call lists, repeated ones included. -/
  targets : Nat
  deriving DecidableEq

inductive Happening (C T : Type) where
  /-- A check of a group and version was started, for the sake of a target if there is one. -/
  | probed (gv : GroupVersion) (target : Option ResourceReference)
  /-- What a check of a group and version found was taken notice of. -/
  | answered (gv : GroupVersion) (target : Option ResourceReference) (finding : Finding Fault)
  | created (controller : String) (target : T) (config : C)
  | registering (controller : String) (reference : ResourceReference)
  /-- A controller said that its registration is complete. -/
  | synced (controller : String) (reference : ResourceReference)
  /-- A registration came to its end, and the call was cancelled by then or not. -/
  | returned (controller : String) (reference : ResourceReference) (fault : Option Fault)
      (cancelled : Bool)
  /-- Something happened to a loop, for the sake of a target if there is one. -/
  | loop (notice : LoopNotice) (target : Option ResourceReference)
  /-- The name that an unfinished registration held was freed. -/
  | released (reference : ResourceReference) (controller : String)
  | setupFailed (reference : ResourceReference) (controller : String) (fault : Fault)
  /-- A registered controller became the controller of its target. -/
  | installed (reference : ResourceReference) (controller : String)
  /-- The controller of a known target was given the settings of the call. -/
  | updated (reference : ResourceReference) (controller : String) (config : C)
  /-- The controller of a target that is no longer wanted was switched off. -/
  | deactivated (reference : ResourceReference) (controller : String)
  | repeated (reference : ResourceReference)
  | timedOut (reference : ResourceReference) (timeout : Duration)
  | probeFailed (reference : ResourceReference) (fault : Fault)
  | callFailed (failures : Nat)
  deriving DecidableEq

/-- A happening with its instant and its call. -/
structure Entry (C T : Type) where
  time : Nat
  scope : Option (Scope C)
  what : Happening C T
  deriving DecidableEq

/-- All entries, the latest first. -/
abbrev Trace (C T : Type) := List (Entry C T)

/-- The entries that came after the first `n`, in the order in which they came. -/
def Trace.after {C T : Type} (n : Nat) (t : Trace C T) : List (Entry C T) :=
  (t.take (t.length - n)).reverse

end Lifecycle
