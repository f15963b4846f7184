import Lifecycle.Schedule

/-!
# Rounds of calls

A round is a number of calls that are made together. What the callers do is given
in milliseconds from the start of the round; a round ends when all its calls are
over.
-/

namespace Lifecycle

structure Request (C T : Type) where
  activator : Nat
  config : C
  targets : List T
  cancelled : Bool
  cancelAt : Option Nat
  dropAt : Option Nat
  deriving DecidableEq

inductive Result where
  | ok
  | failed (causes : List Cause)
  | dropped
  deriving DecidableEq

def Result.causes : Result → List Cause
  | .failed causes => causes
  | _ => []

namespace Request

variable {C T : Type}

def call (r : Request C T) : Call C T := ⟨r.activator, r.config, r.targets, r.cancelled, .fresh⟩

/-- What the caller does, at instants of the world's clock. -/
def plan (r : Request C T) (start : Nat) : Plan :=
  ⟨r.cancelAt.map (start + ·), r.dropAt.map (start + ·)⟩

/-- The milliseconds that a call can take, when registrations take at most `patience`. -/
def longest (r : Request C T) (w : World C T) (patience : Nat) : Nat :=
  let timeout := match w.activators[r.activator]? with
    | some a => a.policy.readinessTimeout.ceilMillis
    | none => 0
  timeout + patience + r.cancelAt.getD 0 + r.dropAt.getD 0

end Request

/-- The result of a call that is over, and the instant at which it ended. -/
def Call.result? {C T : Type} [Targeted T] (c : Call C T) : Option (Result × Nat) :=
  match c.stage with
  | .ended _ t => some (if c.causes.isEmpty then .ok else .failed c.causes, t)
  | .dropped t => some (.dropped, t)
  | _ => none

namespace World

variable {C T : Type} [Targeted T]

/--
A bound on the passes of a round: at most a few at each instant of the time that its calls can
take one after another.
-/
def passes (w : World C T) (rs : List (Request C T)) (patience : Nat) : Nat :=
  ((rs.map fun r => r.longest w patience).foldr (· + ·) 0 + 1) * (2 * rs.length + 4)

/-- Makes calls together and waits until all of them are over. -/
def round (env : Collaborators C T) (patience : Nat) (rs : List (Request C T)) (w : World C T) :
    World C T :=
  run env (rs.map (·.plan w.now)) (w.passes rs patience) (w.submit (rs.map Request.call))

def results (w : World C T) : List (Option (Result × Nat)) :=
  (w.calls.drop w.opened).map Call.result?

/-! ## Steps between rounds -/

def spawn (w : World C T) (name : String) (body : LoopBody) : Except Fault Unit × World C T :=
  match w.registry.spawn name body with
  | .error f => (.error f, w)
  | .ok registry => (.ok (), ({ w with registry }.noteLoop (.registered name)).turnLoops)

/-- Aborts the loop of a name; says whether there was one. -/
def abort (w : World C T) (name : String) : Bool × World C T :=
  match w.registry.abort? name with
  | none => (false, w)
  | some registry => (true, ({ w with registry }.noteLoop (.aborted name)).turnLoops)

/-- Shuts the registry down and waits for its loops. -/
def shutdown (w : World C T) : World C T :=
  let (registry, notices) := w.registry.shutdown w.now
  (notices.foldl noteLoop { w with registry }).turnLoops

def holding? (w : World C T) (activator : Nat) (r : ResourceReference) : Option Holding := do
  let a ← w.activators[activator]?
  a.store.get? r

end World

/-- The names of shutdown tokens that were handed out, with those cancelled by their holders. -/
abbrev Tokens := List (String × Bool)

namespace Tokens

def take (t : Tokens) (id : String) : Tokens := (id, false) :: t.filter (·.1 ≠ id)

/-- Cancels one token and no other. -/
def cancel (t : Tokens) (id : String) : Tokens :=
  t.map fun p => if p.1 = id then (id, true) else p

/-- A token is cancelled by its holder or by the shutdown of the registry. -/
def isCancelled (t : Tokens) (r : Registry) (id : String) : Bool :=
  (t.lookup id).any fun b => b || r.closed

end Tokens

end Lifecycle
