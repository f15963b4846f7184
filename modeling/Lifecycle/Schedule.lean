import Lifecycle.World

/-!
# The course of a round

A round of calls is run on one thread and a clock that jumps. At an instant the
calls are looked at in the order of the round: a cancellation that is due comes
first, then the look, then the caller gives up if that is due. After the last call
the loops have their turn. The calls are gone through again at the same instant if
a collaborator has cancelled any of them meanwhile or if checks were asked for,
which start at that second look; otherwise the clock jumps to the next instant at
which something can happen.
-/

namespace Lifecycle

/-- What the caller of a call does to it, and when. -/
structure Plan where
  cancelAt : Option Nat
  dropAt : Option Nat
  deriving DecidableEq

namespace World

variable {C T : Type} [Targeted T]

/-- Everything that is done about one call at an instant. -/
def visit (env : Collaborators C T) (w : World C T) (i : Nat) (p : Plan) : World C T :=
  let w := if p.cancelAt.any (· ≤ w.now) then w.cancel i else w
  let w := w.poll env i
  if p.dropAt.any (· ≤ w.now) then w.drop i else w

def visitFrom (env : Collaborators C T) : Nat → List Plan → World C T → World C T
  | _, [], w => w
  | i, p :: ps, w => visitFrom env (i + 1) ps (w.visit env i p)

/-- Whether a check that was asked for waits to be started. -/
def hasAsked (w : World C T) : Bool := w.calls.any fun c => c.attempts.any Attempt.hasAsked

def isQuiet (w : World C T) : Bool := w.calls.all Call.isOver

/-- The instants after now at which something can happen. -/
def wakes (plans : List Plan) (w : World C T) : List Nat :=
  let called := ((w.calls.drop w.opened).zip plans).flatMap fun (c, p) =>
    if c.isOver then []
    else p.cancelAt.toList ++ p.dropAt.toList ++ c.attempts.flatMap Attempt.wakes
  (called ++ w.registry.wakes).filter (w.now < ·)

/--
One pass over the calls, and a clock that jumps if the pass left nothing to be done at its instant;
says whether anything can still happen.
-/
def pass (env : Collaborators C T) (plans : List Plan) (w : World C T) : World C T × Bool :=
  let fired := w.fired
  let w := visitFrom env w.opened plans w
  let again := w.hasAsked || w.fired != fired
  let w := w.turnLoops
  if w.isQuiet then (w, false)
  else if again then (w, true)
  else
    match (w.wakes plans).min? with
    | none => (w, false)
    | some t => (w.advance t, true)

/-- Passes until nothing is left to be done, at most a number of times. -/
def run (env : Collaborators C T) (plans : List Plan) : Nat → World C T → World C T
  | 0, w => w
  | fuel + 1, w =>
    match w.pass env plans with
    | (w, true) => run env plans fuel w
    | (w, false) => w

/-- Lets a number of milliseconds pass, with the loops having their turns at their instants. -/
def sleepUntil (time : Nat) : Nat → World C T → World C T
  | 0, w => (w.advance time).turnLoops
  | fuel + 1, w =>
    match ((w.registry.wakes).filter fun t => w.now < t && t ≤ time).min? with
    | none => (w.advance time).turnLoops
    | some t => sleepUntil time fuel (w.advance t).turnLoops

def sleep (w : World C T) (millis : Nat) : World C T :=
  sleepUntil (w.now + millis) w.registry.loops.length w

end World

end Lifecycle
