import Lifecycle.Round

/-!
# All orders of moves

A round follows one order of moves, that of a single thread and a clock that jumps.
Here the moves come in any order: whoever shares the loops and the clock may move at
any time, and so may every attempt of every call that is at work. What holds after
every list of moves holds whatever the order is.

Outsiders are those who use the registry without being called by an activator.
-/

namespace Lifecycle

inductive Move (C T : Type) where
  /-- A round of calls is made, if those of all earlier rounds are over. -/
  | submit (requests : List (Request C T))
  | join (call : Nat)
  | begin (call : Nat)
  | look (call place : Nat)
  | close (call : Nat)
  | cancel (call : Nat)
  | drop (call : Nat)
  | turnLoops
  | advance (time : Nat)
  | spawn (name : String) (body : LoopBody)
  | abort (name : String)
  | beginShutdown
  /-- A shutdown, however far it has come, has a turn. -/
  | turnShutdown (s : Registry.Shutdown)

namespace World

variable {C T : Type} [Targeted T]

def move (env : Collaborators C T) (w : World C T) : Move C T → World C T
  | .submit rs => if w.isQuiet then w.submit (rs.map Request.call) else w
  | .join i => w.join i
  | .begin i => w.begin i
  | .look i j => w.look env i j
  | .close i => w.close i
  | .cancel i => w.cancel i
  | .drop i => w.drop i
  | .turnLoops => w.turnLoops
  | .advance t => w.advance t
  | .spawn name body => (w.spawn name body).2
  | .abort name => (w.abort name).2
  | .beginShutdown => { w with registry := w.registry.beginShutdown.1 }
  | .turnShutdown s =>
    let (registry, _, notices) := s.turn w.registry
    notices.foldl noteLoop { w with registry }

def play (env : Collaborators C T) (w : World C T) (ms : List (Move C T)) : World C T :=
  ms.foldl (move env) w

/-- The world of some activators without controllers, each with a name and a policy. -/
def ofActivators (as : List (String × Policy)) : World C T :=
  .start (as.map fun a => .new a.1 a.2)

/-- The worlds that any moves reach. -/
def Reachable (env : Collaborators C T) (as : List (String × Policy)) (w : World C T) : Prop :=
  ∃ ms, w = (ofActivators as).play env ms

end World

/-! ## A plain world -/

/--
Collaborators with whom nothing goes wrong: every schema is served at once, and every controller
bears the name of its target and starts its loop.
-/
def Collaborators.prompt : Collaborators String ResourceReference where
  remote := false
  refusal? _ := none
  check _ _ _ := ⟨false, some 0, .ready⟩
  create _ _ _ r _ := ⟨r.name, .spawn r.name .forever (.finish none)⟩

/-- A target that differs from others in its name only. -/
def ResourceReference.plain (name : String) : ResourceReference :=
  ⟨"example.com", "v1", "Widget", name, some "default"⟩

/-- A call that nobody cancels. -/
def Request.plain (activator : Nat) (config : String) (names : List String) :
    Request String ResourceReference :=
  ⟨activator, config, names.map .plain, false, none, none⟩

end Lifecycle
