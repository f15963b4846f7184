import Lifecycle.Attempt

/-!
# Calls on activators

A call states which targets its activator shall have active from now on. Calls on
one activator take turns: they stand in a queue in the order in which they came,
and the first one in the queue is at work until it has ended. Its work starts with
switching off what is no longer wanted; after that it attempts all its targets
side by side, and it ends when the last attempt has ended.

The functions here are the moves of the world: carrying a call on, cancelling it,
dropping it, giving the loops a turn, and letting time pass. A call is carried on
by small moves: it joins the queue, it begins its work, one of its attempts is
looked at, it is closed. In which order the moves come is not decided here.
-/

namespace Lifecycle

inductive CallStage (T : Type) where
  | fresh
  /-- In the queue of its activator; it has not begun its work. -/
  | queued
  | working (attempts : List (Attempt T))
  | ended (attempts : List (Attempt T)) (time : Nat)
  | dropped (time : Nat)
  deriving DecidableEq

structure Call (C T : Type) where
  activator : Nat
  config : C
  targets : List T
  cancelled : Bool
  stage : CallStage T
  deriving DecidableEq

namespace Call

variable {C T : Type}

def isOver (c : Call C T) : Bool :=
  match c.stage with
  | .ended .. | .dropped .. => true
  | _ => false

/-- The attempts of a call that has begun its work. -/
def attempts (c : Call C T) : List (Attempt T) :=
  match c.stage with
  | .working as | .ended as _ => as
  | _ => []

/-- Why attempts of a call failed, in the order of the targets. -/
def causes [Targeted T] (c : Call C T) : List Cause := c.attempts.filterMap Attempt.cause?

end Call

structure Activator where
  capability : String
  policy : Policy
  store : Store
  /-- The calls that have not ended, by their index; the first one is at work. -/
  queue : List Nat
  deriving DecidableEq

def Activator.new (capability : String) (policy : Policy) : Activator := ⟨capability, policy, [], []⟩

/-- Everything there is: the clock, the loops, the activators and their calls. -/
structure World (C T : Type) where
  now : Nat
  /-- What the collaborators have cancelled of the round that is under way. -/
  fired : Fired
  registry : Registry
  activators : List Activator
  /-- All calls that were ever made, in the order of their rounds. -/
  calls : List (Call C T)
  /-- The number of calls in earlier rounds. -/
  opened : Nat
  trace : Trace C T
  tickets : Nat

namespace World

variable {C T : Type}

def start (activators : List Activator) : World C T := ⟨0, .calls [], .empty, activators, [], 0, [], 0⟩

def find? (w : World C T) (i : Nat) : Option (Call C T × Activator) := do
  let c ← w.calls[i]?
  let a ← w.activators[c.activator]?
  return (c, a)

/-- What the attempts of a call on an activator can touch. -/
def site (w : World C T) (a : Activator) : Site C T :=
  ⟨w.now, w.fired, w.registry, a.store, w.trace, w.tickets⟩

/-- Takes over what the attempts of a call on an activator have touched. -/
def withSite (w : World C T) (i : Nat) (s : Site C T) : World C T :=
  { w with
    fired := s.fired,
    registry := s.registry,
    activators := w.activators.modify i fun a => { a with store := s.store },
    trace := s.trace,
    tickets := s.tickets }

def setStage (w : World C T) (i : Nat) (stage : CallStage T) : World C T :=
  { w with calls := w.calls.modify i fun c => { c with stage } }

def setQueue (w : World C T) (activator : Nat) (f : List Nat → List Nat) : World C T :=
  { w with activators := w.activators.modify activator fun a => { a with queue := f a.queue } }

/-- Records a happening of a call, or one that belongs to no call. -/
def note (w : World C T) (scope : Option (Scope C)) (h : Happening C T) : World C T :=
  { w with trace := ⟨w.now, scope, h⟩ :: w.trace }

def context (a : Activator) (i : Nat) (c : Call C T) : Context C :=
  ⟨⟨i, c.activator, a.capability, c.config, c.targets.length⟩, a.policy, c.cancelled⟩

/-! ## Working on a call -/

/-- Switches off every active controller whose target is not wanted. -/
def deactivateStale [Targeted T] (x : Context C) (targets : List T) (s : Site C T) : Site C T :=
  let wanted := targets.map Targeted.reference
  let stale := s.store.stale wanted
  stale.foldl (fun s h => s.note x (.deactivated h.reference h.controller))
    { s with store := s.store.retire wanted }

/-- What a call does first when its turn has come: afterwards its attempts can be looked at. -/
def beginWork [Targeted T] (x : Context C) (targets : List T) (s : Site C T) :
    List (Attempt T) × Site C T :=
  let s := deactivateStale x targets s
  let s := (repeatedTargets targets).foldl (fun s r => s.note x (.repeated r)) s
  ((distinctTargets targets).map Attempt.begin, s)

/-! ## The moves of a call -/

/-- A fresh call comes into the queue of its activator. -/
def join (i : Nat) (w : World C T) : World C T :=
  match w.find? i with
  | none => w
  | some (c, _) =>
    match c.stage with
    | .fresh => (w.setQueue c.activator (· ++ [i])).setStage i .queued
    | _ => w

/-- A queued call begins its work, if it is the first one in the queue. -/
def begin [Targeted T] (i : Nat) (w : World C T) : World C T :=
  match w.find? i with
  | none => w
  | some (c, a) =>
    match c.stage with
    | .queued =>
      if a.queue.head? = some i then
        let (attempts, s) := beginWork (context a i c) c.targets (w.site a)
        (w.withSite c.activator s).setStage i (.working attempts)
      else w
    | _ => w

/-- One attempt of a call that is at work is looked at. -/
def look [Targeted T] (env : Collaborators C T) (i j : Nat) (w : World C T) : World C T :=
  match w.find? i with
  | none => w
  | some (c, a) =>
    match c.stage with
    | .working attempts =>
      match attempts[j]? with
      | none => w
      | some t =>
        let (t, s) := t.look env (context a i c) (w.site a)
        (w.withSite c.activator s).setStage i (.working (attempts.set j t))
    | _ => w

/-- A call ends when all its attempts have. -/
def close [Targeted T] (i : Nat) (w : World C T) : World C T :=
  match w.find? i with
  | none => w
  | some (c, a) =>
    match c.stage with
    | .working attempts =>
      if attempts.all Attempt.isDone then
        let failures := c.causes.length
        let w := if failures = 0 then w else w.note (context a i c).scope (.callFailed failures)
        (w.setStage i (.ended attempts w.now)).setQueue c.activator (·.erase i)
      else w
    | _ => w

/-! ## Looking at a call -/

/-- Looks at the attempts of a call at some places, in the order of the places. -/
def lookEach [Targeted T] (env : Collaborators C T) (i : Nat) (places : List Nat)
    (w : World C T) : World C T :=
  places.foldl (fun w j => w.look env i j) w

def attempts (w : World C T) (i : Nat) : List (Attempt T) :=
  (w.calls[i]?.map Call.attempts).getD []

def isCancelled (w : World C T) (i : Nat) : Bool :=
  w.fired.hits i || w.calls[i]?.any (·.cancelled)

/-- The most attempts of a call that are all looked at whenever the call is. -/
def maxAttended : Nat := 30

/--
Looks at the attempts of a call. Of many attempts those that can go on have their turn, and then, if
the call is cancelled by now, those that watch it.
-/
def lookAll [Targeted T] (env : Collaborators C T) (i : Nat) (w : World C T) : World C T :=
  let attempts := w.attempts i
  if attempts.length ≤ maxAttended then w.lookEach env i (List.range attempts.length)
  else
    let w := w.lookEach env i (Attempt.byTicket (Attempt.dueTicket? w.now) attempts)
    if w.isCancelled i then w.lookEach env i (Attempt.byTicket Attempt.watchTicket? (w.attempts i))
    else w

/-- Looks at a call: carries it on as far as it can go. -/
def poll [Targeted T] (env : Collaborators C T) (i : Nat) (w : World C T) : World C T :=
  (((w.join i).begin i).lookAll env i).close i

/-! ## Other moves -/

def cancel (i : Nat) (w : World C T) : World C T :=
  { w with calls := w.calls.modify i fun c => { c with cancelled := true } }

def drop (i : Nat) (w : World C T) : World C T :=
  match w.calls[i]? with
  | none => w
  | some c =>
    if c.isOver then w else (w.setStage i (.dropped w.now)).setQueue c.activator (·.erase i)

def noteLoop (w : World C T) (n : LoopNotice) : World C T := w.note none (.loop n none)

def turnLoops (w : World C T) : World C T :=
  let (registry, notices) := w.registry.turn w.now
  notices.foldl noteLoop { w with registry }

def advance (w : World C T) (time : Nat) : World C T := { w with now := max w.now time }

def submit (w : World C T) (calls : List (Call C T)) : World C T :=
  { w with fired := .calls [], calls := w.calls ++ calls, opened := w.calls.length }

end World

end Lifecycle
