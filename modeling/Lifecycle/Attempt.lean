import Lifecycle.Cause
import Lifecycle.Controller
import Lifecycle.Policy
import Lifecycle.Store

/-!
# Attempts

A call makes one attempt for each distinct target. A target that has a controller
is updated at once. For any other target the attempt waits for the schema, makes a
controller, has it register, and installs it when the registration ended well and
the call was not cancelled meanwhile.

A registration that fails or comes too late must leave nothing behind: if the
controller's name was free before, the loop that holds it now is aborted.

An attempt is looked at from time to time; each look carries it as far as it can
go at that instant. A call with few attempts looks at all of them in the order of its
targets. One with many looks only at those that can go on, in the order in which they
came to wait for it; each attempt draws a ticket for that when a wait of its begins.
-/

namespace Lifecycle

inductive Stage where
  | fresh
  | waiting (wait : Wait Fault)
  /-- The registration is at a sleep that began at `since`. -/
  | registering (controller : String) (nameWasFree : Bool) (rest : Registration) (since : Nat)
  | done (cause : Option Cause) (time : Nat)
  deriving DecidableEq

structure Attempt (T : Type) where
  target : T
  stage : Stage
  /-- The ticket that it drew when it came to wait for what it waits for now. -/
  ticket : Nat
  /-- The ticket that it drew when its running check was started. -/
  checkTicket : Nat
  deriving DecidableEq

/-! ## Cancellation by collaborators -/

/-- What is cancelled of a round, apart from what the callers do. -/
inductive Fired where
  | calls (is : List Nat)
  | all
  deriving DecidableEq

namespace Fired

def hits : Fired → Nat → Bool
  | calls is, i => decide (i ∈ is)
  | all, _ => true

/-- Cancels one more call, or all calls of the round. -/
def fire : Fired → Bool → Nat → Fired
  | all, _, _ | calls _, true, _ => all
  | calls is, false, i => if i ∈ is then calls is else calls (i :: is)

@[simp] theorem hits_all (i : Nat) : all.hits i = true := rfl

@[simp] theorem hits_fire (f : Fired) (whole : Bool) (i j : Nat) :
    (f.fire whole i).hits j = (f.hits j || (whole || decide (j = i))) := by
  cases f with
  | all => rfl
  | calls is =>
      cases whole with
      | true => simp [fire]
      | false =>
          simp only [fire, Bool.false_or]
          split
          · next hi => by_cases hj : j = i <;> simp [hits, hi, hj]
          · simp [hits, Bool.or_comm]

end Fired

/-! ## Sites -/

/-- The part of the world that the attempts of one call can touch. -/
structure Site (C T : Type) where
  now : Nat
  fired : Fired
  registry : Registry
  store : Store
  trace : Trace C T
  /-- The number of tickets drawn so far. -/
  tickets : Nat

structure Context (C : Type) where
  scope : Scope C
  policy : Policy
  cancelled : Bool

variable {C T : Type}

namespace Site

def note (s : Site C T) (x : Context C) (h : Happening C T) : Site C T :=
  { s with trace := ⟨s.now, some x.scope, h⟩ :: s.trace }

def cancelled (s : Site C T) (x : Context C) : Bool :=
  x.cancelled || s.fired.hits x.scope.call

end Site

/-! ## Registration -/

inductive Progress where
  | pending (rest : Registration) (since : Nat)
  | ended (fault : Option Fault)
  deriving DecidableEq

/-- Runs a registration until it sleeps or ends; `since` is when it began the sleep it is at. -/
def Registration.run (x : Context C) (controller : String) (r : ResourceReference) :
    Registration → Option Nat → Site C T → Progress × Site C T
  | finish fault, _, s => (.ended fault, s)
  | spawn name body next, _, s =>
    match s.registry.spawn name body with
    | .error f => (.ended (some f), s)
    | .ok registry =>
      next.run x controller r none ({ s with registry }.note x (.loop (.registered name) (some r)))
  | spawnOr name body next refused, _, s =>
    match s.registry.spawn name body with
    | .error _ => refused.run x controller r none s
    | .ok registry =>
      next.run x controller r none ({ s with registry }.note x (.loop (.registered name) (some r)))
  | cancel whole next, _, s =>
    next.run x controller r none { s with fired := s.fired.fire whole x.scope.call }
  | synced next, _, s => next.run x controller r none (s.note x (.synced controller r))
  | sleep millis interrupted next, since, s =>
    let began := since.getD s.now
    let pending := Progress.pending (sleep millis interrupted next) began
    if s.cancelled x ∧ interrupted.isSome then (.ended interrupted.join, s)
    else
      match millis with
      | none => (pending, s)
      | some d => if began + d ≤ s.now then next.run x controller r none s else (pending, s)

namespace Attempt

variable [Targeted T]

/-- The attempt for a target before it is looked at for the first time. -/
def begin (target : T) : Attempt T := ⟨target, .fresh, 0, 0⟩

def reference (a : Attempt T) : ResourceReference := Targeted.reference a.target

def finish (a : Attempt T) (cause : Option Cause) (now : Nat) : Attempt T :=
  { a with stage := .done cause now }

/-- Frees the name that a registration may have taken, if it was free before. -/
def release (x : Context C) (r : ResourceReference) (controller : String) (nameWasFree : Bool)
    (s : Site C T) : Site C T :=
  if nameWasFree then
    match s.registry.abort? controller with
    | some registry =>
      ({ s with registry }.note x (.loop (.aborted controller) (some r))).note x
        (.released r controller)
    | none => s
  else s

def settle (x : Context C) (a : Attempt T) (controller : String) (nameWasFree : Bool)
    (fault : Option Fault) (s : Site C T) : Attempt T × Site C T :=
  let r := a.reference
  let cancelled := s.cancelled x
  let s := s.note x (.returned controller r fault cancelled)
  let s := if fault.isSome ∨ cancelled then release x r controller nameWasFree s else s
  if cancelled then (a.finish (some (.cancelled r.gvk)) s.now, s)
  else
    match fault with
    | some f =>
      (a.finish (some (.setup controller f)) s.now, s.note x (.setupFailed r controller f))
    | none =>
      (a.finish none s.now,
        { s with store := s.store.install r controller }.note x (.installed r controller))

def register (x : Context C) (a : Attempt T) (controller : String) (nameWasFree : Bool)
    (rest : Registration) (since : Option Nat) (s : Site C T) : Attempt T × Site C T :=
  match rest.run x controller a.reference since s with
  | (.pending rest since, s) =>
    ({ a with stage := .registering controller nameWasFree rest since }, s)
  | (.ended fault, s) => settle x a controller nameWasFree fault s

/-- Makes the controller of a target and has it register. -/
def create (env : Collaborators C T) (x : Context C) (a : Attempt T) (s : Site C T) :
    Attempt T × Site C T :=
  let c := env.create s.trace s.now x.scope.capability a.target x.scope.config
  let s := s.note x (.created c.name a.target x.scope.config)
  let nameWasFree := !s.registry.isRegistered c.name
  let s := s.note x (.registering c.name a.reference)
  register x a c.name nameWasFree c.registration none s

def afterWait (env : Collaborators C T) (x : Context C) (a : Attempt T) (s : Site C T) :
    Outcome Fault → Attempt T × Site C T
  | .ready => create env x a s
  | .cancelled => (a.finish (some (.cancelled a.reference.gvk)) s.now, s)
  | .timedOut =>
    (a.finish (some (.readinessTimeout a.reference.gvk x.policy.readinessTimeout)) s.now,
      s.note x (.timedOut a.reference x.policy.readinessTimeout))
  | .failed f =>
    (a.finish (some (.probe a.reference.gvk f)) s.now, s.note x (.probeFailed a.reference f))

def startCheck (env : Collaborators C T) (x : Context C) (r : ResourceReference) (s : Site C T) :
    Check Fault × Site C T :=
  let check := env.check s.trace s.now r.groupVersion
  (check, { s with fired := if check.cancels then .all else s.fired }.note x (.probed r.groupVersion (some r)))

/-- Records what a check found, if there is something to be recorded. -/
def noteFinding (x : Context C) (r : ResourceReference) (s : Site C T) :
    Option (Finding Fault) → Site C T
  | none => s
  | some f => s.note x (.answered r.groupVersion (some r) f)

/-- Carries a wait on by what it does at this instant; one that wants a check keeps its stage. -/
def afterTurn (env : Collaborators C T) (x : Context C) (a : Attempt T) (s : Site C T) :
    Wait.Turn Fault → Attempt T × Site C T
  | .over o => afterWait env x a s o
  | .stay w => ({ a with stage := .waiting w }, s)
  | .ask => (a, s)

/-- Makes the check that a wait wants: it fails at once, has to be asked for first, or starts. -/
def makeCheck (env : Collaborators C T) (x : Context C) (a : Attempt T) (w : Wait Fault)
    (s : Site C T) : Attempt T × Site C T :=
  let r := a.reference
  match env.refusal? r.groupVersion with
  | some f => afterWait env x a s (.failed f)
  | none =>
    if env.remote ∧ w.phase ≠ .asked then
      ({ a with stage := .waiting { w with phase := .asked } }, s)
    else
      let (check, s) := startCheck env x r s
      let s := noteFinding x r s (if check.endsBy s.now s.now then some check.finding else none)
      afterTurn env x a s (w.answer check s.now (s.cancelled x) s.now)

def awaitSchema (env : Collaborators C T) (x : Context C) (a : Attempt T) (w : Wait Fault)
    (s : Site C T) : Attempt T × Site C T :=
  match w.turn (s.cancelled x) s.now with
  | .ask => makeCheck env x a w s
  | other =>
    afterTurn env x a (noteFinding x a.reference s (w.findingAt? (s.cancelled x) s.now)) other

def poll (env : Collaborators C T) (x : Context C) (a : Attempt T) (s : Site C T) :
    Attempt T × Site C T :=
  match a.stage with
  | .done .. => (a, s)
  | .registering controller nameWasFree rest since =>
    register x a controller nameWasFree rest (some since) s
  | .waiting w => awaitSchema env x a w s
  | .fresh =>
    match s.store.get? a.reference with
    | some h =>
      (a.finish none s.now, { s with store := s.store.activate a.reference }.note x
        (.updated a.reference h.controller x.scope.config))
    | none =>
      awaitSchema env x a (.begin x.policy.pollInterval x.policy.readinessTimeout s.now) s

/-- Whether an attempt has asked for a check that has not started yet. -/
def hasAsked (a : Attempt T) : Bool :=
  match a.stage with
  | .waiting w =>
    match w.phase with
    | .asked => true
    | _ => false
  | _ => false

def isChecking (a : Attempt T) : Bool :=
  match a.stage with
  | .waiting w =>
    match w.phase with
    | .inFlight .. => true
    | _ => false
  | _ => false

def isDone (a : Attempt T) : Bool :=
  match a.stage with
  | .done .. => true
  | _ => false

def cause? (a : Attempt T) : Option Cause :=
  match a.stage with
  | .done c _ => c
  | _ => none

/-- The instants at which an attempt can go on. -/
def wakes (a : Attempt T) : List Nat :=
  match a.stage with
  | .waiting w => w.wakes
  | .registering _ _ (.sleep (some d) _ _) since => [since + d]
  | _ => []

/-! ## Looking at the attempts of a call -/

/--
Looks at an attempt and has it draw a ticket if it waits for something else than before. A check
that was asked for and is started now belongs to the wait that asked for it.
-/
def look (env : Collaborators C T) (x : Context C) (a : Attempt T) (s : Site C T) :
    Attempt T × Site C T :=
  let (b, s) := poll env x a s
  if b.stage = a.stage then (b, s)
  else
    let ticket := if a.hasAsked && b.isChecking then a.ticket else s.tickets
    ({ b with ticket, checkTicket := s.tickets }, { s with tickets := s.tickets + 1 })

/-- The ticket by which an attempt gets its turn at an instant, if it can go on. -/
def dueTicket? (now : Nat) (a : Attempt T) : Option Nat :=
  match a.stage with
  | .fresh => some a.ticket
  | .waiting w =>
    match w.phase with
    | .due | .asked => some a.ticket
    | .inFlight check since =>
      if w.deadline ≤ now then some a.ticket
      else if check.endsBy since now then some a.checkTicket
      else none
    | .resting wake => if wake ≤ now then some a.ticket else none
  | .registering _ _ (.sleep (some d) _ _) since =>
    if since + d ≤ now then some a.ticket else none
  | _ => none

/-- The ticket by which an attempt gets its turn after a cancellation, if it watches its call. -/
def watchTicket? (a : Attempt T) : Option Nat :=
  match a.stage with
  | .waiting _ | .registering _ _ (.sleep _ (some _) _) _ => some a.ticket
  | _ => none

/-- The places of the attempts that have a ticket, by their tickets. -/
def byTicket (ticket? : Attempt T → Option Nat) (as : List (Attempt T)) : List Nat :=
  let held := as.zipIdx.filterMap fun (a, i) => (ticket? a).map (·, i)
  (held.mergeSort fun p q => p.1 ≤ q.1).map (·.2)

end Attempt

end Lifecycle
