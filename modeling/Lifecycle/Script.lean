import Lifecycle.Controller
import Lifecycle.Discovery.Exchange

/-!
# Scripted collaborators

Collaborators that follow a script. A script is a list of rules; the first rule
that applies is used, and its k-th use plays its k-th line, the last line being
played again and again. How often a rule was used is read off the trace, so a
script needs no memory of its own.
-/

namespace Lifecycle.Script

variable {C T : Type}

/-- The line for the k-th use of a rule; nothing if the rule has no lines. -/
def line? {α : Type} (lines : List α) (k : Nat) : Option α := lines[min k (lines.length - 1)]?

/-- Whether a rule that may leave a field open applies to a value of the field. -/
def accepts (wanted : Option String) (found : String) : Bool := wanted.all (· = found)

/-! ## Probes -/

/-- Answers for the checks of some groups and versions. -/
structure ProbeRule where
  group : Option String
  version : Option String
  answers : List (Check String)
  deriving DecidableEq

def ProbeRule.applies (r : ProbeRule) (gv : GroupVersion) : Bool :=
  accepts r.group gv.group && accepts r.version gv.version

/-- How often a check was made that falls under the same rule as `i` does. -/
def probeUses (rule : GroupVersion → Option Nat) (i : Nat) (t : Trace C T) : Nat :=
  t.countP fun e =>
    match e.what with
    | .probed gv _ => rule gv = some i
    | _ => false

def Check.withFault (gv : GroupVersion) (c : Check String) : Check Fault :=
  { cancels := c.cancels, duration := c.duration,
    finding := match c.finding with
      | .ready => .ready
      | .notYet => .notYet
      | .failed m => .failed (.discovery gv.apiVersion m) }

/-- The check of a group and version; without a rule it is ready at once. -/
def check (rules : List ProbeRule) (t : Trace C T) (gv : GroupVersion) : Check Fault :=
  let rule (gv : GroupVersion) := rules.findIdx? fun r => r.applies gv
  let found := do
    let i ← rule gv
    let r ← rules[i]?
    line? r.answers (probeUses rule i t)
  Check.withFault gv (found.getD ⟨false, some 0, .ready⟩)

/-! ## Servers -/

/-- A response and the milliseconds until it comes. -/
structure Reply where
  response : Discovery.Response
  delay : Nat
  deriving DecidableEq

/-- Replies to the requests that name some path, or any; a query is part of what is named. -/
structure ServerRule where
  path : Option String
  replies : List Reply
  deriving DecidableEq

/-- The reply to a request; without a rule it is an empty body. -/
def reply (rules : List ServerRule) (t : Trace C T) (gv : GroupVersion) : Reply :=
  let rule (gv : GroupVersion) :=
    rules.findIdx? fun r => accepts r.path (Discovery.requestTarget gv)
  let found := do
    let i ← rule gv
    let r ← rules[i]?
    line? r.replies (probeUses rule i t)
  found.getD ⟨.received 200 "", 0⟩

def Reply.check (gv : GroupVersion) (r : Reply) : Check Fault :=
  ⟨false, some r.delay,
    match r.response.ready gv with
    | .ok true => .ready
    | .ok false => .notYet
    | .error f => .failed f⟩

/-! ## Controllers -/

inductive SpawnTime where
  | before
  | after
  | never
  deriving DecidableEq

inductive OnCancel where
  | ignore
  | fail
  | succeed
  deriving DecidableEq

structure Behaviour where
  controllerName : Option String
  spawn : SpawnTime
  spawnAs : Option String
  body : LoopBody
  cancels : Bool
  delay : Option Nat
  onCancel : OnCancel
  fail : Option String
  deriving DecidableEq

/-- A controller that starts its loop at once and registers without delay. -/
def Behaviour.plain : Behaviour := ⟨none, .before, none, .forever, false, none, .fail, none⟩

structure ControllerRule where
  capability : Option String
  ns : Option String
  kind : Option String
  name : Option String
  attempts : List Behaviour
  deriving DecidableEq

def ControllerRule.applies (r : ControllerRule) (capability : String) (x : ResourceReference) :
    Bool :=
  accepts r.capability capability && r.ns.all (fun ns => x.ns = some ns) && accepts r.kind x.kind &&
    accepts r.name x.name

/-- The name of a controller that a behaviour gives no name. -/
def defaultName (capability : String) (x : ResourceReference) : String :=
  capability ++ "-ctrl-" ++ x.ns.getD "cluster" ++ "-" ++ x.name

/-- The registration that a behaviour describes, for a controller of a name. -/
def Behaviour.registration (b : Behaviour) (name : String) : Registration :=
  let loop := Registration.spawn (b.spawnAs.getD name) b.body
  let last := match b.fail with
    | some m => .finish (some (.registration name m))
    | none => .synced (.finish none)
  let late := if b.spawn = .after then loop last else last
  let slept := match b.delay with
    | none => late
    | some d =>
      let interrupted := match b.onCancel with
        | .ignore => none
        | .fail => some (some (.registration name "initial sync interrupted"))
        | .succeed => some none
      .sleep (some d) interrupted late
  let fired := if b.cancels then .cancel true slept else slept
  if b.spawn = .before then loop fired else fired

/-- How often a controller was made that falls under the same rule as `i` does. -/
def controllerUses [Targeted T] (rule : String → ResourceReference → Option Nat) (i : Nat)
    (t : Trace C T) : Nat :=
  t.countP fun e =>
    match e.what, e.scope with
    | .created _ x _, some scope => rule scope.capability (Targeted.reference x) = some i
    | _, _ => false

def controller [Targeted T] (rules : List ControllerRule) (t : Trace C T) (capability : String)
    (x : T) : Controller :=
  let rule (c : String) (r : ResourceReference) := rules.findIdx? fun q => q.applies c r
  let r := Targeted.reference x
  let found := do
    let i ← rule capability r
    let q ← rules[i]?
    line? q.attempts (controllerUses rule i t)
  let b := found.getD .plain
  let name := b.controllerName.getD (defaultName capability r)
  ⟨name, b.registration name⟩

/-- The longest wait of a registration under some rules. -/
def patience (rules : List ControllerRule) : Nat :=
  (rules.flatMap fun r => r.attempts.filterMap (·.delay)).foldl max 0

/-! ## All collaborators -/

/-- Collaborators whose checks are answered on the spot. -/
def onTheSpot [Targeted T] (probes : List ProbeRule) (controllers : List ControllerRule) :
    Collaborators C T where
  remote := false
  refusal? _ := none
  check t _ gv := check probes t gv
  create t _ capability x _ := controller controllers t capability x

/-- Collaborators whose checks are answered by a server. -/
def overTheWire [Targeted T] (server : List ServerRule) (controllers : List ControllerRule) :
    Collaborators C T where
  remote := true
  refusal? := Discovery.unaskable?
  check t _ gv := (reply server t gv).check gv
  create t _ capability x _ := controller controllers t capability x

end Lifecycle.Script
