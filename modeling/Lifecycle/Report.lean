import Lifecycle.Discovery.Exchange
import Lifecycle.Level
import Lifecycle.Trace

/-!
# Reports

Two views of the trace. The events are what the collaborators see: checks and
requests, and what is done to controllers. The records are what an operator reads:
a level, a sentence, its fields and the calls around it.

Controllers that are switched off together are switched off in no particular
order, and so are loops that stop together; in both views such runs are sorted.
-/

namespace Lifecycle

/-- Sorts each run of consecutive elements that share a key; elements without a key stay. -/
def sortRuns {α κ : Type} [DecidableEq κ] (key : α → Option κ) (le : α → α → Bool) (xs : List α) :
    List α :=
  (xs.splitBy fun a b => decide (key a = key b)).flatMap fun run =>
    match run with
    | [] => []
    | x :: _ => if (key x).isSome then run.mergeSort le else run

def textsLE : List String → List String → Bool
  | [], _ => true
  | _ :: _, [] => false
  | a :: as, b :: bs => if a < b then true else if b < a then false else textsLE as bs

variable {C T : Type}

/-! ## Events -/

/-- What a collaborator sees: the sort of event, two words about it, and perhaps settings. -/
structure Event (C : Type) where
  time : Nat
  words : List String
  config : Option C
  deriving DecidableEq

namespace Event

/-- The event that an entry is for the collaborators, if it is one. -/
def seen? [Targeted T] (remote : Bool) (e : Entry C T) : Option (Event C) :=
  let event (words : List String) : Option (Event C) := some ⟨e.time, words, none⟩
  match e.what with
  | .probed gv _ =>
    event (if remote then ["http", "GET", Discovery.requestTarget gv] else ["probe", gv.apiVersion])
  | .created c t config => some ⟨e.time, ["create", c, (Targeted.reference t).text], some config⟩
  | .registering c r => event ["register", c, r.text]
  | .synced c r => event ["registered", c, r.text]
  | .updated r c config => some ⟨e.time, ["activate", c, r.text], some config⟩
  | .deactivated r c => event ["deactivate", c, r.text]
  | _ => none

/-- Consecutive switch-offs are sorted by target and controller. -/
def runKey (e : Event C) : Option Unit := if e.words.head? = some "deactivate" then some () else none

def runLE (a b : Event C) : Bool := textsLE a.words.reverse b.words.reverse

/-- Events by their instant, and within one instant by their words. -/
def timeLE (a b : Event C) : Bool :=
  a.time < b.time || (a.time = b.time && textsLE a.words b.words)

/-- The events of some entries; those of a remote server are sorted throughout. -/
def ofEntries [Targeted T] (remote : Bool) (es : List (Entry C T)) : List (Event C) :=
  let events := sortRuns runKey runLE (es.filterMap (seen? remote))
  if remote then events.mergeSort timeLE else events

end Event

/-! ## Records -/

structure Span where
  name : String
  fields : List (String × String)
  deriving DecidableEq

structure Record where
  level : Level
  message : String
  fields : List (String × String)
  /-- The work around it, from the outermost. -/
  spans : List Span
  deriving DecidableEq

namespace Record

def stoppedMessage : String := "controller stopped by shutdown"

def failedMessage : String := "controller task failed"

def deactivatedMessage : String := "deactivating controller for target no longer desired"

/-- The level, the sentence and the fields of a report about loops. -/
def ofNotice : LoopNotice → Level × String × List (String × String)
  | .registered n => (.info, "controller registered", [("controller", n)])
  | .aborted n => (.info, "controller aborted", [("controller", n)])
  | .exited n => (.warn, "controller loop exited", [("controller", n)])
  | .stopped n => (.debug, stoppedMessage, [("controller", n)])
  | .failed n => (.warn, failedMessage, [("controller", n)])
  | .closed => (.info, "controller runtime shut down", [])

/-- The level, the sentence and the fields of a happening, if an operator is told of it. -/
def ofHappening? (remote : Bool) : Happening C T → Option (Level × String × List (String × String))
  | .answered gv _ finding =>
    let told (ready : String) := some (Level.debug, "probed schema availability",
      [("group_version", gv.apiVersion), ("ready", ready)])
    match remote, finding with
    | true, .ready => told "true"
    | true, .notYet => told "false"
    | _, _ => none
  | .loop n _ => some (ofNotice n)
  | .released r c =>
    some (.debug, "released partial registration", [("resource", r.text), ("controller", c)])
  | .setupFailed r c f =>
    some (.warn, "failed to setup controller",
      [("resource", r.text), ("controller", c), ("error", f.message)])
  | .installed r c =>
    some (.info, "controller created and registered", [("resource", r.text), ("controller", c)])
  | .updated r c _ =>
    some (.debug, "applying configuration to existing controller",
      [("resource", r.text), ("controller", c)])
  | .deactivated r c => some (.info, deactivatedMessage, [("resource", r.text), ("controller", c)])
  | .repeated r => some (.warn, "duplicate target ignored", [("resource", r.text)])
  | .timedOut r t =>
    some (.warn, "schema did not become available", [("resource", r.text), ("timeout", t.text)])
  | .probeFailed r f =>
    some (.warn, "readiness probe failed", [("resource", r.text), ("error", f.message)])
  | .callFailed n => some (.warn, "some targets could not be activated", [("failed", toString n)])
  | .probed .. | .created .. | .registering .. | .synced .. | .returned .. => none

/-- The work around an entry of a call; `outer` names what the call is part of. -/
def spansOf (outer : C → List Span) : Option (Scope C) → List Span
  | none => []
  | some s =>
    outer s.config ++
      [⟨"reconcile", [("capability", s.capability), ("targets", toString s.targets)]⟩]

def told? (remote : Bool) (outer : C → List Span) (e : Entry C T) : Option Record :=
  (ofHappening? remote e.what).map fun (level, message, fields) =>
    ⟨level, message, fields, spansOf outer e.scope⟩

/-- The two sorts of records whose runs are sorted, told apart by the work around them as well. -/
def runKey (r : Record) : Option (Bool × List Span) :=
  if r.message = deactivatedMessage then some (true, r.spans)
  else if r.message = stoppedMessage ∨ r.message = failedMessage then some (false, r.spans)
  else none

def runLE (a b : Record) : Bool :=
  let words (r : Record) :=
    [r.message, (r.fields.lookup "resource").getD "", (r.fields.lookup "controller").getD ""]
  textsLE (words a) (words b)

/-- The records of some entries. -/
def ofEntries (remote : Bool) (outer : C → List Span) (es : List (Entry C T)) : List Record :=
  sortRuns runKey runLE (es.filterMap (told? remote outer))

end Record

end Lifecycle
