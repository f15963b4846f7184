import Lifecycle.Telemetry.Filter

/-!
# The subscriber

Reports go to the one subscriber of the process. It is installed by the first
initialization that succeeds and stays for good: its filter decides what is
written, and its form is either one JSON object for a report or one line of text.

An initialization first settles its filter: its own one, which has to be readable;
else that of the environment, if there is a readable one; else the default. Only
then it looks whether a subscriber is installed already.
-/

namespace Lifecycle.Telemetry

inductive Line where
  | json (v : Json)
  | text (s : String)

/-- The one receiver of reports. -/
structure Subscriber where
  filter : Filter
  json : Bool
  deriving DecidableEq

namespace Subscriber

def jsonFields (fs : Fields) : List (String × Json) := fs.map fun p => (p.1, p.2.json)

/-- A report as an object; of the work around it only the innermost is named. -/
def jsonLine (r : Report) (spans : List WorkSpan) : Json :=
  let span := spans.getLast?.map fun p =>
    ("span", Json.object (("name", .string p.name) :: jsonFields p.fields))
  .object ([("level", .string r.level.name), ("target", .string r.target),
    ("fields", .object (("message", .string r.message) :: jsonFields r.fields))] ++ span.toList)

def textFields (fs : Fields) : String := " ".intercalate (fs.map fun p => p.1 ++ "=" ++ p.2.text)

/-- A name at the right end of five columns. -/
def levelColumn (l : Level) : String :=
  String.ofList (List.replicate (5 - l.name.length) ' ') ++ l.name

def textLine (r : Report) (spans : List WorkSpan) : String :=
  let around := ":".intercalate (spans.map fun p => p.name ++ "\x7b" ++ textFields p.fields ++ "\x7d")
  let around := if spans.isEmpty then "" else around ++ ": "
  let fields := if r.fields.isEmpty then "" else " " ++ textFields r.fields
  levelColumn r.level ++ " " ++ around ++ r.target ++ ": " ++ r.message ++ fields

/-- What is written for a report, if the filter lets it through. -/
def write? (s : Subscriber) (r : Report) : Option Line :=
  let spans := s.filter.shown r.spans
  if s.filter.allows r spans then
    some (if s.json then .json (jsonLine r spans) else .text (textLine r spans))
  else none

end Subscriber

/-! ## Initialization -/

structure Config where
  serviceName : String
  json : Bool
  filter : Option String
  deriving DecidableEq

def Config.default : Config := ⟨"trellis", true, none⟩

inductive InitError where
  | filter (e : FilterError)
  | alreadyInstalled
  deriving DecidableEq

namespace InitError

def message : InitError → String
  | filter e => "invalid log filter: " ++ e.message
  | alreadyInstalled =>
    "failed to initialize tracing subscriber: a global default trace dispatcher has already been set"

end InitError

/-- The filter of an initialization in an environment that may hold a filter itself. -/
def Config.resolve (c : Config) (environment : Option String) : Except FilterError Filter :=
  match c.filter with
  | some text => readFilter text
  | none =>
    match environment.map readFilter with
    | some (.ok f) => .ok f
    | _ => readFilter defaultFilterText

def initialized (c : Config) : Report :=
  ⟨.info, "trellis_common::telemetry", "telemetry initialized", [("service", .plain c.serviceName)],
    []⟩

/-- An initialization, given what is installed: the result and what is installed afterwards. -/
def init (environment : Option String) (c : Config) (installed : Option Subscriber) :
    Except InitError Subscriber × Option Subscriber :=
  match c.resolve environment with
  | .error e => (.error (.filter e), installed)
  | .ok f =>
    match installed with
    | some _ => (.error .alreadyInstalled, installed)
    | none =>
      let s := ⟨f, c.json⟩
      (.ok s, some s)

/-- Several initializations in a row: their results, what is written, and what is installed. -/
def initAll (environment : Option String) :
    List Config → Option Subscriber → List (Option InitError) × List Line × Option Subscriber
  | [], installed => ([], [], installed)
  | c :: cs, installed =>
    let (r, installed) := init environment c installed
    let (rs, lines, last) := initAll environment cs installed
    match r with
    | .error e => (some e :: rs, lines, last)
    | .ok s => (none :: rs, (s.write? (initialized c)).toList ++ lines, last)

end Lifecycle.Telemetry
