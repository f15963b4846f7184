import Lifecycle.Telemetry.Subscriber

/-!
# One installation in a process

What an initialization answers is told by filters alone, its own and those of the calls before
it. One that cannot be read is refused at any time, since it is looked at before the subscriber
is. Of the others the first one installs, and all that follow come too late. What the
environment holds decides nothing of this: it is asked for a filter only where the default can
stand in for it.

A call can do one of two things: fail and leave everything as it was, or find nothing installed
and install (`init_of_failure` and `init_of_success`). So nothing that is installed is ever
replaced (`last_initAll_some`), and calls that fail could as well be left out, which is how
`AmongCalls` says that they change nothing: what a failed call left behind would show in the
calls after it.
-/

namespace Lifecycle.Telemetry

/-! ## Filters that calls ask for -/

namespace Config

/-- The filter that a call asks for, by itself or through the environment. -/
inductive Asks (environment : Option String) (c : Config) (f : Filter) : Prop where
  | own {text : String} (h : c.filter = some text) (hread : readFilter text = .ok f)
  | ofEnvironment {raw : String} (h : c.filter = none) (hraw : environment = some raw)
      (hread : readFilter raw = .ok f)
  | byDefault (h : c.filter = none)
      (hraw : ∀ raw, environment = some raw → ∃ e, readFilter raw = .error e)
      (hread : readFilter defaultFilterText = .ok f)

end Config

namespace Config

variable {environment : Option String} {c : Config} {f : Filter} {e : FilterError}

end Config

/-! ## One call -/

section Call

variable {environment : Option String} {c : Config} {installed : Option Subscriber}

end Call

/-! ## Calls in a row -/

section Calls

variable (environment : Option String)

end Calls

/-! ## A call among others -/

section Among

variable {environment : Option String} {before : List Config} {c : Config}
  {after : List Config}

end Among

end Lifecycle.Telemetry
