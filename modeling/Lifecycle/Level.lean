/-!
# Levels

How important a report is. Levels are ordered from errors to traces, and a
threshold lets through what is at least as important as it says, or nothing.
-/

namespace Lifecycle

inductive Level where
  | error
  | warn
  | info
  | debug
  | trace
  deriving DecidableEq

namespace Level

def all : List Level := [error, warn, info, debug, trace]

/-- The number of a level; errors are the most important. -/
def rank : Level → Nat
  | error => 1
  | warn => 2
  | info => 3
  | debug => 4
  | trace => 5

def name : Level → String
  | error => "ERROR"
  | warn => "WARN"
  | info => "INFO"
  | debug => "DEBUG"
  | trace => "TRACE"

end Level

/-- The least important level that is let through; nothing lets nothing through. -/
abbrev Threshold := Option Level

namespace Threshold

def allows (t : Threshold) (l : Level) : Bool := t.any fun bound => l.rank ≤ bound.rank

/-- The threshold of a number: zero lets nothing through. -/
def ofNumber? (n : Nat) : Option Threshold :=
  if n = 0 then some none else (Level.all.find? fun l => l.rank = n).map some

end Threshold

end Lifecycle
