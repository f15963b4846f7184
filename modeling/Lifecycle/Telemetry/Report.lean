import Lifecycle.Json.Printer
import Lifecycle.Level
import Lifecycle.Text.Quoted

/-!
# Reports

A report has a level, a target, which is the part of the program that it comes from,
a message and fields. It may come from within units of work, which have fields of
their own; like a report, a unit of work has a target and a level.
-/

namespace Lifecycle.Telemetry

inductive FieldValue where
  /-- A text that is quoted in a line of text. -/
  | quoted (s : String)
  /-- A text that is written as it is. -/
  | plain (s : String)
  | number (n : Nat)
  deriving DecidableEq

namespace FieldValue

def text : FieldValue → String
  | quoted s => Text.quoted s
  | plain s => s
  | number n => toString n

def json : FieldValue → Json
  | quoted s | plain s => .string s
  | number n => .integer n

end FieldValue

abbrev Fields := List (String × FieldValue)

/-- A unit of work that a report is part of; it is itself reported about at a level. -/
structure WorkSpan where
  name : String
  target : String
  level : Level
  fields : Fields
  deriving DecidableEq

structure Report where
  level : Level
  target : String
  message : String
  fields : Fields
  /-- The work around it, from the outermost. -/
  spans : List WorkSpan
  deriving DecidableEq

end Lifecycle.Telemetry
