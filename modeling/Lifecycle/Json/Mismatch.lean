import Lifecycle.Json.Basic
import Lifecycle.Text.Quoted

/-!
# Values that do not fit

What is said about a JSON value that is not of the wanted shape: what was found
and what was wanted, which member is missing or comes twice, or how many elements
an array lacks or has too many.
-/

namespace Lifecycle

/-- The sort of value that was found. -/
inductive Found where
  | null
  | boolean (b : Bool)
  | integer (i : Int)
  | float (x : Binary64)
  | text (s : String)
  | sequence
  | map
  deriving DecidableEq

namespace Found

/-- How a found value is named: scalars with their value, strings quoted. -/
def name : Found → String
  | null => "null"
  | boolean b => "boolean `" ++ toString b ++ "`"
  | integer i => "integer `" ++ toString i ++ "`"
  | float x => "floating point `" ++ x.text .standard ++ "`"
  | text s => "string " ++ Text.quoted s
  | sequence => "sequence"
  | map => "map"

end Found

def Json.found : Json → Found
  | .null => .null
  | .bool b => .boolean b
  | .integer i => .integer i
  | .float x => .float x
  | .string s => .text s
  | .array _ => .sequence
  | .object _ => .map

/-- Why a value is not of the wanted shape. -/
inductive Mismatch where
  | invalidType (found : Found) (wanted : String)
  /-- The sort is right, the value is not. -/
  | invalidValue (found : Found) (wanted : String)
  | missingField (key : String)
  | duplicateField (key : String)
  /-- An array has the wrong number of elements. -/
  | invalidLength (length : Nat) (wanted : String)
  deriving DecidableEq

namespace Mismatch

def message : Mismatch → String
  | invalidType f w => "invalid type: " ++ f.name ++ ", expected " ++ w
  | invalidValue f w => "invalid value: " ++ f.name ++ ", expected " ++ w
  | missingField k => "missing field `" ++ k ++ "`"
  | duplicateField k => "duplicate field `" ++ k ++ "`"
  | invalidLength n w => "invalid length " ++ toString n ++ ", expected " ++ w

end Mismatch

end Lifecycle
