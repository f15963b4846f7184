import Lifecycle.Document
import Lifecycle.Json.Printer
import Lifecycle.Json.Reader

/-!
# Documents as text

The compact text of a record, and the record that a text holds.
-/

namespace Lifecycle.Document

inductive TextError where
  /-- The text is no JSON text. -/
  | unreadable (message : String)
  /-- The value does not fit the record. -/
  | unfit (m : Mismatch)
  deriving DecidableEq

def write {α : Type} (encode : α → Json) (x : α) : String := (encode x).text

def ofText {α : Type} (decode : Decoder α) (text : String) : Except TextError α :=
  match Json.read text with
  | .error e => .error (.unreadable e)
  | .ok v =>
    match decode v with
    | .error m => .error (.unfit m)
    | .ok x => .ok x

/-- Whether a record is read back from its own text. -/
def survives {α : Type} [DecidableEq α] (encode : α → Json) (decode : Decoder α) (x : α) : Bool :=
  match ofText decode (write encode x) with
  | .ok y => y = x
  | .error _ => false

end Lifecycle.Document
