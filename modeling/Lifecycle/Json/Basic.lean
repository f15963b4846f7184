import Lifecycle.Json.Binary64

/-!
# JSON values

A number is an integer or a floating-point number, decided by how it is written:
a number with a point or an exponent, one beyond sixty-four bits and a negative
zero are floating-point.

The members of an object are a list of pairs. A value that was read has them in
ascending order of their keys and each key once; a value that is about to be
written has them in the order in which they shall be written.
-/

namespace Lifecycle

inductive Json where
  | null
  | bool (b : Bool)
  | integer (i : Int)
  | float (x : Binary64)
  | string (s : String)
  | array (items : List Json)
  | object (members : List (String × Json))

namespace Json

def lookup? (key : String) : List (String × Json) → Option Json
  | [] => none
  | (k, v) :: rest => if k = key then some v else lookup? key rest

/-- The member of an object, if the value is an object that has it. -/
def member? (key : String) : Json → Option Json
  | object ms => lookup? key ms
  | _ => none

/-- Members in ascending order of keys with one more member, which replaces one of its key. -/
def insertMember (key : String) (value : Json) : List (String × Json) → List (String × Json)
  | [] => [(key, value)]
  | (k, v) :: rest =>
    match compare key k with
    | .lt => (key, value) :: (k, v) :: rest
    | .eq => (key, value) :: rest
    | .gt => (k, v) :: insertMember key value rest

@[simp] theorem lookup?_nil (key : String) : lookup? key [] = none := rfl

@[simp] theorem lookup?_cons_self (key : String) (v : Json) (ms : List (String × Json)) :
    lookup? key ((key, v) :: ms) = some v := by
  simp [lookup?]

theorem lookup?_cons_ne {key k : String} (h : k ≠ key) (v : Json) (ms : List (String × Json)) :
    lookup? key ((k, v) :: ms) = lookup? key ms := by
  simp [lookup?, h]

end Json

end Lifecycle
