import Lifecycle.Json.Mismatch

/-!
# Records as documents

A record is read from an object or from an array. In an object the known keys are
visited in ascending order and the first value that does not fit is reported;
unknown keys do not matter; after that the first required field that is absent is
reported, in the order of declaration. In an array the elements are the fields in
the order of declaration: only optional fields may be missing at its end, and
there may be no more elements than fields.
-/

namespace Lifecycle.Document

abbrev Decoder (α : Type) := Json → Except Mismatch α

def unfit {α : Type} (wanted : String) (v : Json) : Except Mismatch α :=
  .error (.invalidType v.found wanted)

def string : Decoder String
  | .string s => .ok s
  | v => unfit "a string" v

/-- Every element of a list, in order, or the first one that does not fit. -/
def each {α : Type} (decode : Decoder α) : List Json → Except Mismatch (List α)
  | [] => .ok []
  | v :: vs => do
    let x ← decode v
    let xs ← each decode vs
    return x :: xs

def list {α : Type} (decode : Decoder α) : Decoder (List α)
  | .array vs => each decode vs
  | v => unfit "a sequence" v

/-- A value that may be null, which stands for none. -/
def nullable {α : Type} (decode : Decoder α) : Decoder (Option α)
  | .null => .ok none
  | v => (decode v).map some

/-! ## From an object -/

def field? {α : Type} (ms : List (String × Json)) (key : String) (decode : Decoder α) :
    Except Mismatch (Option α) :=
  match Json.lookup? key ms with
  | none => .ok none
  | some v => (decode v).map some

def required {α : Type} (key : String) : Option α → Except Mismatch α
  | some x => .ok x
  | none => .error (.missingField key)

/-! ## From an array -/

/-- The elements of an array that are left, and how many came before them. -/
abbrev Row := StateT (Nat × List Json) (Except Mismatch)

/-- The next element, which has to be there. -/
def Row.required {α : Type} (wanted : String) (decode : Decoder α) : Row α := do
  let (i, vs) ← get
  match vs with
  | [] => throw (.invalidLength i wanted)
  | v :: vs =>
    let x ← decode v
    set (i + 1, vs)
    return x

/-- The next element, or a default at the end of the array. -/
def Row.optional {α : Type} (default : α) (decode : Decoder α) : Row α := do
  let (i, vs) ← get
  match vs with
  | [] =>
    set (i + 1, ([] : List Json))
    return default
  | v :: vs =>
    let x ← decode v
    set (i + 1, vs)
    return x

/-- Reads a whole array by its elements. -/
def Row.run {α : Type} (row : Row α) (vs : List Json) : Except Mismatch α := do
  let (x, (_, rest)) ← StateT.run row (0, vs)
  if rest.isEmpty then return x
  else throw (.invalidLength vs.length "fewer elements in array")

/-! ## Records -/

/-- The name of a record and its number of fields, as they appear in messages. -/
structure Shape where
  name : String
  fields : Nat

namespace Shape

def wanted (s : Shape) : String := "struct " ++ s.name

def wantedElements (s : Shape) : String :=
  s.wanted ++ " with " ++ toString s.fields ++ (if s.fields = 1 then " element" else " elements")

end Shape

/-- A record from an object or from an array. -/
def record {α : Type} (s : Shape) (ofObject : List (String × Json) → Except Mismatch α)
    (ofArray : Row α) : Decoder α
  | .object ms => ofObject ms
  | .array vs => ofArray.run vs
  | v => unfit s.wanted v

end Lifecycle.Document
