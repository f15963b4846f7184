import Lifecycle.Level
import Lifecycle.Text.Alphanumeric
import Lifecycle.Text.Blank
import Lifecycle.Text.Numeral
import Lifecycle.Text.Pattern

/-!
# Directives of a log filter

A directive sets a threshold for the targets that start with a certain text. It may be
bound to units of work of a name, to a field, and to a value of that field.

It is written as a target, a scope in brackets, an equals sign and a level, and all but
one of target and scope can be left out: without a level everything is let through, and a
level on its own is one for all targets. A scope is a name, a field in braces or both, and
a field is a name, perhaps with an equals sign and a value.
-/

namespace Lifecycle.Telemetry

/-- What the value of a field has to be. -/
inductive Expected where
  | number (n : Nat)
  /-- A text that meets a pattern, which is kept as it is written. -/
  | text (pattern : String)
  deriving DecidableEq

structure FieldBound where
  name : String
  value : Option Expected
  deriving DecidableEq

/-- A threshold for the targets that start with a text, perhaps bound to work or to a field. -/
structure Directive where
  target : List Char
  work : Option String
  field : Option FieldBound
  threshold : Threshold
  deriving DecidableEq

inductive FilterError where
  | invalidDirective
  /-- The value of a field is no pattern. -/
  | invalidPattern
  /-- What stands behind an equals sign is no level. -/
  | invalidLevel
  deriving DecidableEq

namespace FilterError

def message : FilterError → String
  | invalidDirective => "invalid filter directive"
  | invalidPattern => "invalid field filter: error building NFA"
  | invalidLevel => "error parsing level filter: expected one of \"off\", \"error\", \"warn\", " ++
      "\"info\", \"debug\", \"trace\", or a number 0-5"

end FilterError

/-- The threshold that a number or a name in any case stands for. -/
def readThreshold? (s : List Char) : Option Threshold :=
  match Text.unsigned? Text.maxWord s with
  | some n => Threshold.ofNumber? n
  | none =>
    let name := String.ofList (s.map Char.toUpper)
    if name = "OFF" then some none else (Level.all.find? fun l => l.name = name).map some

/-- The threshold behind an equals sign; none at all lets everything through. -/
def readLevel (s : List Char) : Except FilterError Threshold :=
  if s.isEmpty then .ok (some .trace)
  else
    match readThreshold? s with
    | some t => .ok t
    | none => .error .invalidLevel

/-- What the text of a value asks for: a number if it reads as one. -/
def readExpected (s : List Char) : Except FilterError Expected :=
  match Text.unsigned? Text.maxWord s with
  | some n => .ok (.number n)
  | none =>
    let pattern := String.ofList s
    if (Text.Pattern.read? pattern).isSome then .ok (.text pattern) else .error .invalidPattern

/-- The field between two braces; a second equals sign ends its value. -/
def readFieldBound (s : List Char) : Except FilterError FieldBound :=
  let name := String.ofList (s.takeWhile (· ≠ '='))
  if s.isEmpty then .error .invalidDirective
  else
    match s.dropWhile (· ≠ '=') with
    | [] => .ok ⟨name, none⟩
    | _ :: value => (readExpected (value.takeWhile (· ≠ '='))).map fun e => ⟨name, some e⟩

def byteSize (s : List Char) : Nat := (s.map Char.utf8Size).foldr (· + ·) 0

/-- The characters of a text that start within some of its bytes. -/
def charsAt : List Char → (start size : Nat) → List Char
  | [], _, _ => []
  | c :: s, start, size =>
    if 0 < start then charsAt s (start - c.utf8Size) size
    else if 0 < size then c :: charsAt s 0 (size - c.utf8Size)
    else []

/-- What is cut out at the place of a part is that part. -/
theorem charsAt_append (a b c : List Char) :
    charsAt (a ++ b ++ c) (byteSize a) (byteSize b) = b := by
  have byteSize_cons (x : Char) (t : List Char) : byteSize (x :: t) = x.utf8Size + byteSize t := rfl
  have pos (x : Char) (t : List Char) : 0 < byteSize (x :: t) := by
    have := x.utf8Size_pos
    rw [byteSize_cons]
    omega
  induction a with
  | nil =>
    show charsAt (b ++ c) 0 (byteSize b) = b
    induction b with
    | nil => cases c <;> rfl
    | cons x b ih =>
      rw [List.cons_append, charsAt, if_neg (Nat.lt_irrefl 0), if_pos (pos x b), byteSize_cons,
        Nat.add_sub_cancel_left, ih]
  | cons x a ih =>
    rw [List.cons_append, List.cons_append, charsAt, if_pos (pos x a), byteSize_cons x a,
      Nat.add_sub_cancel_left, ih]

/-- Whether a directive can start with a character. -/
def startsDirective (c : Char) : Bool :=
  c = '[' || c = '-' || c = ':' || c = '_' || Text.isAlphanumeric c

/-- What stands behind the target of a directive, or behind its scope: nothing or a level. -/
def readRest (level : Nat → List Char) (start : Nat) : List Char → Except FilterError Threshold
  | [] => .ok (some .trace)
  | '=' :: _ => readLevel (level (start + 1))
  | _ :: _ => .error .invalidDirective

/--
The directive that a text writes. It is read without the blanks at its ends, but its parts are then
cut out of the whole text by the places at which they were found. Blanks in front therefore
spoil it: a directive that is only a target stands for one that starts with blanks, and in one with
a level the level is looked for too early and not found.
-/
def readDirective (s : List Char) : Except FilterError Directive :=
  let read := Text.trim s
  let cut (start : Nat) (part : List Char) := charsAt s start (byteSize part)
  let level (start : Nat) := charsAt s start (byteSize s)
  if ¬ read.head?.any startsDirective then .error .invalidDirective
  else
    let isTarget (c : Char) : Bool := c ≠ '=' ∧ c ≠ '['
    let target := read.takeWhile isTarget
    match read.dropWhile isTarget with
    | [] =>
      match readThreshold? s with
      | some t => .ok ⟨[], none, none, t⟩
      | none => .ok ⟨s, none, none, some .trace⟩
    | '[' :: rest =>
      let start := byteSize target + 1
      let isName (c : Char) : Bool := c ≠ ']' ∧ c ≠ '{'
      let name := rest.takeWhile isName
      let work := String.ofList (cut start name)
      let behind := start + byteSize name + 1
      match rest.dropWhile isName with
      | ']' :: rest => do
        return ⟨cut 0 target, some work, none, ← readRest level behind rest⟩
      | '{' :: rest =>
        let field := rest.takeWhile (· ≠ '}')
        match rest.dropWhile (· ≠ '}') with
        | [] => .error .invalidDirective
        | _ :: rest => do
          let bound ← readFieldBound (cut behind field)
          let work := if work.isEmpty then none else some work
          match rest with
          | ']' :: rest =>
            return ⟨cut 0 target, work, some bound,
              ← readRest level (behind + byteSize field + 2) rest⟩
          | _ => throw .invalidDirective
      | _ => .error .invalidDirective
    | rest => do return ⟨cut 0 target, none, none, ← readRest level (byteSize target) rest⟩

end Lifecycle.Telemetry
