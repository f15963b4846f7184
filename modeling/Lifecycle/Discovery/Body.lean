import Lifecycle.Discovery.Answer
import Lifecycle.Json.Reader

/-!
# Bodies of discovery responses

A body is read while its shape is checked, so the first thing that is wrong with
it is reported, be it the text or the shape, together with the place where the
reader stood. A member that is not known is skipped and only has to be well
formed.

A value of the wrong sort is blamed at the place behind the value if it is a
scalar, and at its bracket if it is a list or an object. A value that the record
itself refuses is blamed behind whatever closes the record there.
-/

namespace Lifecycle.Discovery

open Json

def wrongSort {α : Type} (wanted : String) (s : List Char) : Except Stop α :=
  let blame (f : Found) (r : List Char) : Except Stop α :=
    .error (.here (.unfit (.invalidType f wanted)) r)
  match s with
  | [] => .error (.here .endInValue [])
  | c :: r =>
    if c = 'n' then (name ['u', 'l', 'l'] r).bind fun p => blame .null p.2
    else if c = 't' then (name ['r', 'u', 'e'] r).bind fun p => blame (.boolean true) p.2
    else if c = 'f' then (name ['a', 'l', 's', 'e'] r).bind fun p => blame (.boolean false) p.2
    else if c = '-' then (number true r).bind fun p => blame p.1.found p.2
    else if c.isDigit then (number false (c :: r)).bind fun p => blame p.1.found p.2
    else if c = '"' then (stringText r).bind fun p => blame (.text p.1) p.2
    else if c = '[' then blame .sequence (c :: r)
    else if c = '\x7b' then blame .map (c :: r)
    else .error (.ahead1 .expectedValue (c :: r))

def scanString (s : List Char) : Except Stop (String × List Char) :=
  match skipGap s with
  | '"' :: r => stringText r
  | r => wrongSort "a string" r

def scanBool (s : List Char) : Except Stop (Bool × List Char) :=
  match skipGap s with
  | 't' :: r => (name ['r', 'u', 'e'] r).map fun p => (true, p.2)
  | 'f' :: r => (name ['a', 'l', 's', 'e'] r).map fun p => (false, p.2)
  | r => wrongSort "a boolean" r

/-- A value that may be null. -/
def scanNullable {α : Type} (scan : List Char → Except Stop (α × List Char)) (s : List Char) :
    Except Stop (Option α × List Char) :=
  match skipGap s with
  | 'n' :: r => (name ['u', 'l', 'l'] r).map fun p => (none, p.2)
  | r => (scan r).map fun p => (some p.1, p.2)

/-- The elements of a list, after its bracket. -/
def scanItems {α : Type} (scan : List Char → Except Stop (α × List Char)) :
    Nat → Bool → List Char → Except Stop (List α × List Char)
  | 0, _, s => .error (.here .endInList s)
  | fuel + 1, first, s => do
    let (more, s) ← nextItem first s
    if more then
      let (x, s) ← scan s
      let (xs, s) ← scanItems scan fuel false s
      return (x :: xs, s)
    else return ([], s)

def scanList {α : Type} (scan : List Char → Except Stop (α × List Char)) (s : List Char) :
    Except Stop (List α × List Char) :=
  match skipGap s with
  | '[' :: r => scanItems scan (r.length + 1) true r
  | r => wrongSort "a sequence" r

/-! ## Objects -/

/-- Where a record stands that refuses its own content: behind the brace if it ends there. -/
def behindBrace (s : List Char) : List Char :=
  match skipGap s with
  | '\x7d' :: r => r
  | r => r

/-- Where a record stands that is not read from a list: behind the bracket or the comma. -/
def behindBracket (s : List Char) : List Char :=
  match skipGap s with
  | ']' :: r => r
  | ',' :: r => skipGap r
  | r => r

/-- What a record does with a member: it scans the value, and keeps or refuses the result. -/
abbrev MemberScan (σ : Type) :=
  String → σ → List Char → Except Stop (Except Mismatch σ × List Char)

/-- The members of an object, after its brace. -/
def scanMembers {σ : Type} (member : MemberScan σ) :
    Nat → Bool → σ → List Char → Except Stop (σ × List Char)
  | 0, _, _, s => .error (.here .endInObject s)
  | fuel + 1, first, kept, s => do
    let (more, s) ← nextMember first s
    if more then
      let (key, s) ← stringText s
      let (_, s) ← colon s
      match ← member key kept s with
      | (.ok kept, s) => scanMembers member fuel false kept s
      | (.error m, s) => throw (.here (.unfit m) (behindBrace s))
    else return (kept, s)

/-- A record that is only read from an object. -/
def scanObject {σ : Type} (wanted : String) (member : MemberScan σ) (start : σ) (s : List Char) :
    Except Stop (σ × List Char) :=
  match skipGap s with
  | '\x7b' :: r => scanMembers member (r.length + 1) true start r
  | '[' :: r => .error (.here (.unfit (.invalidType .sequence wanted)) (behindBracket r))
  | r => wrongSort wanted r

/-! ## The list of resources -/

namespace ResourceList

def FieldSort.scan (f : FieldSort) (s : List Char) : Except Stop (List Char) :=
  match f with
  | .string => (scanNullable scanString s).map (·.2)
  | .bool => (scanNullable scanBool s).map (·.2)
  | .strings => (scanNullable (scanList scanString) s).map (·.2)

def scanResource (s : List Char) : Except Stop (Unit × List Char) :=
  scanObject "APIResource"
    (fun key _ s =>
      match resourceFields.lookup key with
      | some f => (f.scan s).map (.ok (), ·)
      | none => (skip s).map (.ok (), ·))
    () s

/-- A string that has to be a certain one. -/
def scanConstant (wanted : String) (list : ResourceList) (s : List Char) :
    Except Stop (Except Mismatch ResourceList × List Char) :=
  (scanString s).map fun p =>
    (if p.1 = wanted then .ok list else .error (.invalidValue (.text p.1) wanted), p.2)

def scanMember : MemberScan ResourceList := fun key list s =>
  if key = "apiVersion" then scanConstant "v1" list s
  else if key = "kind" then scanConstant wanted list s
  else if key = "groupVersion" then
    (scanNullable scanString s).map fun p => (.ok ⟨p.1.getD "", list.resources⟩, p.2)
  else if key = "resources" then
    (scanNullable (scanList scanResource) s).map fun p =>
      (.ok ⟨list.groupVersion, (p.1.getD []).length⟩, p.2)
  else (skip s).map (.ok list, ·)

def ofChars (s : List Char) : Except Stop ResourceList := do
  let (list, r) ← scanObject wanted scanMember ⟨"", 0⟩ s
  atEnd r
  return list

/-- The list that a body holds, or what is wrong with the body. -/
def ofText (body : String) : Except String ResourceList :=
  match ofChars body.toList with
  | .ok list => .ok list
  | .error e => .error (e.message body.toList)

end ResourceList

/-! ## The refusal -/

namespace Refusal

/-- The fields of a refusal that have been met. -/
structure Parts where
  status : Option String
  message : Option String
  reason : Option String
  code : Option Nat

/-- Keeps a value for a field that has none yet. -/
def once {α : Type} (key : String) (old : Option α) (x : Except Mismatch α) :
    Except Mismatch (Option α) :=
  match old with
  | some _ => .error (.duplicateField key)
  | none => x.map some

def scanMember : MemberScan Parts := fun key p s =>
  let text (old : Option String) (keep : Option String → Parts) :
      Except Stop (Except Mismatch Parts × List Char) :=
    (scanString s).map fun q => ((once key old (.ok q.1)).map keep, q.2)
  if key = "status" then text p.status fun x => { p with status := x }
  else if key = "message" then text p.message fun x => { p with message := x }
  else if key = "reason" then text p.reason fun x => { p with reason := x }
  else if key = "code" then
    (readValue maxDepth s).map fun q =>
      ((once key p.code (decodeCode q.1)).map fun x => { p with code := x }, q.2)
  else (skip s).map (.ok p, ·)

/-- The refusal that a body holds, if it holds one: no field may come twice. -/
def ofText? (body : String) : Option Refusal :=
  match skipGap body.toList with
  | '\x7b' :: _ =>
    match scanObject shape.wanted scanMember ⟨none, none, none, none⟩ body.toList with
    | .ok (⟨some status, message, reason, some code⟩, r) =>
      match atEnd r with
      | .ok _ => some ⟨status, message.getD "", reason.getD "", code⟩
      | .error _ => none
    | _ => none
  | s =>
    match readChars s with
    | .ok v => (decode v).toOption
    | .error _ => none

end Refusal

end Lifecycle.Discovery
