import Lifecycle.Json.Scan

/-!
# Reading JSON text

`read` turns a whole text into a value. Members of an object end up in ascending
order of their keys, and of two members with one key the later one stays. Arrays
and objects may be nested 127 deep.

The depth of nesting is what the recursion is on; the elements of a list are
walked with the length of the text as a bound, which every element shortens.
-/

namespace Lifecycle.Json

def maxDepth : Nat := 127

/-- Before the next element of a list: a comma, or the end. -/
def nextItem (first : Bool) (s : List Char) : Scan Bool :=
  match skipGap s with
  | [] => .error (.here .endInList [])
  | c :: r =>
    if c = ']' then .ok (false, r)
    else if first then .ok (true, c :: r)
    else if c = ',' then
      match skipGap r with
      | [] => .error (.here .endInValue [])
      | d :: q => if d = ']' then .error (.ahead1 .trailingComma (d :: q)) else .ok (true, d :: q)
    else .error (.ahead1 .expectedListCommaOrEnd (c :: r))

/-- Before the next member of an object: a comma and the quote of a key, or the end. -/
def nextMember (first : Bool) (s : List Char) : Scan Bool :=
  match skipGap s with
  | [] => .error (.here .endInObject [])
  | c :: r =>
    if c = '\x7d' then .ok (false, r)
    else if first then
      if c = '"' then .ok (true, r) else .error (.ahead1 .keyMustBeString (c :: r))
    else if c = ',' then
      match skipGap r with
      | [] => .error (.here .endInValue [])
      | d :: q =>
        if d = '"' then .ok (true, q)
        else if d = '\x7d' then .error (.ahead1 .trailingComma (d :: q))
        else .error (.ahead1 .keyMustBeString (d :: q))
    else .error (.ahead1 .expectedObjectCommaOrEnd (c :: r))

def colon (s : List Char) : Scan Unit :=
  match skipGap s with
  | [] => .error (.here .endInObject [])
  | c :: r => if c = ':' then .ok ((), r) else .error (.ahead1 .expectedColon (c :: r))

/-- The elements of a list, after its bracket, each read by `item`. -/
def readItems (item : List Char → Scan Json) :
    Nat → Bool → List Char → Except Stop (List Json × List Char)
  | 0, _, s => .error (.here .endInList s)
  | fuel + 1, first, s => do
    let (more, s) ← nextItem first s
    if more then
      let (v, s) ← item s
      let (vs, s) ← readItems item fuel false s
      return (v :: vs, s)
    else return ([], s)

/-- The members of an object, after its brace, each value read by `item`. -/
def readMembers (item : List Char → Scan Json) :
    Nat → Bool → List (String × Json) → List Char →
      Except Stop (List (String × Json) × List Char)
  | 0, _, _, s => .error (.here .endInObject s)
  | fuel + 1, first, ms, s => do
    let (more, s) ← nextMember first s
    if more then
      let (k, s) ← stringText s
      let (_, s) ← colon s
      let (v, s) ← item s
      readMembers item fuel false (insertMember k v ms) s
    else return (ms, s)

/-- The value in front of a text, of at most `depth` levels. -/
def readValue : Nat → List Char → Except Stop (Json × List Char)
  | depth, s =>
    match skipGap s with
    | [] => .error (.here .endInValue [])
    | c :: r =>
      if c = 'n' then (name ['u', 'l', 'l'] r).map fun p => (null, p.2)
      else if c = 't' then (name ['r', 'u', 'e'] r).map fun p => (bool true, p.2)
      else if c = 'f' then (name ['a', 'l', 's', 'e'] r).map fun p => (bool false, p.2)
      else if c = '-' then number true r
      else if c.isDigit then number false (c :: r)
      else if c = '"' then (stringText r).map fun p => (string p.1, p.2)
      else if c = '[' then
        match depth with
        | 0 => .error (.ahead1 .nestedTooDeeply (c :: r))
        | depth + 1 =>
          (readItems (readValue depth) (r.length + 1) true r).map fun p => (array p.1, p.2)
      else if c = '\x7b' then
        match depth with
        | 0 => .error (.ahead1 .nestedTooDeeply (c :: r))
        | depth + 1 =>
          (readMembers (readValue depth) (r.length + 1) true [] r).map fun p => (object p.1, p.2)
      else .error (.ahead1 .expectedValue (c :: r))

/-- Nothing but blanks may be left at the end of a text. -/
def atEnd (s : List Char) : Except Stop Unit :=
  match skipGap s with
  | [] => .ok ()
  | c :: r => .error (.ahead1 .trailingCharacters (c :: r))

def readChars (s : List Char) : Except Stop Json := do
  let (v, s) ← readValue maxDepth s
  atEnd s
  return v

/-- The value that a text holds, or what is wrong with the text. -/
def read (text : String) : Except String Json :=
  match readChars text.toList with
  | .ok v => .ok v
  | .error e => .error (e.message text.toList)

/-! ## Values that nobody wants -/

/-- A numeral of which only the form counts. -/
def skipNumeral (s : List Char) : Except Stop (List Char) :=
  match numeral false s with
  | .ok (_, r) => .ok r
  | .error e => .error (if e.trouble = .endInValue then { e with trouble := .invalidNumber } else e)

/-- What stands in front of a text: a whole value without parts, or the start of one with parts. -/
def skipScalar (s : List Char) : Except Stop (Option Bool × List Char) :=
  match skipGap s with
  | [] => .error (.here .endInValue [])
  | c :: r =>
    if c = 'n' then (name ['u', 'l', 'l'] r).map fun p => (none, p.2)
    else if c = 't' then (name ['r', 'u', 'e'] r).map fun p => (none, p.2)
    else if c = 'f' then (name ['a', 'l', 's', 'e'] r).map fun p => (none, p.2)
    else if c = '-' then (skipNumeral r).map (none, ·)
    else if c.isDigit then (skipNumeral (c :: r)).map (none, ·)
    else if c = '"' then (stringBody false r).map fun p => (none, p.2)
    else if c = '[' then .ok (some false, r)
    else if c = '\x7b' then .ok (some true, r)
    else .error (.ahead1 .expectedValue (c :: r))

/-- The key and the colon of a member whose value is skipped. -/
def skipKey (s : List Char) : Except Stop (List Char) := do
  match skipGap s with
  | [] => throw (.here .endInObject [])
  | c :: r =>
    if c = '"' then
      let (_, s) ← stringBody false r
      let (_, s) ← colon s
      return s
    else throw (.ahead1 .keyMustBeString (c :: r))

/--
After a value, or at the start of a list or an object: closes what ends here, and stops before
the next value. The open lists and objects are on a stack, innermost first; `true` is an object.
-/
def closeOpen (comma : Bool) (s : List Char) :
    List Bool → Except Stop (List Bool × List Char)
  | [] => .ok ([], s)
  | isObject :: outer =>
    match skipGap s with
    | [] => .error (.here (if isObject then .endInObject else .endInList) [])
    | c :: r =>
      if c = (if isObject then '\x7d' else ']') then closeOpen true r outer
      else if comma ∧ c ≠ ',' then
        .error (.ahead1 (if isObject then .expectedObjectCommaOrEnd else .expectedListCommaOrEnd)
          (c :: r))
      else
        let s := if comma then r else c :: r
        if isObject then (skipKey s).map fun s => (isObject :: outer, s)
        else .ok (isObject :: outer, s)

/-- What is left after a value, of any depth. -/
def skipValue : Nat → List Bool → List Char → Except Stop (List Char)
  | 0, _, s => .error (.here .endInValue s)
  | fuel + 1, stack, s => do
    let (opened, s) ← skipScalar s
    let (stack, s) ← match opened with
      | some isObject => closeOpen false s (isObject :: stack)
      | none => closeOpen true s stack
    if stack.isEmpty then return s else skipValue fuel stack s

/-- What is left after the value in front of a text. -/
def skip (s : List Char) : Except Stop (List Char) := skipValue (s.length + 1) [] s

end Lifecycle.Json
