import Lifecycle.Json.Mismatch

/-!
# The words of JSON text

Scanners for the words of a text: blanks, the three names, numerals and strings.
A scanner takes the characters that are left and gives back those it did not use.
One that fails says what is wrong and where: at the point where it stopped, or a
number of bytes further on.

Strings are scanned in two ways. One that is wanted has all its escapes decoded,
and half of a surrogate pair is refused. One that is skipped only has to end; where
a control character turns up, the scanner of a wanted string has stepped over it
and that of a skipped one has not.
-/

namespace Lifecycle.Json

inductive Trouble where
  | endInList
  | endInObject
  | endInString
  | endInValue
  | expectedColon
  | expectedListCommaOrEnd
  | expectedObjectCommaOrEnd
  | expectedName
  | expectedValue
  | invalidEscape
  | invalidNumber
  | numberOutOfRange
  | controlCharacter
  | keyMustBeString
  | loneSurrogate
  | trailingComma
  | trailingCharacters
  | unfinishedPair
  | nestedTooDeeply
  /-- The text is well formed, but the value does not fit. -/
  | unfit (m : Mismatch)
  deriving DecidableEq

namespace Trouble

def message : Trouble → String
  | endInList => "EOF while parsing a list"
  | endInObject => "EOF while parsing an object"
  | endInString => "EOF while parsing a string"
  | endInValue => "EOF while parsing a value"
  | expectedColon => "expected `:`"
  | expectedListCommaOrEnd => "expected `,` or `]`"
  | expectedObjectCommaOrEnd => "expected `,` or `\x7d`"
  | expectedName => "expected ident"
  | expectedValue => "expected value"
  | invalidEscape => "invalid escape"
  | invalidNumber => "invalid number"
  | numberOutOfRange => "number out of range"
  | controlCharacter => "control character (\\u0000-\\u001F) found while parsing a string"
  | keyMustBeString => "key must be a string"
  | loneSurrogate => "lone leading surrogate in hex escape"
  | trailingComma => "trailing comma"
  | trailingCharacters => "trailing characters"
  | unfinishedPair => "unexpected end of hex escape"
  | nestedTooDeeply => "recursion limit exceeded"
  | unfit m => m.message

end Trouble

/-- Where and why a scanner stopped: `ahead` bytes after the start of `rest`. -/
structure Stop where
  trouble : Trouble
  rest : List Char
  ahead : Nat
  deriving DecidableEq

/-- A trouble right where the scanner stands. -/
def Stop.here (t : Trouble) (rest : List Char) : Stop := ⟨t, rest, 0⟩

/-- A trouble with the byte in front of the scanner. -/
def Stop.ahead1 (t : Trouble) (rest : List Char) : Stop := ⟨t, rest, 1⟩

/-- The result of a scanner: what it read and what is left, or where it stopped. -/
abbrev Scan (α : Type) := Except Stop (α × List Char)

/-! ## Where a scanner stopped -/

def byteLength (s : List Char) : Nat := (s.map Char.utf8Size).foldr (· + ·) 0

/-- The line, from one, and the column in bytes of a byte offset into a text. -/
def position (text : List Char) (offset : Nat) : Nat × Nat :=
  let rec go : List Char → Nat → Nat → Nat → Nat × Nat
    | [], _, line, column => (line, column)
    | c :: r, left, line, column =>
      if left = 0 then (line, column)
      else if c.utf8Size ≤ left then
        if c = '\n' then go r (left - c.utf8Size) (line + 1) 0
        else go r (left - c.utf8Size) line (column + c.utf8Size)
      else (line, column + left)
  go text offset 1 0

/-- What is wrong with a text, and at which line and column of it. -/
def Stop.message (s : Stop) (text : List Char) : String :=
  let total := byteLength text
  let offset := min total (total - byteLength s.rest + s.ahead)
  let (line, column) := position text offset
  s.trouble.message ++ " at line " ++ toString line ++ " column " ++ toString column

/-! ## Blanks and names -/

def isGap (c : Char) : Bool := c = ' ' || c = '\n' || c = '\t' || c = '\r'

def skipGap (s : List Char) : List Char := s.dropWhile isGap

/-- The remaining characters of a name. -/
def name : List Char → List Char → Scan Unit
  | [], s => .ok ((), s)
  | _ :: _, [] => .error (.here .endInValue [])
  | c :: cs, d :: s => if c = d then name cs s else .error (.ahead1 .expectedName (d :: s))

/-! ## Numerals -/

structure Numeral where
  negative : Bool
  whole : List Char
  /-- The digits after the point, if there is one. -/
  fraction : Option (List Char)
  /-- The sign and the digits of the exponent, if there is one. -/
  exponent : Option (Bool × List Char)
  deriving DecidableEq

def digits (s : List Char) : List Char × List Char := s.span Char.isDigit

/-- The integer part: a zero alone, or digits that do not start with one. -/
def wholePart : List Char → Scan (List Char)
  | [] => .error (.here .endInValue [])
  | '0' :: s =>
    match s with
    | c :: _ => if c.isDigit then .error (.ahead1 .invalidNumber s) else .ok (['0'], s)
    | [] => .ok (['0'], s)
  | c :: s => if c.isDigit then .ok (digits (c :: s)) else .error (.ahead1 .invalidNumber (c :: s))

/-- The digits after a point, of which there is at least one. -/
def fractionPart : List Char → Scan (Option (List Char))
  | '.' :: s =>
    match digits s with
    | ([], []) => .error (.here .endInValue [])
    | ([], c :: r) => .error (.ahead1 .invalidNumber (c :: r))
    | (ds, r) => .ok (some ds, r)
  | s => .ok (none, s)

def exponentSign : List Char → Bool × List Char
  | '-' :: s => (true, s)
  | '+' :: s => (false, s)
  | s => (false, s)

/-- An exponent, with at least one digit. -/
def exponentPart (s : List Char) : Scan (Option (Bool × List Char)) :=
  match s with
  | c :: r =>
    if c = 'e' ∨ c = 'E' then
      let (sign, r) := exponentSign r
      match digits r with
      | ([], []) => .error (.here .endInValue [])
      | ([], d :: r) => .error (.ahead1 .invalidNumber (d :: r))
      | (ds, r) => .ok (some (sign, ds), r)
    else .ok (none, s)
  | [] => .ok (none, s)

def numeral (negative : Bool) (s : List Char) : Except Stop (Numeral × List Char) := do
  let (w, s) ← wholePart s
  let (f, s) ← fractionPart s
  let (e, s) ← exponentPart s
  return (⟨negative, w, f, e⟩, s)

def digitsNat (ds : List Char) : Nat := ds.foldl (fun n c => 10 * n + (c.toNat - 48)) 0

def maxWord : Nat := UInt64.size - 1

/--
The digits that fit a word of sixty-four bits, and the number of digits left out from the first
that does not fit.
-/
def leadingWord : List Char → Nat → Nat × Nat
  | [], n => (n, 0)
  | c :: r, n =>
    let m := 10 * n + (c.toNat - 48)
    if m ≤ maxWord then leadingWord r m else (n, r.length + 1)

/-- The number that a numeral writes; nothing if it is too large for a floating-point number. -/
def Numeral.value? (n : Numeral) : Option Json :=
  let (w, lost) := leadingWord n.whole 0
  match n.fraction, n.exponent with
  | none, none =>
    if lost = 0 ∧ ¬ n.negative then some (integer w)
    else if lost = 0 ∧ 0 < w ∧ w ≤ 1 <<< 63 then some (integer (-(w : Int)))
    else (Binary64.ofDecimal n.negative w lost).map float
  | f, e =>
    let ds := f.getD []
    -- Once a digit of the fraction does not fit, the later ones are left out as well.
    let (m, dropped) := leadingWord ds w
    let shift : Int := (lost : Int) - ((ds.length - dropped : Nat) : Int)
    let power : Int := match e with
      | none => 0
      | some (true, xs) => -(digitsNat xs : Int)
      | some (false, xs) => digitsNat xs
    -- An exponent that is out of all proportion never reaches the arithmetic.
    let total := shift + power
    if m = 0 ∨ total < -5000 then some (float ⟨n.negative, 0, Binary64.minExponent⟩)
    else if 5000 < total then none
    else (Binary64.ofDecimal n.negative m total).map float

/-- The largest exponent that is read to its end. -/
def maxPower : Nat := 1 <<< 31 - 1

/-- The digits of an exponent behind the one with which it exceeds `maxPower`. -/
def excess : List Char → Nat → List Char
  | [], _ => []
  | c :: r, n =>
    let m := 10 * n + (c.toNat - 48)
    if m ≤ maxPower then excess r m else r

/-- The end of a numeral that is not looked at once the number is known to be too large. -/
def Numeral.unread (n : Numeral) : List Char :=
  match n.exponent with
  | none => []
  | some (_, ds) => excess ds 0

/-- The number in front of a text, after its sign. -/
def number (negative : Bool) (s : List Char) : Except Stop (Json × List Char) := do
  let (n, s) ← numeral negative s
  match n.value? with
  | some v => return (v, s)
  | none => throw (.here .numberOutOfRange (n.unread ++ s))

/-! ## Strings -/

def hexDigit? (c : Char) : Option Nat :=
  if c.isDigit then some (c.toNat - 48)
  else if 'a'.toNat ≤ c.toNat ∧ c.toNat ≤ 'f'.toNat then some (c.toNat - 87)
  else if 'A'.toNat ≤ c.toNat ∧ c.toNat ≤ 'F'.toNat then some (c.toNat - 55)
  else none

/-- The number that hexadecimal digits write. -/
def hexValue? : List Char → Option Nat :=
  List.foldl (fun n? c => n?.bind fun n => (hexDigit? c).map (16 * n + ·)) (some 0)

def hexWord (s : List Char) : Scan Nat :=
  if byteLength s < 4 then .error (.here .endInString [])
  else
    match hexValue? (s.take 4) with
    | some n => if s.length < 4 then .error ⟨.invalidEscape, s, 4⟩ else .ok (n, s.drop 4)
    | none => .error ⟨.invalidEscape, s, 4⟩

/-- The character of a surrogate pair, after its first half. -/
def pairedChar (first : Nat) : List Char → Scan Char
  | [] | ['\\'] => .error (.here .endInString [])
  | '\\' :: 'u' :: t =>
    match hexWord t with
    | .error e => .error e
    | .ok (second, r) =>
      if 0xdc00 ≤ second ∧ second ≤ 0xdfff then
        .ok (Char.ofNat ((first - 0xd800) * 0x400 + (second - 0xdc00) + 0x10000), r)
      else .error (.here .loneSurrogate r)
  | '\\' :: c :: t => .error (.ahead1 .unfinishedPair (c :: t))
  | c :: t => .error (.ahead1 .unfinishedPair (c :: t))

/-- The character that four hexadecimal digits stand for, with a second half where one is due. -/
def codeChar (strict : Bool) (s : List Char) : Scan Char :=
  match hexWord s with
  | .error e => .error e
  | .ok (word, r) =>
    if ¬ strict then .ok (' ', r)
    else if 0xdc00 ≤ word ∧ word ≤ 0xdfff then .error (.here .loneSurrogate r)
    else if 0xd800 ≤ word ∧ word ≤ 0xdbff then pairedChar word r
    else .ok (Char.ofNat word, r)

/-- The character that an escape of one letter stands for. -/
def letterChar? (c : Char) : Option Char :=
  if c = '"' ∨ c = '\\' ∨ c = '/' then some c
  else if c = 'b' then some (Char.ofNat 8)
  else if c = 'f' then some (Char.ofNat 12)
  else if c = 'n' then some '\n'
  else if c = 'r' then some '\r'
  else if c = 't' then some '\t'
  else none

/-- The character that an escape stands for, after its backslash. -/
def escape (strict : Bool) : List Char → Scan Char
  | [] => .error (.here .endInString [])
  | c :: t =>
    match letterChar? c with
    | some d => .ok (d, t)
    | none => if c = 'u' then codeChar strict t else .error (.ahead1 .invalidEscape (c :: t))

theorem hexWord_shorter {s r : List Char} {n : Nat} (h : hexWord s = .ok (n, r)) :
    r.length ≤ s.length := by
  unfold hexWord at h
  split at h
  · cases h
  · split at h
    · split at h
      · cases h
      · cases h
        simp
    · cases h

theorem pairedChar_shorter {n : Nat} {s r : List Char} {c : Char}
    (h : pairedChar n s = .ok (c, r)) : r.length ≤ s.length := by
  unfold pairedChar at h
  split at h
  · cases h
  · cases h
  · split at h
    · cases h
    · next hw =>
      split at h
      · simp only [Except.ok.injEq, Prod.mk.injEq] at h
        obtain ⟨-, rfl⟩ := h
        exact Nat.le_succ_of_le (Nat.le_succ_of_le (hexWord_shorter hw))
      · cases h
  · cases h
  · cases h

theorem codeChar_shorter {b : Bool} {s r : List Char} {c : Char}
    (h : codeChar b s = .ok (c, r)) : r.length ≤ s.length := by
  unfold codeChar at h
  split at h
  · cases h
  · next hw =>
    have hs := hexWord_shorter hw
    split at h
    · cases h
      exact hs
    · split at h
      · cases h
      · split at h
        · exact Nat.le_trans (pairedChar_shorter h) hs
        · cases h
          exact hs

/-- An escape uses up at least its letter. -/
theorem escape_shorter {b : Bool} {s r : List Char} {c : Char} (h : escape b s = .ok (c, r)) :
    r.length < s.length := by
  unfold escape at h
  split at h
  · cases h
  · split at h
    · cases h
      simp
    · split at h
      · have := codeChar_shorter h
        simp only [List.length_cons]
        omega
      · cases h

/-- The characters of a string, after its opening quote. -/
def stringBody (strict : Bool) (s : List Char) : Scan (List Char) :=
  match s with
  | [] => .error (.here .endInString [])
  | c :: t =>
    if c = '"' then .ok ([], t)
    else if c = '\\' then
      match _h : escape strict t with
      | .error e => .error e
      | .ok (d, r) =>
        match stringBody strict r with
        | .error e => .error e
        | .ok (cs, q) => .ok (d :: cs, q)
    else if c.toNat < 0x20 then
      .error ⟨.controlCharacter, c :: t, if strict then 1 else 0⟩
    else
      match stringBody strict t with
      | .error e => .error e
      | .ok (cs, q) => .ok (c :: cs, q)
termination_by s.length
decreasing_by
  · have := escape_shorter _h
    simp only [List.length_cons]
    omega
  · simp only [List.length_cons]
    omega

/-- A wanted string, after its opening quote. -/
def stringText (s : List Char) : Except Stop (String × List Char) := do
  let (cs, r) ← stringBody true s
  return (String.ofList cs, r)

end Lifecycle.Json
