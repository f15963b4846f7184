import Lifecycle.Text.Alphanumeric
import Lifecycle.Text.Blank

/-!
# Patterns for texts

A pattern describes texts by characters, repetitions and choices. Where it can be
met in several ways it prefers some of them: the left one of a choice, and one more
round of a repetition, unless that is marked as modest. A text is met if the way
that is preferred from its first character on ends at its last one, so that a
preferred way that ends earlier spoils a longer one.

In writing, a point stands for any character but a line feed, brackets around
characters and ranges for one of them (behind a circumflex, for any other), `d`, `s`
and `w` behind a backslash for a digit, a blank and a character of a word (as
capitals, for any other). A circumflex and a dollar sign are the two ends of the text.
-/

namespace Lifecycle.Text

inductive CharSet where
  | range (first last : Char)
  | digits
  | blanks
  | wordly
  | union (sets : List CharSet)
  | others (set : CharSet)

namespace CharSet

def one (c : Char) : CharSet := range c c

mutual

def contains (c : Char) : CharSet → Bool
  | range first last => first ≤ c && c ≤ last
  | digits => c.isDigit
  | blanks => isBlank c
  | wordly => isAlphanumeric c || c = '_'
  | union sets => anyContains c sets
  | others set => !set.contains c

def anyContains (c : Char) : List CharSet → Bool
  | [] => false
  | set :: sets => set.contains c || anyContains c sets

end

end CharSet

inductive Pattern where
  | nothing
  | one (set : CharSet)
  | first
  | last
  | seq (p q : Pattern)
  /-- A choice that prefers the left. -/
  | either (p q : Pattern)
  /-- Any number of rounds; a modest repetition prefers few of them. -/
  | many (modest : Bool) (p : Pattern)

namespace Pattern

/-- What rounds of a step can leave, the preferred rests first; one that takes nothing ends them. -/
def rounds (modest : Bool) (step : List Char → List (List Char)) :
    Nat → List Char → List (List Char)
  | 0, s => [s]
  | fuel + 1, s =>
    let more := (step s).flatMap fun t =>
      if t.length < s.length then rounds modest step fuel t else [t]
    (if modest then s :: more else more ++ [s]).eraseDups

/--
What a pattern can leave of the end of a text of a length, the preferred rests first. Each rest is
listed once, so that there are at most as many as the text has ends.
-/
def rests (length : Nat) : Pattern → List Char → List (List Char)
  | nothing, s => [s]
  | one _, [] => []
  | one set, c :: s => if set.contains c then [s] else []
  | first, s => if s.length = length then [s] else []
  | last, s => if s.isEmpty then [s] else []
  | seq p q, s => ((p.rests length s).flatMap (q.rests length)).eraseDups
  | either p q, s => (p.rests length s ++ q.rests length s).eraseDups
  | many modest p, s => rounds modest (p.rests length) s.length s

/-- Whether the preferred way through a pattern takes a whole text. -/
def meets (p : Pattern) (s : String) : Bool := (p.rests s.length s.toList).head? = some []

/-! ## Reading -/

/-- The set that a character stands for behind a backslash. -/
def escaped? (c : Char) : Option CharSet :=
  match c with
  | 'd' => some .digits
  | 'D' => some (.others .digits)
  | 's' => some .blanks
  | 'S' => some (.others .blanks)
  | 'w' => some .wordly
  | 'W' => some (.others .wordly)
  | 't' => some (.one '\t')
  | 'n' => some (.one '\n')
  | 'r' => some (.one '\r')
  | c => if c.isAlphanum || 0x7f < c.toNat || c ∈ ['<', '>'] then none else some (.one c)

/-- The sets between brackets, up to the closing one; what is read must not start with it. -/
def readSets? : List Char → Option (List CharSet × List Char)
  | [] => none
  | ']' :: s => some ([], s)
  | '[' :: _ => none
  | '\\' :: c :: s => do
    let set ← escaped? c
    let (sets, s) ← readSets? s
    return (set :: sets, s)
  | c :: '-' :: ']' :: s => some ([.one c, .one '-'], s)
  | c :: '-' :: d :: s =>
    if d = '[' ∨ d = '\\' ∨ d < c then none
    else do
      let (sets, s) ← readSets? s
      return (.range c d :: sets, s)
  | c :: s => do
    let (sets, s) ← readSets? s
    return (.one c :: sets, s)

/-- A set behind its opening bracket; a closing one at the very beginning is a member. -/
def readSet? (s : List Char) : Option (CharSet × List Char) := do
  let (negated, s) := match s with
    | '^' :: s => (true, s)
    | s => (false, s)
  let (bracket, s) := match s with
    | ']' :: s => ([.one ']'], s)
    | s => ([], s)
  let (sets, s) ← readSets? s
  let set := CharSet.union (bracket ++ sets)
  return (if negated then .others set else set, s)

/-- The repetitions behind a pattern: one on the other, each of them perhaps marked as modest. -/
def readRepetitions (p : Pattern) : List Char → Pattern × List Char
  | '*' :: '?' :: s => readRepetitions (many true p) s
  | '+' :: '?' :: s => readRepetitions (seq p (many true p)) s
  | '?' :: '?' :: s => readRepetitions (either nothing p) s
  | '*' :: s => readRepetitions (many false p) s
  | '+' :: s => readRepetitions (seq p (many false p)) s
  | '?' :: s => readRepetitions (either p nothing) s
  | s => (p, s)

mutual

/-- A pattern up to a closing parenthesis or the end of the text. -/
def readChoice? : Nat → List Char → Option (Pattern × List Char)
  | 0, _ => none
  | fuel + 1, s => do
    let (p, s) ← readSequence? fuel s
    match s with
    | '|' :: s =>
      let (q, s) ← readChoice? fuel s
      return (either p q, s)
    | s => return (p, s)

def readSequence? : Nat → List Char → Option (Pattern × List Char)
  | 0, _ => none
  | fuel + 1, s =>
    if s.head?.all fun c => c = '|' ∨ c = ')' then some (nothing, s)
    else do
      let (p, s) ← readPart? fuel s
      let (p, s) := readRepetitions p s
      let (q, s) ← readSequence? fuel s
      return (seq p q, s)

def readPart? : Nat → List Char → Option (Pattern × List Char)
  | 0, _ => none
  | fuel + 1, s =>
    match s with
    | '(' :: s => do
      let s := match s with
        | '?' :: ':' :: s => s
        | s => s
      let (p, s) ← readChoice? fuel s
      match s with
      | ')' :: s => return (p, s)
      | _ => none
    | '[' :: s => (readSet? s).map fun (set, s) => (one set, s)
    | '.' :: s => some (one (.others (.one '\n')), s)
    | '^' :: s => some (first, s)
    | '$' :: s => some (last, s)
    | '\\' :: c :: s => (escaped? c).map fun set => (one set, s)
    | c :: s => if c ∈ ['\\', '*', '+', '?', '{'] then none else some (one (.one c), s)
    | [] => none

end

/-- The pattern that a text writes: all of it has to be read. -/
def read? (s : String) : Option Pattern := do
  let (p, rest) ← readChoice? (3 * s.length + 3) s.toList
  if rest.isEmpty then some p else none

end Pattern

end Lifecycle.Text
