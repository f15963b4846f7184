import Lifecycle.Reference

/-!
# Addresses of the discovery endpoint

A group and version lists its resources under an address made of its texts. An
address is a path, a query behind the first question mark and a fragment behind the
first hash sign. The fragment never reaches the server: a request names the path, and
the query if there is one. Not every text can stand in an address, so that some
groups and versions cannot be asked for at all.
-/

namespace Lifecycle.Discovery

inductive AddressFault where
  | invalidCharacter
  | tooLong
  deriving DecidableEq

namespace AddressFault

def message : AddressFault → String
  | invalidCharacter => "invalid uri character"
  | tooLong => "uri too long"

end AddressFault

/-- An address without its fragment; an empty query is not the same as none. -/
structure Address where
  path : List Char
  query : Option (List Char)
  deriving DecidableEq

namespace Address

/-- The parts of a text before its fragment. -/
def ofText (s : List Char) : Address :=
  let located := s.takeWhile (· ≠ '#')
  ⟨located.takeWhile (· ≠ '?'), (located.dropWhile (· ≠ '?')).tail?⟩

/-- What a request for an address names. -/
def target (a : Address) : List Char := a.path ++ (a.query.map ('?' :: ·)).getD []

/-- Neither a control character of ASCII nor the space. -/
def isVisible (c : Char) : Bool := 0x20 < c.toNat && c.toNat != 0x7f

/-- Whether a character can stand in a path; those beyond ASCII can. -/
def isPathChar (c : Char) : Bool := isVisible c && c != '<' && c != '>' && c != '\x60'

def isQueryChar (c : Char) : Bool := isVisible c && c != '"' && c != '<' && c != '>'

def isValid (a : Address) : Bool := a.path.all isPathChar && a.query.all (·.all isQueryChar)

/-- A request names everything in front of the first hash sign. -/
theorem target_ofText (s : List Char) : (ofText s).target = s.takeWhile (· ≠ '#') := by
  have mark : ∀ t : List Char,
      ((t.dropWhile (· ≠ '?')).tail?.map ('?' :: ·)).getD [] = t.dropWhile (· ≠ '?') := by
    intro t
    induction t with
    | nil => rfl
    | cons c t ih => by_cases h : c = '?' <;> simp_all
  simp only [target, ofText, mark, List.takeWhile_append_dropWhile]

end Address

def maxAddressBytes : Nat := 65534

/-- The text of the address under which a group and version lists its resources. -/
def addressText (gv : GroupVersion) : String :=
  if gv.isCore then "/api/" ++ gv.version else "/apis/" ++ gv.apiVersion

def address (gv : GroupVersion) : Address := .ofText (addressText gv).toList

def requestTarget (gv : GroupVersion) : String := String.ofList (address gv).target

/-- What is wrong with the address of a group and version, if anything. -/
def addressFault? (gv : GroupVersion) : Option AddressFault :=
  if maxAddressBytes < (addressText gv).utf8ByteSize then some .tooLong
  else if (address gv).isValid then none
  else some .invalidCharacter

end Lifecycle.Discovery
