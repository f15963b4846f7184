import Lifecycle.Discovery.Address
import Lifecycle.Document
import Lifecycle.Fault

/-!
# Answers of the discovery endpoint

Asking which resources a group and version has yields a list or one of many
failures. A schema is served when its list is not empty; a server that answers
404 does not serve it; any other failure is a fault of the query.
-/

namespace Lifecycle.Discovery

open Document

/-- What a server says when it refuses a request. -/
structure Refusal where
  status : String
  message : String
  reason : String
  code : Nat
  deriving DecidableEq

namespace Refusal

def shape : Shape := ⟨"ErrorResponse", 4⟩

def decodeCode : Decoder Nat
  | .integer i =>
    if 0 ≤ i ∧ i.toNat < UInt16.size then .ok i.toNat else .error (.invalidValue (.integer i) "u16")
  | v => unfit "u16" v

def decode : Decoder Refusal :=
  record shape
    (fun ms => do
      let code ← field? ms "code" decodeCode
      let message ← field? ms "message" string
      let reason ← field? ms "reason" string
      let status ← field? ms "status" string
      let status ← required "status" status
      let code ← required "code" code
      return ⟨status, message.getD "", reason.getD "", code⟩)
    (do
      let status ← Row.required shape.wantedElements string
      let message ← Row.optional "" string
      let reason ← Row.optional "" string
      let code ← Row.required shape.wantedElements decodeCode
      return ⟨status, message, reason, code⟩)

/-- All four fields of a refusal, texts quoted. -/
def text (r : Refusal) : String :=
  "ErrorResponse \x7b status: " ++ Text.quoted r.status ++ ", message: " ++ Text.quoted r.message ++
    ", reason: " ++ Text.quoted r.reason ++ ", code: " ++ toString r.code ++ " \x7d"

end Refusal

/-- The resources of a group and version; only their number matters. -/
structure ResourceList where
  groupVersion : String
  resources : Nat
  deriving DecidableEq

namespace ResourceList

def wanted : String := "APIResourceList"

def bool : Decoder Bool
  | .bool b => .ok b
  | v => unfit "a boolean" v

/-- What the value of a field of one resource has to be. -/
inductive FieldSort where
  | string
  | bool
  | strings
  deriving DecidableEq

/-- The fields of one resource in ascending order; every one of them may be absent or null. -/
def resourceFields : List (String × FieldSort) :=
  [("categories", .strings), ("group", .string), ("kind", .string), ("name", .string),
    ("namespaced", .bool), ("shortNames", .strings), ("singularName", .string),
    ("storageVersionHash", .string), ("verbs", .strings), ("version", .string)]

def FieldSort.check (s : FieldSort) (v : Json) : Except Mismatch Unit :=
  match s with
  | .string => (nullable Document.string v).map fun _ => ()
  | .bool => (nullable ResourceList.bool v).map fun _ => ()
  | .strings => (nullable (list Document.string) v).map fun _ => ()

def checkResource : Decoder Unit
  | .object ms =>
    resourceFields.forM fun f =>
      match Json.lookup? f.1 ms with
      | none => .ok ()
      | some v => f.2.check v
  | v => unfit "APIResource" v

/-- A text that has to be a certain one. -/
def constant (wanted : String) : Decoder Unit := fun v => do
  let s ← Document.string v
  if s = wanted then return () else throw (.invalidValue (.text s) wanted)

def decode : Decoder ResourceList
  | .object ms => do
    let _ ← field? ms "apiVersion" (constant "v1")
    let groupVersion ← field? ms "groupVersion" (nullable Document.string)
    let _ ← field? ms "kind" (constant wanted)
    let resources ← field? ms "resources" (nullable (list checkResource))
    return ⟨groupVersion.join.getD "", (resources.join.getD []).length⟩
  | v => unfit wanted v

end ResourceList

inductive Failure where
  | refused (r : Refusal)
  /-- There is no address to send a request to. -/
  | unaddressable (fault : AddressFault)
  /-- The request did not get through. -/
  | service (text : String)
  /-- The answer is no list. -/
  | undecodable (text : String)
  | readEvents (text : String)
  | tlsRequired
  | lineTooLong
  | invalidGroupVersion (text : String)
  | missingKind (text : String)
  | missingApiGroup (text : String)
  | missingResource (text : String)
  | emptyApiGroup (text : String)
  deriving DecidableEq

namespace Failure

def discoveryPart : String := "Error from discovery: "

def message : Failure → String
  | refused r => "ApiError: " ++ r.message ++ ": " ++ r.reason ++ " (" ++ r.text ++ ")"
  | unaddressable f => "HttpError: " ++ f.message
  | service t => "ServiceError: " ++ t
  | undecodable t => "Error deserializing response: " ++ t
  | readEvents t => "Error reading events stream: " ++ t
  | tlsRequired => "TLS required but no TLS stack selected"
  | lineTooLong => "Error finding newline character"
  | invalidGroupVersion t => discoveryPart ++ "Invalid GroupVersion: " ++ t
  | missingKind t => discoveryPart ++ "Missing Kind: " ++ t
  | missingApiGroup t => discoveryPart ++ "Missing Api Group: " ++ t
  | missingResource t => discoveryPart ++ "Missing Resource: " ++ t
  | emptyApiGroup t => discoveryPart ++ "Empty Api Group: " ++ t

end Failure

/-- Whether a group and version is served, by the answer to a query for its resources. -/
def classify (gv : GroupVersion) : Except Failure ResourceList → Except Fault Bool
  | .ok list => .ok (0 < list.resources)
  | .error f =>
    match f with
    | .refused r =>
      if r.code = 404 then .ok false else .error (.discovery gv.apiVersion f.message)
    | _ => .error (.discovery gv.apiVersion f.message)

end Lifecycle.Discovery
