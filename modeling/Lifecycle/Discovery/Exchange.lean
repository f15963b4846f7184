import Lifecycle.Discovery.Body
import Lifecycle.Discovery.Status

/-!
# Exchanges with the server

What a response of the server means. A response with an error status is a refusal:
the one its body holds, with the code of the body, or else one made of the status
and the quoted body. Any other response holds a list of resources, or it is
undecodable. A request that has no address is never sent.
-/

namespace Lifecycle.Discovery

inductive Response where
  | received (status : Nat) (body : String)
  /-- The request failed on its way. -/
  | lost (text : String)
  deriving DecidableEq

/-- The refusal of a response with an error status. -/
def refusal (status : Nat) (body : String) : Refusal :=
  (Refusal.ofText? body).getD
    ⟨statusText status, Text.quoted body, "Failed to parse error data", status⟩

def Response.answer : Response → Except Failure ResourceList
  | lost t => .error (.service t)
  | received status body =>
    if isErrorStatus status then .error (.refused (refusal status body))
    else
      match ResourceList.ofText body with
      | .ok list => .ok list
      | .error e => .error (.undecodable e)

def Response.ready (gv : GroupVersion) (r : Response) : Except Fault Bool := classify gv r.answer

/-- The fault of asking for a group and version that has no address. -/
def unaskable? (gv : GroupVersion) : Option Fault :=
  (addressFault? gv).map fun f => .discovery gv.apiVersion (Failure.unaddressable f).message

end Lifecycle.Discovery
