import Lifecycle.Report
import Lifecycle.Round
import Lifecycle.Settings

/-!
# The orchestrator

Two capabilities, authorization and routing, each with an activator of its own and
with settings and targets of its own. They share the registry of loops and the
collaborators, and nothing else.
-/

namespace Lifecycle

inductive Capability where
  | authorization
  | routing
  deriving DecidableEq

namespace Capability

def label : Capability → String
  | authorization => "authorization"
  | routing => "routing"

/-- The index of a capability's activator. -/
def index : Capability → Nat
  | authorization => 0
  | routing => 1

end Capability

inductive CapabilityConfig where
  | authorization (c : ProviderConfig)
  | routing (c : IngressConfig)
  deriving DecidableEq

namespace CapabilityConfig

def encode : CapabilityConfig → Json
  | authorization c => c.encode
  | routing c => c.encode

/-- The work that a call of a capability is. -/
def spans : CapabilityConfig → List Span
  | authorization c => [⟨"toggle_authorization", [("provider", c.providerName)]⟩]
  | routing c => [⟨"toggle_routing", [("gateway_namespace", c.gatewayNamespace)]⟩]

end CapabilityConfig

inductive CapabilityTarget where
  | authorization (t : ProtectedResource)
  | routing (t : RoutingTarget)
  deriving DecidableEq

namespace CapabilityTarget

def reference : CapabilityTarget → ResourceReference
  | authorization t => t.resourceReference
  | routing t => t.resourceReference

instance : Targeted CapabilityTarget := ⟨reference⟩

end CapabilityTarget

namespace Orchestrator

/-- The world of an orchestrator: both activators follow the same policy. -/
def start (p : Policy) : World CapabilityConfig CapabilityTarget :=
  .start [.new Capability.authorization.label p, .new Capability.routing.label p]

/-- An orchestrator with a policy, unless the policy is refused. -/
def new (p : Policy) : Except Fault (World CapabilityConfig CapabilityTarget) := do
  return start (← p.validate)

def ofSettings (interval timeout : Option String) :
    Except Fault (World CapabilityConfig CapabilityTarget) := do
  new (← Policy.ofSettings interval timeout)

/-- Makes authorization active for exactly some targets. -/
def toggleAuthorization (c : ProviderConfig) (ts : List ProtectedResource) (cancelled : Bool)
    (cancelAt dropAt : Option Nat) : Request CapabilityConfig CapabilityTarget :=
  ⟨Capability.authorization.index, .authorization c, ts.map .authorization, cancelled, cancelAt,
    dropAt⟩

/-- Makes routing active for exactly some targets. -/
def toggleRouting (c : IngressConfig) (ts : List RoutingTarget) (cancelled : Bool)
    (cancelAt dropAt : Option Nat) : Request CapabilityConfig CapabilityTarget :=
  ⟨Capability.routing.index, .routing c, ts.map .routing, cancelled, cancelAt, dropAt⟩

end Orchestrator

/-- The world of a single activator, unless its policy is refused. -/
def Activator.alone {C T : Type} (capability : String) (p : Policy) : Except Fault (World C T) := do
  return .start [.new capability (← p.validate)]

end Lifecycle
