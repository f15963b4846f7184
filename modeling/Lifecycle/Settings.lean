import Lifecycle.Document
import Lifecycle.Reference
import Lifecycle.Settings.Selector

/-!
# Capability settings

The settings of the two capabilities and the targets they are applied to, with
their documents. Each type has an `encode`, which lists the fields in the order of
declaration and leaves out an absent namespace, and a `decode`, which reads what
`encode` writes and every other document of the same record.
-/

namespace Lifecycle

open Document

/-! ## Identity -/

namespace GroupVersion

def shape : Shape := ⟨"GroupVersion", 2⟩

def encode (gv : GroupVersion) : Json :=
  .object [("group", .string gv.group), ("version", .string gv.version)]

def decode : Decoder GroupVersion :=
  record shape
    (fun ms => do
      let group ← field? ms "group" string
      let version ← field? ms "version" string
      return ⟨← required "group" group, ← required "version" version⟩)
    (do
      let group ← Row.required shape.wantedElements string
      let version ← Row.required shape.wantedElements string
      return ⟨group, version⟩)

end GroupVersion

namespace ResourceReference

def shape : Shape := ⟨"ResourceReference", 5⟩

def encode (r : ResourceReference) : Json :=
  .object ([("group", .string r.group), ("version", .string r.version), ("kind", .string r.kind),
    ("name", .string r.name)] ++ (r.ns.map fun ns => ("namespace", Json.string ns)).toList)

def decode : Decoder ResourceReference :=
  record shape
    (fun ms => do
      let group ← field? ms "group" string
      let kind ← field? ms "kind" string
      let name ← field? ms "name" string
      let ns ← field? ms "namespace" (nullable string)
      let version ← field? ms "version" string
      let group ← required "group" group
      let version ← required "version" version
      let kind ← required "kind" kind
      let name ← required "name" name
      return ⟨group, version, kind, name, ns.join⟩)
    (do
      let group ← Row.required shape.wantedElements string
      let version ← Row.required shape.wantedElements string
      let kind ← Row.required shape.wantedElements string
      let name ← Row.required shape.wantedElements string
      let ns ← Row.optional none (nullable string)
      return ⟨group, version, kind, name, ns⟩)

end ResourceReference

def encodeTexts (ts : List String) : Json := .array (ts.map .string)

namespace Selector

def encode (s : Selector) : Json := .object (s.pairs.map fun p => (p.1, .string p.2))

/-- The values of all members, in order, or the first one that is not a text. -/
def decodeMembers : List (String × Json) → Except Mismatch (List (String × String))
  | [] => .ok []
  | (k, v) :: ms => do
    let t ← Document.string v
    let ps ← decodeMembers ms
    return (k, t) :: ps

def decode : Decoder Selector
  | .object ms => (decodeMembers ms).map ofList
  | v => unfit "a map" v

end Selector

/-! ## Authorization -/

structure ProviderConfig where
  /-- Selects the objects that the provider handles. -/
  label : String
  /-- The audiences whose tokens are accepted. -/
  audiences : List String
  providerName : String
  deriving DecidableEq

namespace ProviderConfig

def shape : Shape := ⟨"ProviderConfig", 3⟩

def empty : ProviderConfig := ⟨"", [], ""⟩

def encode (c : ProviderConfig) : Json :=
  .object [("label", .string c.label), ("audiences", encodeTexts c.audiences),
    ("providerName", .string c.providerName)]

def decode : Decoder ProviderConfig :=
  record shape
    (fun ms => do
      let audiences ← field? ms "audiences" (list string)
      let label ← field? ms "label" string
      let providerName ← field? ms "providerName" string
      let label ← required "label" label
      let providerName ← required "providerName" providerName
      return ⟨label, audiences.getD [], providerName⟩)
    (do
      let label ← Row.required shape.wantedElements string
      let audiences ← Row.optional [] (list string)
      let providerName ← Row.required shape.wantedElements string
      return ⟨label, audiences, providerName⟩)

end ProviderConfig

/-- A target whose workloads require authorization. -/
structure ProtectedResource where
  resourceReference : ResourceReference
  /-- Labels of the workloads that serve the target. -/
  workloadSelector : Selector
  /-- Paths on the target's hosts that require authorization. -/
  hostPaths : List String
  /-- Ports that require authorization. -/
  ports : List String
  deriving DecidableEq

namespace ProtectedResource

def shape : Shape := ⟨"ProtectedResource", 4⟩

/-- A target without further selectors, paths or ports. -/
def ofReference (r : ResourceReference) : ProtectedResource := ⟨r, .empty, [], []⟩

def encode (t : ProtectedResource) : Json :=
  .object [("resourceReference", t.resourceReference.encode),
    ("workloadSelector", t.workloadSelector.encode), ("hostPaths", encodeTexts t.hostPaths),
    ("ports", encodeTexts t.ports)]

def decode : Decoder ProtectedResource :=
  record shape
    (fun ms => do
      let hostPaths ← field? ms "hostPaths" (list string)
      let ports ← field? ms "ports" (list string)
      let resourceReference ← field? ms "resourceReference" ResourceReference.decode
      let workloadSelector ← field? ms "workloadSelector" Selector.decode
      let resourceReference ← required "resourceReference" resourceReference
      return ⟨resourceReference, workloadSelector.getD .empty, hostPaths.getD [], ports.getD []⟩)
    (do
      let resourceReference ← Row.required shape.wantedElements ResourceReference.decode
      let workloadSelector ← Row.optional .empty Selector.decode
      let hostPaths ← Row.optional [] (list string)
      let ports ← Row.optional [] (list string)
      return ⟨resourceReference, workloadSelector, hostPaths, ports⟩)

instance : Targeted ProtectedResource := ⟨resourceReference⟩

end ProtectedResource

/-! ## Routing -/

/-- Where and how targets are attached to the ingress gateway. -/
structure IngressConfig where
  ingressSelectorLabel : String
  ingressSelectorValue : String
  ingressService : String
  gatewayNamespace : String
  deriving DecidableEq

namespace IngressConfig

def shape : Shape := ⟨"IngressConfig", 4⟩

def empty : IngressConfig := ⟨"", "", "", ""⟩

def encode (c : IngressConfig) : Json :=
  .object [("ingressSelectorLabel", .string c.ingressSelectorLabel),
    ("ingressSelectorValue", .string c.ingressSelectorValue),
    ("ingressService", .string c.ingressService), ("gatewayNamespace", .string c.gatewayNamespace)]

def decode : Decoder IngressConfig :=
  record shape
    (fun ms => do
      let gatewayNamespace ← field? ms "gatewayNamespace" string
      let ingressSelectorLabel ← field? ms "ingressSelectorLabel" string
      let ingressSelectorValue ← field? ms "ingressSelectorValue" string
      let ingressService ← field? ms "ingressService" string
      let ingressSelectorLabel ← required "ingressSelectorLabel" ingressSelectorLabel
      let ingressSelectorValue ← required "ingressSelectorValue" ingressSelectorValue
      let ingressService ← required "ingressService" ingressService
      let gatewayNamespace ← required "gatewayNamespace" gatewayNamespace
      return ⟨ingressSelectorLabel, ingressSelectorValue, ingressService, gatewayNamespace⟩)
    (do
      let ingressSelectorLabel ← Row.required shape.wantedElements string
      let ingressSelectorValue ← Row.required shape.wantedElements string
      let ingressService ← Row.required shape.wantedElements string
      let gatewayNamespace ← Row.required shape.wantedElements string
      return ⟨ingressSelectorLabel, ingressSelectorValue, ingressService, gatewayNamespace⟩)

end IngressConfig

structure RoutingTarget where
  resourceReference : ResourceReference
  deriving DecidableEq

namespace RoutingTarget

def shape : Shape := ⟨"RoutingTarget", 1⟩

def encode (t : RoutingTarget) : Json :=
  .object [("resourceReference", t.resourceReference.encode)]

def decode : Decoder RoutingTarget :=
  record shape
    (fun ms => do
      let resourceReference ← field? ms "resourceReference" ResourceReference.decode
      return ⟨← required "resourceReference" resourceReference⟩)
    (do
      let resourceReference ← Row.required shape.wantedElements ResourceReference.decode
      return ⟨resourceReference⟩)

instance : Targeted RoutingTarget := ⟨resourceReference⟩

end RoutingTarget

end Lifecycle
