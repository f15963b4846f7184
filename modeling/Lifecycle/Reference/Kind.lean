import Lifecycle.Reference

/-!
# References of well-known objects

The group, version and kind of an object of a known kind are fixed; its name is
the given one, or else the stem from which a name is generated, or else empty.
-/

namespace Lifecycle

/-- The kinds whose schema is known without asking. -/
inductive KnownKind where
  | deployment | cronJob | configMap | namespaceObject | node | pod | service | ingress
  | clusterRole | role | customResourceDefinition
  deriving DecidableEq

namespace KnownKind

def all : List KnownKind :=
  [deployment, cronJob, configMap, namespaceObject, node, pod, service, ingress, clusterRole, role,
    customResourceDefinition]

def kind : KnownKind → String
  | deployment => "Deployment"
  | cronJob => "CronJob"
  | configMap => "ConfigMap"
  | namespaceObject => "Namespace"
  | node => "Node"
  | pod => "Pod"
  | service => "Service"
  | ingress => "Ingress"
  | clusterRole => "ClusterRole"
  | role => "Role"
  | customResourceDefinition => "CustomResourceDefinition"

/-- The group of a kind; all of these are served in version `v1`. -/
def group : KnownKind → String
  | deployment => "apps"
  | cronJob => "batch"
  | configMap | namespaceObject | node | pod | service => ""
  | ingress => "networking.k8s.io"
  | clusterRole | role => "rbac.authorization.k8s.io"
  | customResourceDefinition => "apiextensions.k8s.io"

def ofName? (name : String) : Option KnownKind :=
  all.find? fun k => k.kind = name

end KnownKind

/-- The part of an object's metadata that identifies it. -/
structure ObjectName where
  name : Option String
  generateName : Option String
  ns : Option String
  deriving DecidableEq

def ResourceReference.ofObject (k : KnownKind) (o : ObjectName) : ResourceReference where
  group := k.group
  version := "v1"
  kind := k.kind
  name := (o.name <|> o.generateName).getD ""
  ns := o.ns

end Lifecycle
