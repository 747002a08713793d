import AudioScore.Plugin.Port
import AudioScore.Score.Node

/-!
# Components

A component is anything that can stand as a node of a score: it has a header, a kind, ports, a
config and parameters.

* `Component.toNode`: the node of a component.
-/

namespace AudioScore

/-- What all components share. -/
structure Header where
  id : String
  loadingPolicy : LoadingPolicy
  label : Option String
deriving DecidableEq

namespace Header

/-- A header with a given id, or with a fresh one where none is given. -/
def new (fresh : String) (id : Option String) (policy : LoadingPolicy) : Header :=
  ⟨id.getD fresh, policy, none⟩

/-- The header of a node. Where it has no policy the usual one holds. -/
def ofNode (n : Node) : Header := ⟨n.id, n.loadingPolicy.getD default, n.label⟩

end Header

/-- What can stand as a node of a score. -/
class Component (α : Type) where
  header : α → Header
  /-- The name of the plugin. -/
  kind : α → String
  inputs : α → List PortSpec
  outputs : α → List PortSpec
  /-- The config by name. -/
  config : α → Dict Value
  /-- The logs of the parameters by name. -/
  params : α → Dict (List Command)

namespace Component

variable {α : Type} [Component α]

/-- The id of a component. -/
def id (a : α) : String := (header a).id

/-- The first input of a name. -/
def input? (a : α) (name : String) : Option PortSpec := PortSpec.find? (inputs a) name

/-- The first output of a name. -/
def output? (a : α) (name : String) : Option PortSpec := PortSpec.find? (outputs a) name

/-- The node of a component. -/
def toNode (a : α) : Node where
  id := (header a).id
  kind := kind a
  label := (header a).label
  loadingPolicy := some (header a).loadingPolicy
  params := params a
  config := config a

end Component

end AudioScore
