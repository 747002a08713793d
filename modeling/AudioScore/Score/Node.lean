import AudioScore.Score.Command
import AudioScore.Score.LoadingPolicy

/-!
# Nodes

A node is one plugin at work in a graph, in the form in which documents hold it: its kind names
the plugin, its config holds fixed values by name, and its params hold a log of commands each.
-/

namespace AudioScore

/-- A node as documents hold it. -/
structure Node where
  id : String
  /-- The name of the plugin. -/
  kind : String
  /-- A description for people. -/
  label : Option String
  loadingPolicy : Option LoadingPolicy
  params : Dict (List Command)
  config : Dict Value

namespace Node

/-- A node with nothing but its id and kind. -/
def new (id kind : String) : Node := ⟨id, kind, none, none, .empty, .empty⟩

/-- Sets the label. -/
def withLabel (n : Node) (label : String) : Node := { n with label := some label }

/-- Sets the loading policy. -/
def withLoadingPolicy (n : Node) (policy : LoadingPolicy) : Node :=
  { n with loadingPolicy := some policy }

/-- Sets a config value, over an earlier one of the same name. -/
def withConfig (n : Node) (key : String) (value : Value) : Node :=
  { n with config := n.config.insert key value }

/-- Sets the commands of a parameter, over earlier ones of the same name. -/
def withParam (n : Node) (key : String) (commands : List Command) : Node :=
  { n with params := n.params.insert key commands }

/-- Equality of nodes, with numbers compared by `Number.same`. -/
def same (m n : Node) : Bool :=
  m.id == n.id && m.kind == n.kind && m.label == n.label && m.loadingPolicy == n.loadingPolicy
    && m.params.sameBy sameLog n.params && m.config.sameBy Value.same n.config

/-- The logs of parameters in documents. -/
def paramsCodec : Codec (Dict (List Command)) := Command.codec.list.dict

/-- The fields of a node. -/
def format : RecordFormat Node where
  title := "Node"
  types := [String, String, Option String, Option LoadingPolicy, Dict (List Command), Dict Value]
  fields := (.required "id" .string, .required "kind" .string, .optional "label" .string,
    .optional "loadingPolicy" LoadingPolicy.codec, .dict "params" Command.codec.list,
    .dict "config" .value, ⟨⟩)
  make := fun (id, kind, label, loadingPolicy, params, config, _) =>
    ⟨id, kind, label, loadingPolicy, params, config⟩
  parts n := (n.id, n.kind, n.label, n.loadingPolicy, n.params, n.config, ⟨⟩)
  make_parts _ := rfl

/-- Nodes in documents. -/
def codec : Codec Node := .record format

end Node

end AudioScore
