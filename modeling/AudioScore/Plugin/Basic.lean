import AudioScore.Arg.Field
import AudioScore.Param.Basic
import AudioScore.Plugin.Component
import AudioScore.Row
import AudioScore.Run

/-!
# Plugins and their instances

A plugin declares a kind, config fields, parameters and ports. An instance holds contents for
all of them. It is made in code from the fields that are set, or read from a node.

* `Plugin.create`: a new instance.
* `Plugin.ofNode`: the instance that a node describes.
* `Plugin.schema`: what is published about a plugin.
-/

namespace AudioScore

/-- The declaration of a plugin. -/
structure Plugin where
  kind : String
  config : List ConfigField
  params : List Param
  inputs : List PortSpec
  outputs : List PortSpec

/-- What is published about a plugin. -/
structure Schema where
  kind : String
  inputs : List PortSpec
  outputs : List PortSpec
  config : List ArgSpec
  params : List ParamSpec

namespace Schema

/-- The config field of a name. -/
def field? (s : Schema) (name : String) : Option ArgSpec := s.config.find? fun a => a.name == name

/-- The parameter of a name. -/
def param? (s : Schema) (name : String) : Option ParamSpec :=
  s.params.find? fun p => p.name == name

/-- The names of the fields that a document must have. -/
def requiredConfig (s : Schema) : List String :=
  (s.config.filter ArgSpec.required).map ArgSpec.name

/-- Whether instances can be sources of edges. -/
def isSource (s : Schema) : Bool := !s.outputs.isEmpty

/-- Whether instances can be targets of edges. -/
def isTarget (s : Schema) : Bool := !s.inputs.isEmpty

end Schema

namespace Plugin

/-- What is published about a plugin. -/
def schema (p : Plugin) : Schema where
  kind := p.kind
  inputs := p.inputs
  outputs := p.outputs
  config := p.config.map fun f => f.arg.spec
  params := p.params.map Param.spec

/-! ## Instances -/

/-- The contents of all config fields. -/
abbrev Config (p : Plugin) : Type := Row ConfigField.Carrier p.config

/-- The contents of the config fields that are set. -/
abbrev Settings (p : Plugin) : Type := Row (fun f => Option (ConfigField.Carrier f)) p.config

/-- The parameters with their logs. -/
abbrev Params (p : Plugin) : Type := Row (fun _ : Param => Automation) p.params

/-- A plugin at work. -/
structure Instance (p : Plugin) where
  header : Header
  config : p.Config
  params : p.Params

variable {p : Plugin}

/-- Resolves the fields in order: those that are set must be writable, the others must have
defaults. -/
def resolve (p : Plugin) (settings : p.Settings) : Except MappingError p.Config :=
  Row.traverse (fun f x => f.arg.valueOrDefault x) p.config settings

/-- Makes an instance, with a given id or a fresh one. -/
def create (p : Plugin) (fresh : String) (id : Option String) (policy : LoadingPolicy)
    (settings : p.Settings) : Run MappingError p.Instance := do
  let header := Header.new fresh id policy
  let config ← Run.ofExcept (p.resolve settings)
  Run.report (.nodeCreated header.id p.kind)
  return ⟨header, config, Row.ofFn Param.create p.params⟩

/-- Reads an instance from a node of the plugin's kind, field by field. -/
def ofNode (p : Plugin) (n : Node) : Except MappingError p.Instance :=
  if n.kind = p.kind then do
    let config ← Row.build (fun f => f.arg.readConfig n.config) p.config
    return ⟨.ofNode n, config, Row.ofFn (fun q => q.read n.params) p.params⟩
  else .error (.unexpectedKind p.kind n.kind)

namespace Instance

/-- Sets the label. -/
def withLabel (x : p.Instance) (label : String) : p.Instance :=
  { x with header := { x.header with label := some label } }

/-- The config by name. -/
def configDict (x : p.Instance) : Dict Value :=
  .ofList (Row.toList (fun f a => (f.name, f.type.arg.encode a)) p.config x.config)

/-- The logs of the parameters by name. -/
def paramsDict (x : p.Instance) : Dict (List Command) :=
  .ofList (Row.toList (fun q a => (q.name, q.write a)) p.params x.params)

instance : Component p.Instance where
  header := header
  kind _ := p.kind
  inputs _ := p.inputs
  outputs _ := p.outputs
  config := configDict
  params := paramsDict

end Instance

/-! ## Parameters -/

/-- Changes the first parameter of a name, if there is one. -/
def changeParam (name : String) (change : Automation → Except MappingError Automation) :
    (params : List Param) → Row (fun _ : Param => Automation) params →
      Option (Except MappingError (Row (fun _ : Param => Automation) params))
  | [], _ => none
  | q :: _, (a, rest) =>
    if q.name = name then some ((change a).map fun a => (a, rest))
    else (changeParam name change _ rest).map fun r => r.map fun rest => (a, rest)

namespace Instance

/-- Applies a call to the parameter of a name, if there is one. -/
def automate? (x : p.Instance) (name : String) (call : Automation.Call) :
    Option (Except MappingError p.Instance) :=
  (changeParam name (·.apply call) p.params x.params).map fun r =>
    r.map fun params => { x with params }

/-- The parameter of a name with its log, if there is one. -/
def param? (x : p.Instance) (name : String) : Option Automation :=
  (Row.toList (fun q a => (q.name, a)) p.params x.params).lookup name

/-- Equality of instances, with doubles compared as numbers. -/
def same (x y : p.Instance) : Bool :=
  x.header == y.header && sameConfig p.config x.config y.config
    && sameParams p.params x.params y.params
where
  /-- Equality of the contents of fields. -/
  sameConfig : (fs : List ConfigField) → Row ConfigField.Carrier fs → Row ConfigField.Carrier fs →
      Bool
    | [], _, _ => true
    | f :: fs, (a, r), (b, s) => f.type.same a b && sameConfig fs r s
  /-- Equality of parameters. -/
  sameParams : (ps : List Param) → Row (fun _ : Param => Automation) ps →
      Row (fun _ : Param => Automation) ps → Bool
    | [], _, _ => true
    | _ :: ps, (a, r), (b, s) => a.same b && sameParams ps r s

end Instance

end Plugin

end AudioScore
