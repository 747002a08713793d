import AudioScore.Plugin.Component
import AudioScore.Run
import AudioScore.Score.Edge

/-!
# Connections

Two components are connected by an edge with a fresh id, either between their default ports or
between named ports that carry the same content.

* `Component.connect`, `Component.connectPorts`: the two kinds of connection.
-/

namespace AudioScore

/-- Why two components are not connected. -/
inductive ConnectError where
  /-- The source has no output. -/
  | notASource (node : String)
  /-- The target has no input. -/
  | notATarget (node : String)
  | unknownPort (node port : String)
  /-- The ports carry different contents. -/
  | incompatible (source target : ContentType)
deriving DecidableEq

/-- What is reported about a refusal. -/
def ConnectError.message : ConnectError → String
  | .notASource node => "node=" ++ node ++ " cannot be a source"
  | .notATarget node => "node=" ++ node ++ " cannot be a target"
  | .unknownPort node port => "node=" ++ node ++ " does not have a port named " ++ port
  | .incompatible source target =>
    "incompatible types for edge with source=" ++ WireEnum.wire source ++ " target="
      ++ WireEnum.wire target

namespace Component

variable {α β : Type} [Component α] [Component β]

/-! ## From the source -/

/-- Connects the default ports of two components. -/
def connect (fresh : String) (source : α) (target : β) : Run ConnectError Edge :=
  if (outputs source).isEmpty then .fail (.notASource (id source))
  else if (inputs target).isEmpty then .fail (.notATarget (id target))
  else do
    let e := Edge.new fresh (id source) (id target)
    Run.report (.connected e.source e.target e.id)
    return e

/-- Connects an output to an input by their names. The output is looked up first. -/
def connectPorts (fresh : String) (source : α) (target : β) (output input : String) :
    Run ConnectError Edge :=
  match output? source output with
  | none => .fail (.unknownPort (id source) output)
  | some o =>
    match input? target input with
    | none => .fail (.unknownPort (id target) input)
    | some i =>
      if o.contentType = i.contentType then do
        let e := (Edge.new fresh (id source) (id target)).withPorts output input
        Run.report (.portsConnected e.source output e.target input e.id)
        return e
      else .fail (.incompatible o.contentType i.contentType)

/-! ## From the target -/

/-- Connects the default ports of two components, the target being named first. -/
def connectFrom (fresh : String) (target : β) (source : α) : Run ConnectError Edge :=
  connect fresh source target

/-- Connects named ports of two components, the target being named first. -/
def connectPortsFrom (fresh : String) (target : β) (source : α) (output input : String) :
    Run ConnectError Edge :=
  connectPorts fresh source target output input

end Component

end AudioScore
