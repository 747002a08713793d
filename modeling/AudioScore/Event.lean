/-!
# Events

Operations report what they do as events, each with a level and a message.

* `Event`: the events.
* `Event.level`, `Event.message`: how they are reported.
-/

namespace AudioScore

/-- How grave an event is. -/
inductive Level where
  | debug
  | warn
deriving DecidableEq

/-- What operations report. -/
inductive Event where
  /-- A node was added to a graph. -/
  | nodeAdded (node kind : String)
  /-- An edge was added to a graph. -/
  | edgeAdded (source target edge : String)
  /-- A graph has two nodes of one id. -/
  | duplicateNode (node : String)
  /-- An edge of a graph ends at a node that is not there. -/
  | danglingEdge (edge node : String)
  /-- A score was read from text. -/
  | scoreDecoded (graph : String) (nodes edges : Nat) (version : String)
  /-- A score was written as text. -/
  | scoreEncoded (graph : String) (bytes : Nat)
  /-- A plugin instance was made. -/
  | nodeCreated (node kind : String)
  /-- Two nodes were connected by their default ports. -/
  | connected (source target edge : String)
  /-- Two nodes were connected by named ports. -/
  | portsConnected (source sourcePort target targetPort edge : String)
  /-- The plugin of a node was found in the registry. -/
  | pluginFound (node plugin : String)
  /-- No plugin of a kind is in the registry. -/
  | pluginMissing (kind : String)
deriving DecidableEq

namespace Event

/-- Faults of graphs are warnings, everything else is for debugging. -/
def level : Event → Level
  | .duplicateNode _ => .warn
  | .danglingEdge _ _ => .warn
  | _ => .debug

/-- The message of an event. -/
def message : Event → String
  | .nodeAdded node kind => "graph_add: node " ++ node ++ " (" ++ kind ++ ")"
  | .edgeAdded source target edge =>
    "graph_connect: " ++ source ++ " → " ++ target ++ " (edge " ++ edge ++ ")"
  | .duplicateNode node => "graph_validate: duplicate node id " ++ node
  | .danglingEdge edge node => "graph_validate: edge " ++ edge ++ " → unknown node " ++ node
  | .scoreDecoded graph nodes edges version =>
    "score_decode: graph " ++ graph ++ " (" ++ toString nodes ++ " nodes, " ++ toString edges
      ++ " edges, version " ++ version ++ ")"
  | .scoreEncoded graph bytes =>
    "score_encode: graph " ++ graph ++ " (" ++ toString bytes ++ " bytes)"
  | .nodeCreated node kind => "node_create: " ++ node ++ " (" ++ kind ++ ")"
  | .connected source target edge =>
    "node_connect: " ++ source ++ " → " ++ target ++ " (edge " ++ edge ++ ")"
  | .portsConnected source sourcePort target targetPort edge =>
    "node_connect: " ++ source ++ ":" ++ sourcePort ++ " → " ++ target ++ ":" ++ targetPort
      ++ " (edge " ++ edge ++ ")"
  | .pluginFound node plugin => "registry_decode: " ++ node ++ " as " ++ plugin
  | .pluginMissing kind => "registry_decode: no plugin for kind " ++ kind

end Event

/-- The text of a level. -/
def Level.text : Level → String
  | .debug => "DEBUG"
  | .warn => "WARN"

end AudioScore
