import AudioScore.Codec.Record

/-!
# Edges

An edge leads from the output of one node to the input of another. Each of its ends is the port
that a node has without naming it, or a port with a name.
-/

namespace AudioScore

/-- One end of an edge. -/
inductive Port where
  /-- The port that a node has without naming it. -/
  | default
  | named (name : String)
deriving DecidableEq, Inhabited

namespace Port

/-- The port of a name, or the default port where there is none. -/
def ofName? : Option String → Port
  | none => .default
  | some name => .named name

/-- The name of a port, if it has one. -/
def name? : Port → Option String
  | .default => none
  | .named name => some name

/-- Whether a port is the one without a name. -/
def isDefault : Port → Bool
  | .default => true
  | .named _ => false

/-- Ports in documents: a name or nothing. -/
def codec : Codec Port := Codec.string.optional.map ofName? name?

/-- A field for a port, left out for the default one. -/
def field (name : String) : Field Port := ⟨name, codec, some .default, isDefault⟩

end Port

/-- A connection from a node's output to a node's input. -/
structure Edge where
  id : String
  /-- The id of the node that the signal leaves. -/
  source : String
  /-- The id of the node that the signal enters. -/
  target : String
  sourcePort : Port
  targetPort : Port
deriving DecidableEq

namespace Edge

/-- An edge between the default ports of two nodes. -/
def new (id source target : String) : Edge := ⟨id, source, target, .default, .default⟩

/-- Leads the edge between named ports. -/
def withPorts (e : Edge) (sourcePort targetPort : String) : Edge :=
  { e with sourcePort := .named sourcePort, targetPort := .named targetPort }

/-- The fields of an edge. -/
def format : RecordFormat Edge where
  title := "Edge"
  types := [String, String, String, Port, Port]
  fields := (.required "id" .string, .required "source" .string, .required "target" .string,
    Port.field "sourcePort", Port.field "targetPort", ⟨⟩)
  make := fun (id, source, target, sourcePort, targetPort, _) =>
    ⟨id, source, target, sourcePort, targetPort⟩
  parts e := (e.id, e.source, e.target, e.sourcePort, e.targetPort, ⟨⟩)
  make_parts _ := rfl

/-- Edges in documents. -/
def codec : Codec Edge := .record format

end Edge

end AudioScore
