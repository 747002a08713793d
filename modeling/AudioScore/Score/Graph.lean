import AudioScore.Run
import AudioScore.Score.Edge
import AudioScore.Score.Error
import AudioScore.Score.Node

/-!
# Graphs

A graph holds nodes, edges and scripts in the order in which they were added. Nothing is checked
as it grows. The reference check is made on demand.

* `Graph.repeatedId?`, `Graph.missingEnd?`: the two faults of references.
* `Graph.checkReferences`: the check, with a warning where it fails.
-/

namespace AudioScore

/-- A named piece of code that is run against a graph. -/
structure Script where
  name : String
  code : String
deriving DecidableEq

namespace Script

/-- The fields of a script. -/
def format : RecordFormat Script where
  title := "Script"
  types := [String, String]
  fields := (.required "name" .string, .required "code" .string, ⟨⟩)
  make := fun (name, code, _) => ⟨name, code⟩
  parts s := (s.name, s.code, ⟨⟩)
  make_parts _ := rfl

/-- Scripts in documents. -/
def codec : Codec Script := .record format

end Script

/-- Nodes, edges and scripts. -/
structure Graph where
  id : String
  /-- The policy of the graph as a whole. -/
  loadingPolicy : Option LoadingPolicy
  nodes : List Node
  edges : List Edge
  scripts : List Script

namespace Graph

/-! ## Building -/

/-- A graph with nothing in it. -/
def new (id : String) : Graph := ⟨id, none, [], [], []⟩

/-- Sets the loading policy. -/
def withLoadingPolicy (g : Graph) (policy : LoadingPolicy) : Graph :=
  { g with loadingPolicy := some policy }

/-- Adds a node at the end. -/
def withNode (g : Graph) (n : Node) : Graph := { g with nodes := g.nodes ++ [n] }

/-- Adds an edge at the end. Its ends are not checked. -/
def withEdge (g : Graph) (e : Edge) : Graph := { g with edges := g.edges ++ [e] }

/-- Adds a script at the end. -/
def withScript (g : Graph) (s : Script) : Graph := { g with scripts := g.scripts ++ [s] }

/-- Adds a node and reports it. -/
def addNode {ε : Type} (g : Graph) (n : Node) : Run ε Graph := do
  Run.report (.nodeAdded n.id n.kind)
  return g.withNode n

/-- Adds an edge and reports it. -/
def addEdge {ε : Type} (g : Graph) (e : Edge) : Run ε Graph := do
  Run.report (.edgeAdded e.source e.target e.id)
  return g.withEdge e

/-- Adds nodes in order and reports each. -/
def addNodes {ε : Type} (g : Graph) (ns : List Node) : Run ε Graph := ns.foldlM addNode g

/-- Adds edges in order and reports each. -/
def addEdges {ε : Type} (g : Graph) (es : List Edge) : Run ε Graph := es.foldlM addEdge g

/-! ## Looking -/

/-- The first node of an id. -/
def node? (g : Graph) (id : String) : Option Node := g.nodes.find? fun n => n.id == id

/-- The edges that leave a node, in order. -/
def edgesFrom (g : Graph) (id : String) : List Edge := g.edges.filter fun e => e.source == id

/-- The edges that enter a node, in order. -/
def edgesTo (g : Graph) (id : String) : List Edge := g.edges.filter fun e => e.target == id

/-! ## References -/

/-- The first id that stands earlier in the list, or among the ids `seen` before it. -/
def repeatedId? (seen : List String) : List String → Option String
  | [] => none
  | id :: rest => if id ∈ seen then some id else repeatedId? (id :: seen) rest

/-- The end of an edge that is not among the ids, its source first. -/
def missingEnd? (ids : List String) (e : Edge) : Option String :=
  [e.source, e.target].find? fun id => id ∉ ids

/-- The first edge with a missing end, and that end. -/
def dangling? (ids : List String) (es : List Edge) : Option (Edge × String) :=
  es.findSome? fun e => (missingEnd? ids e).map fun id => (e, id)

/-- Checks that no two nodes share an id and that every edge leads from a node of the graph to a
node of the graph. -/
def checkReferences (g : Graph) : Run ScoreError Unit :=
  let ids := g.nodes.map Node.id
  match repeatedId? [] ids with
  | some id => do
    Run.report (.duplicateNode id)
    Run.fail (.duplicateNode id)
  | none =>
    match dangling? ids g.edges with
    | some (e, id) => do
      Run.report (.danglingEdge e.id id)
      Run.fail (.danglingEdge e.id id)
    | none => pure ()

/-! ## Documents -/

/-- Equality of graphs, with numbers compared by `Number.same`. -/
def same (g h : Graph) : Bool :=
  g.id == h.id && g.loadingPolicy == h.loadingPolicy && g.nodes.length == h.nodes.length
    && ((g.nodes.zip h.nodes).all fun p => p.1.same p.2) && g.edges == h.edges
    && g.scripts == h.scripts

/-- The fields of a graph. -/
def format : RecordFormat Graph where
  title := "Graph"
  types := [String, Option LoadingPolicy, List Node, List Edge, List Script]
  fields := (.required "id" .string, .optional "loadingPolicy" LoadingPolicy.codec,
    .list "nodes" Node.codec, .list "edges" Edge.codec, .list "scripts" Script.codec, ⟨⟩)
  make := fun (id, loadingPolicy, nodes, edges, scripts, _) =>
    ⟨id, loadingPolicy, nodes, edges, scripts⟩
  parts g := (g.id, g.loadingPolicy, g.nodes, g.edges, g.scripts, ⟨⟩)
  make_parts _ := rfl

/-- Graphs in documents. -/
def codec : Codec Graph := .record format

end Graph

end AudioScore
