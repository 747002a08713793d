import AudioScore.Score.Graph

/-!
# Scores

A score is a graph and the version of the format in which it was written.
-/

namespace AudioScore

/-- A graph with its format version. -/
structure Score where
  graph : Graph
  version : String

namespace Score

/-- The version given to new scores. -/
def formatVersion : String := "1.2.19"

/-- The score of a graph, in the current version. -/
def new (g : Graph) : Score := ⟨g, formatVersion⟩

/-- Equality of scores, with numbers compared by `Number.same`. -/
def same (s t : Score) : Bool := s.graph.same t.graph && s.version == t.version

/-- The fields of a score. -/
def format : RecordFormat Score where
  title := "Score"
  types := [Graph, String]
  fields := (.required "graph" Graph.codec, .required "version" .string, ⟨⟩)
  make := fun (graph, version, _) => ⟨graph, version⟩
  parts s := (s.graph, s.version, ⟨⟩)
  make_parts _ := rfl

/-- Scores in documents. -/
def codec : Codec Score := .record format

end Score

end AudioScore
