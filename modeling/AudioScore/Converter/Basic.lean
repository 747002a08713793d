import AudioScore.Converter.Options
import AudioScore.Score.Basic

/-!
# Converters

A converter reads and writes scores, as text or as generic values. With reference checks it
refuses a score whose graph fails the check, in both directions.

* `Converter.ofText`, `Converter.toText`: text, with a report of each success.
* `Converter.ofValue`, `Converter.toValue`: generic values.
-/

namespace AudioScore

/-- Reads and writes scores. -/
structure Converter where
  options : ConverterOptions
deriving DecidableEq, Inhabited

namespace Converter

/-- Checks the references of a score, if that is asked for. -/
def check (c : Converter) (s : Score) : Run ScoreError Unit :=
  if c.options.checkReferences then s.graph.checkReferences else pure ()

/-- Reads something in a document. -/
def read {α : Type} (r : Except DecodeError α) : Run ScoreError α :=
  .ofExcept (r.mapError .document)

/-! ## Scores -/

/-- Reads a score from text. -/
def ofText (c : Converter) (text : String) : Run ScoreError Score := do
  let s ← read (Score.codec.ofText text)
  c.check s
  Run.report (.scoreDecoded s.graph.id s.graph.nodes.length s.graph.edges.length s.version)
  return s

/-- Writes a score as text. -/
def toText (c : Converter) (s : Score) : Run ScoreError String := do
  c.check s
  let text := Score.codec.text c.options.layout s
  Run.report (.scoreEncoded s.graph.id text.utf8ByteSize)
  return text

/-- Reads a score from a generic value. -/
def ofValue (c : Converter) (v : Value) : Run ScoreError Score := do
  let s ← read (Score.codec.ofValue v)
  c.check s
  return s

/-- Writes a score as a generic value. -/
def toValue (c : Converter) (s : Score) : Run ScoreError Value := do
  c.check s
  return Score.codec.toValue s

/-! ## Nodes -/

/-- Reads a single node from text. -/
def nodeOfText (_ : Converter) (text : String) : Except ScoreError Node :=
  (Node.codec.ofText text).mapError .document

/-- Writes a single node as text. -/
def nodeToText (c : Converter) (n : Node) : String := Node.codec.text c.options.layout n

end Converter

end AudioScore
