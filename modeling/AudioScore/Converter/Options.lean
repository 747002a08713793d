import AudioScore.Json.Text
import AudioScore.Score.Error
import AudioScore.Toml.Document

/-!
# Options of a converter

* `ConverterOptions.ofToml`: options from text. Keys that are not known are passed over.
* `ConverterOptions.toToml`: the text of options.
-/

namespace AudioScore

/-- How a converter reads and writes scores. -/
structure ConverterOptions where
  /-- Write indented text. -/
  pretty : Bool := false
  /-- Refuse graphs with repeated ids or dangling edges, in reading and in writing. -/
  checkReferences : Bool := false
deriving DecidableEq, Inhabited

namespace ConverterOptions

/-- Sets whether text is indented. -/
def withPretty (o : ConverterOptions) (pretty : Bool) : ConverterOptions :=
  { o with pretty }

/-- Sets whether references are checked. -/
def withReferenceChecks (o : ConverterOptions) (check : Bool) : ConverterOptions :=
  { o with checkReferences := check }

/-- The layout of text that is written. -/
def layout (o : ConverterOptions) : Layout := if o.pretty then .indented else .compact

/-- The truth value of a key, false where it is absent. -/
def flag? (key : String) (root : Toml.Entries) : Option Bool :=
  match Toml.find? key root with
  | none => some false
  | some (.boolean b) => some b
  | some _ => none

/-- Reads options from text. -/
def ofToml (text : String) : Except ScoreError ConverterOptions :=
  let options := do
    let root ← Toml.ofText? text
    let pretty ← flag? "pretty" root
    let checkReferences ← flag? "check_references" root
    return ⟨pretty, checkReferences⟩
  match options with
  | some o => .ok o
  | none => .error .options

/-- Writes options as text. -/
def toToml (o : ConverterOptions) : String :=
  "pretty = " ++ toString o.pretty ++ "\ncheck_references = " ++ toString o.checkReferences ++ "\n"

end ConverterOptions

end AudioScore
