import AudioScore.Arg.Type
import AudioScore.Score.Command

/-!
# Arguments

An argument is a name, a type and perhaps a default. It reads the value under its name, checking
the kind before anything else, and writes values back.

* `Arg.read`, `Arg.readConfig`, `Arg.readCommand`: reading.
* `Arg.write`, `Arg.writeTo`: writing.
* `Arg.valueOrDefault`: what stands for a value that may be missing.
-/

namespace AudioScore

/-- What is published about an argument. -/
structure ArgSpec where
  name : String
  kind : ArgKind
  /-- Whether there is no default. -/
  required : Bool
  /-- The default as it is written. -/
  default : Option Value

/-- A named argument of a type, with a default unless it is required. -/
structure Arg (α : Type) where
  name : String
  type : ArgType α
  default : Option α

namespace Arg

variable {α : Type}

/-- What stands for an absent value. -/
def missing (a : Arg α) : Except MappingError α :=
  match a.default with
  | some x => .ok x
  | none => .error (.missingArgument a.name)

/-- The error that a refused value is reported as. -/
def refusal (a : Arg α) : ValueError → MappingError
  | .kind actual => .kindMismatch a.name a.type.kind actual
  | .name e => .unrecognizedName a.name e

/-- Reads a value that is there. Its form is checked before it is converted. -/
def readValue (a : Arg α) (v : Value) : Except MappingError α :=
  if a.type.accepts v.json then (a.type.decode v.json).mapError a.refusal
  else .error (.kindMismatch a.name a.type.kind v.json.kind)

/-- Whether a value counts as absent. -/
def isAbsent (v : Value) : Bool := v.json.kind == .null

/-- Reads a value. One that is `null` counts as absent. -/
def read (a : Arg α) : Option Value → Except MappingError α
  | none => a.missing
  | some v => if isAbsent v then a.missing else a.readValue v

/-- Reads the value under the argument's name. -/
def readConfig (a : Arg α) (config : Dict Value) : Except MappingError α :=
  a.read (config.get? a.name)

/-- Reads the command's argument of this name. -/
def readCommand (a : Arg α) (c : Command) : Except MappingError α := a.readConfig c.args

/-- Refuses a value that could not be read back. -/
def check (a : Arg α) (x : α) : Except MappingError α :=
  if a.type.encodable x then .ok x else .error (.nonFinite a.name)

/-- Writes a value. -/
def write (a : Arg α) (x : α) : Except MappingError Value := (a.check x).map a.type.encode

/-- Writes a value under the argument's name. -/
def writeTo (a : Arg α) (x : α) (config : Dict Value) : Except MappingError (Dict Value) :=
  (a.write x).map (config.insert a.name)

/-- Takes a value that is given, if it could be read back, and the default otherwise. -/
def valueOrDefault (a : Arg α) : Option α → Except MappingError α
  | some x => a.check x
  | none => a.missing

/-- What is published about the argument. -/
def spec (a : Arg α) : ArgSpec :=
  ⟨a.name, a.type.kind, a.default.isNone, a.default.map a.type.encode⟩

end Arg

end AudioScore
