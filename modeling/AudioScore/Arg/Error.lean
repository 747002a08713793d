import AudioScore.Arg.Kind
import AudioScore.WireEnum

/-!
# Why typed values are refused

* `MappingError`: the causes.
* `MappingError.message`: their wording.
-/

namespace AudioScore

/-- Why a typed value or a typed node is refused. -/
inductive MappingError where
  /-- An argument without a default is absent. -/
  | missingArgument (arg : String)
  /-- A value does not have the declared kind. -/
  | kindMismatch (arg : String) (expected : ArgKind) (actual : ValueKind)
  /-- A node has another kind than the plugin that it is read for. -/
  | unexpectedKind (expected actual : String)
  /-- A string names no value of an enumeration. -/
  | unrecognizedName (arg : String) (source : UnrecognizedName)
  /-- A double is infinite or not a number, which documents cannot hold. -/
  | nonFinite (arg : String)
  /-- No plugin has this kind. -/
  | unknownKind (kind : String)
deriving DecidableEq

/-- What is reported about a refusal. -/
def MappingError.message : MappingError → String
  | .missingArgument arg => "arg=" ++ arg ++ " is not set and has no default value"
  | .kindMismatch arg expected actual =>
    "arg=" ++ arg ++ " expects kind=" ++ expected.text ++ " but value is kind=" ++ actual.text
  | .unexpectedKind expected actual =>
    "expected plugin kind=" ++ expected ++ " but node is kind=" ++ actual
  | .unrecognizedName arg source => "arg=" ++ arg ++ ": " ++ source.message
  | .nonFinite arg => "arg=" ++ arg ++ " must be a finite number"
  | .unknownKind kind => "unknown node kind: " ++ kind

end AudioScore
