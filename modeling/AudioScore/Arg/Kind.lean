import AudioScore.Json.Basic

/-!
# Kinds

An argument has a declared kind, and a value in a document has the kind it is found to have.
-/

namespace AudioScore

/-- The kind of a single argument. -/
inductive ScalarKind where
  | string
  /-- An integer of 64 bits with sign. -/
  | int
  /-- Any number. -/
  | float
  | bool
  /-- An integer number of nanoseconds. -/
  | time
  /-- A string that names a value of an enumeration. -/
  | enum
deriving DecidableEq

/-- The name of a kind. Enumerations travel as strings and are called so. -/
def ScalarKind.text : ScalarKind → String
  | .string => "string"
  | .enum => "string"
  | .int => "int"
  | .float => "float"
  | .bool => "bool"
  | .time => "time"

/-- The kind of an argument: one value, or a list of values of one kind. -/
inductive ArgKind where
  | scalar (kind : ScalarKind)
  | list (kind : ScalarKind)
deriving DecidableEq

/-- The name of a kind. -/
def ArgKind.text : ArgKind → String
  | .scalar kind => kind.text
  | .list kind => "list(" ++ kind.text ++ ")"

/-- The kind that a value in a document is found to have. -/
inductive ValueKind where
  | null
  | boolean
  | number
  | string
  | array
  | object
deriving DecidableEq

/-- The name of a kind. -/
def ValueKind.text : ValueKind → String
  | .null => "null"
  | .boolean => "boolean"
  | .number => "number"
  | .string => "string"
  | .array => "array"
  | .object => "object"

/-- The kind of a document. -/
def Json.kind : Json → ValueKind
  | .null => .null
  | .boolean _ => .boolean
  | .number _ => .number
  | .string _ => .string
  | .array _ => .array
  | .object _ => .object

end AudioScore
