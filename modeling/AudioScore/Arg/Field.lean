import AudioScore.Arg.Basic

/-!
# Config fields

The config of a plugin has fields of a closed set of types: the types that documents know, and
lists of them. Each stands for a Lean type and an argument type.
-/

namespace AudioScore

/-- The type of one value of a field. -/
inductive ScalarType : Type 1 where
  | string
  | int
  | float
  | bool
  | time
  | enum (α : Type) (names : WireEnum α)

namespace ScalarType

/-- The type of the values of a wire enumeration. -/
abbrev ofEnum (α : Type) [names : WireEnum α] : ScalarType := .enum α names

/-- The values of a type. -/
abbrev Carrier : ScalarType → Type
  | .string => String
  | .int => Int64
  | .float => Binary64
  | .bool => Bool
  | .time => Time
  | .enum α _ => α

/-- How values of a type travel. -/
def arg : (τ : ScalarType) → ScalarArg τ.Carrier
  | .string => .string
  | .int => .int
  | .float => .float
  | .bool => .bool
  | .time => .time
  | .enum _ names => @ScalarArg.enum _ names

/-- Equality of values, with doubles compared as numbers. -/
def same : (τ : ScalarType) → τ.Carrier → τ.Carrier → Bool
  | .string, s, t => s == t
  | .int, m, n => m == n
  | .float, x, y => x.same y
  | .bool, a, b => a == b
  | .time, t, u => t.nanos == u.nanos
  | .enum _ names, a, b => names.wire a == names.wire b

end ScalarType

/-- The type of a field: one value or a list. -/
inductive FieldType : Type 1 where
  | scalar (τ : ScalarType)
  | list (τ : ScalarType)

namespace FieldType

/-- The contents of a field. -/
abbrev Carrier : FieldType → Type
  | .scalar τ => τ.Carrier
  | .list τ => List τ.Carrier

/-- How contents travel. -/
def arg : (τ : FieldType) → ArgType τ.Carrier
  | .scalar τ => .scalar τ.arg
  | .list τ => .list τ.arg

/-- Equality of contents, with doubles compared as numbers. -/
def same : (τ : FieldType) → τ.Carrier → τ.Carrier → Bool
  | .scalar τ, x, y => τ.same x y
  | .list τ, xs, ys => xs.length == ys.length && (xs.zip ys).all fun p => τ.same p.1 p.2

end FieldType

/-- A field of the config of a plugin. -/
structure ConfigField where
  name : String
  type : FieldType
  default : Option type.Carrier

namespace ConfigField

/-- The contents of a field. -/
abbrev Carrier (f : ConfigField) : Type := f.type.Carrier

/-- The field as an argument. -/
def arg (f : ConfigField) : Arg f.Carrier := ⟨f.name, f.type.arg, f.default⟩

/-- A field that must be there. -/
def required (name : String) (type : FieldType) : ConfigField := ⟨name, type, none⟩

/-- A field with a default. -/
def withDefault (name : String) (type : FieldType) (default : type.Carrier) : ConfigField :=
  ⟨name, type, some default⟩

end ConfigField

end AudioScore
