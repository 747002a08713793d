import AudioScore.Arg.Error
import AudioScore.Time

/-!
# Types of arguments

The type of an argument says which values in documents have its form, what they stand for, and
how they are written. New types are made by giving these functions.

* `ScalarArg`: a type whose values may also stand in lists.
* `ArgType.scalar`, `ArgType.list`: one value, or a list of them.
-/

namespace AudioScore

/-- Why a value is not taken. -/
inductive ValueError where
  /-- It has the wrong kind. -/
  | kind (actual : ValueKind)
  /-- It names no value of an enumeration. -/
  | name (e : UnrecognizedName)
deriving DecidableEq

/-- How values of a type travel as arguments. -/
structure ArgType (α : Type) where
  /-- The kind that is declared. -/
  kind : ArgKind
  /-- Whether a value has the form that this type is read from. -/
  accepts : Json → Bool
  /-- What a value stands for. -/
  decode : Json → Except ValueError α
  encode : α → Value
  /-- Whether what is written reads back. -/
  encodable : α → Bool

/-- An argument type whose values may stand in lists. -/
structure ScalarArg (α : Type) where
  kind : ScalarKind
  accepts : Json → Bool
  decode : Json → Except ValueError α
  encode : α → Value
  encodable : α → Bool

/-- The failure of a value that has the wrong kind. -/
def wrongKind {α : Type} (j : Json) : Except ValueError α := .error (.kind j.kind)

namespace ScalarArg

/-! ## The types that documents know -/

/-- Strings. -/
def string : ScalarArg String where
  kind := .string
  accepts
    | .string _ => true
    | _ => false
  decode
    | .string s => .ok s
    | j => wrongKind j
  encode := .string
  encodable _ := true

/-- The 64-bit integer that a document is, if it is one. -/
def int64? : Json → Option Int64
  | .number n => n.int64?
  | _ => none

/-- Integers of 64 bits with sign. -/
def int : ScalarArg Int64 where
  kind := .int
  accepts j := (int64? j).isSome
  decode j :=
    match int64? j with
    | some n => .ok n
    | none => wrongKind j
  encode := .ofInt64
  encodable _ := true

/-- Doubles. Integers are taken as the nearest double. -/
def float : ScalarArg Binary64 where
  kind := .float
  accepts
    | .number _ => true
    | _ => false
  decode
    | .number n => .ok n.toBinary64
    | j => wrongKind j
  encode := .ofBinary64
  encodable := Binary64.isFinite

/-- Truth values. -/
def bool : ScalarArg Bool where
  kind := .bool
  accepts
    | .boolean _ => true
    | _ => false
  decode
    | .boolean b => .ok b
    | j => wrongKind j
  encode := .boolean
  encodable _ := true

/-- Times, as integer nanoseconds. -/
def time : ScalarArg Time where
  kind := .time
  accepts j := (int64? j).isSome
  decode j :=
    match int64? j with
    | some n => .ok ⟨n⟩
    | none => wrongKind j
  encode t := .ofInt64 t.nanos
  encodable _ := true

/-- Values of a wire enumeration, by their strings. -/
def enum {α : Type} [WireEnum α] : ScalarArg α where
  kind := .enum
  accepts
    | .string _ => true
    | _ => false
  decode
    | .string s =>
      match WireEnum.ofWire? s with
      | .ok a => .ok a
      | .error e => .error (.name e)
    | j => wrongKind j
  encode a := .string (WireEnum.wire a)
  encodable _ := true

end ScalarArg

namespace ArgType

variable {α : Type}

/-- One value of a type. -/
def scalar (s : ScalarArg α) : ArgType α where
  kind := .scalar s.kind
  accepts := s.accepts
  decode := s.decode
  encode := s.encode
  encodable := s.encodable

/-- A list of values of a type. The first item that is not taken is the one reported. -/
def list (s : ScalarArg α) : ArgType (List α) where
  kind := .list s.kind
  accepts
    | .array items => items.all s.accepts
    | _ => false
  decode
    | .array items => items.mapM s.decode
    | j => wrongKind j
  encode xs := .array (xs.map s.encode)
  encodable xs := xs.all s.encodable

end ArgType

end AudioScore
