import AudioScore.Json.Tree
import AudioScore.Text.Shown
import AudioScore.WireEnum

/-!
# Why a document does not read

A document fails to read either because its text is not JSON, or because its data do not have
the form that is asked for.

* `DecodeError`: the two causes.
* `Reason.message`: the wording of the second.
* `Tree.mismatch`: the failure when a tree has the wrong kind.
-/

namespace AudioScore

/-- What was found where something else was expected. -/
inductive Found where
  | null
  | boolean (b : Bool)
  | number (n : Number)
  | string (s : String)
  | sequence
  | map
deriving DecidableEq

/-- What was expected. -/
inductive Expected where
  | string
  | map
  | sequence
  | int64
  /-- A record, by its title. -/
  | record (title : String)
deriving DecidableEq

/-- Why data do not have the form asked for. -/
inductive Reason where
  | missingField (name : String)
  | duplicateField (name : String)
  | invalidType (found : Found) (expected : Expected)
  /-- An integer too large for 64 bits with sign. -/
  | integerTooLarge (n : Int)
  /-- An array of `count` items for a record that has `size` fields and needs more of them. -/
  | tooFewItems (count : Nat) (title : String) (size : Nat)
  /-- An array of `count` items for a record with fewer fields. -/
  | tooManyItems (count : Nat)
  | unrecognized (e : UnrecognizedName)
deriving DecidableEq

/-- Why a document does not read. -/
inductive DecodeError where
  /-- The text is not JSON, or goes past a limit. -/
  | malformed
  | data (reason : Reason)
deriving DecidableEq

/-! ## Wording -/

/-- How what was found is called. -/
def Found.message : Found → String
  | .null => "null"
  | .boolean true => "boolean `true`"
  | .boolean false => "boolean `false`"
  | .number (.integer n _) => "integer `" ++ toString n ++ "`"
  | .number (.float x) => "floating point `" ++ String.ofList x.chars ++ "`"
  | .string s => "string " ++ Shown.quoted s
  | .sequence => "sequence"
  | .map => "map"

/-- How what was expected is called. -/
def Expected.message : Expected → String
  | .string => "a string"
  | .map => "a map"
  | .sequence => "a sequence"
  | .int64 => "i64"
  | .record title => "struct " ++ title

/-- What is reported about data of the wrong form. -/
def Reason.message : Reason → String
  | .missingField name => "missing field `" ++ name ++ "`"
  | .duplicateField name => "duplicate field `" ++ name ++ "`"
  | .invalidType found expected =>
    "invalid type: " ++ found.message ++ ", expected " ++ expected.message
  | .integerTooLarge n => "invalid value: integer `" ++ toString n ++ "`, expected i64"
  | .tooFewItems count title size =>
    "invalid length " ++ toString count ++ ", expected struct " ++ title ++ " with "
      ++ toString size ++ " elements"
  | .tooManyItems count =>
    "invalid length " ++ toString count ++ ", expected fewer elements in array"
  | .unrecognized e => e.message

/-! ## Mismatches -/

/-- What a tree is, unless it is broken or has no value. Only the outermost kind counts. -/
def Tree.found? : Tree → Option Found
  | .null => some .null
  | .boolean b => some (.boolean b)
  | .number n => n.map .number
  | .string s => s.map .string
  | .array _ => some .sequence
  | .object _ => some .map
  | .broken => none

/-- The failure to read a tree of the wrong kind. -/
def Tree.mismatch (t : Tree) (expected : Expected) : DecodeError :=
  match t.found? with
  | some found => .data (.invalidType found expected)
  | none => .malformed

end AudioScore
