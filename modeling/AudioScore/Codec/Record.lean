import AudioScore.Codec.Basic
import AudioScore.Row

/-!
# Records

A record has named fields in a fixed order. In a document it is an object, whose members may
come in any order and among others that are passed over, or an array of its fields in order.
Fields that hold what an absent field stands for are not written.

* `RecordFormat`: the fields of a record.
* `Codec.record`: reading and writing records.
-/

namespace AudioScore

/-- One field of a record. -/
structure Field (α : Type) where
  name : String
  codec : Codec α
  /-- What an absent field stands for, unless the field is required. -/
  absent : Option α
  /-- Whether a content is left out in writing. -/
  omits : α → Bool

namespace Field

variable {α : Type}

/-- A field that is always present. -/
def required (name : String) (codec : Codec α) : Field α := ⟨name, codec, none, fun _ => false⟩

/-- A field that may be absent or `null`. -/
def optional (name : String) (codec : Codec α) : Field (Option α) :=
  ⟨name, codec.optional, some none, Option.isNone⟩

/-- A list that is empty when absent, but never `null`. -/
def list (name : String) (codec : Codec α) : Field (List α) :=
  ⟨name, codec.list, some [], List.isEmpty⟩

/-- A dictionary that is empty when absent, but never `null`. -/
def dict (name : String) (codec : Codec α) : Field (Dict α) :=
  ⟨name, codec.dict, some .empty, Dict.isEmpty⟩

end Field

/-- The contents of the fields of a record. -/
abbrev Contents (types : List Type) : Type := Row (fun α => α) types

/-- The contents found so far. -/
abbrev Slots (types : List Type) : Type := Row Option types

namespace Fields

/-! ## Objects -/

/-- Reads the value of a member with a given key into its slot. A key that names no field is
passed over, and a field that stands twice is refused. -/
def fill : {types : List Type} → Row Field types → Slots types → String → Source → Tree →
    Except DecodeError (Slots types)
  | [], _, slots, _, _, t => do
    t.skip
    return slots
  | _ :: _, (f, fs), (slot, slots), key, src, t =>
    if key = f.name then
      match slot with
      | some _ => .error (.data (.duplicateField f.name))
      | none => do
        let a ← f.codec.decode src t
        return (some a, slots)
    else do
      let slots ← fill fs slots key src t
      return (slot, slots)

/-- Reads the members of an object in order. -/
def fillAll {types : List Type} (fields : Row Field types) (src : Source) :
    Slots types → List (Option String × Tree) → Except DecodeError (Slots types)
  | slots, [] => .ok slots
  | _, (none, _) :: _ => .error .malformed
  | slots, (some key, t) :: rest => do
    let slots ← fill fields slots key src t
    fillAll fields src slots rest

/-- Takes the contents out of their slots. The first required field without one is missing. -/
def finish : {types : List Type} → Row Field types → Slots types →
    Except DecodeError (Contents types)
  | [], _, _ => .ok ⟨⟩
  | _ :: _, (f, fs), (slot, slots) =>
    match slot.or f.absent with
    | none => .error (.data (.missingField f.name))
    | some a => do
      let rest ← finish fs slots
      return (a, rest)

/-! ## Arrays -/

/-- The failure when items are left after the last field. -/
def tooMany (src : Source) (count : Nat) : DecodeError :=
  match src with
  | .text _ => .malformed
  | .value => .data (.tooManyItems count)

/-- Reads items as the fields in order, `before` items having been read. Fields at the end may
be absent if they are not required. -/
def ofItems (title : String) (size : Nat) (src : Source) : {types : List Type} →
    Row Field types → (before : Nat) → List Tree → Except DecodeError (Contents types)
  | [], _, _, [] => .ok ⟨⟩
  | [], _, before, items => .error (tooMany src (before + items.length))
  | _ :: _, (f, fs), before, [] =>
    match f.absent with
    | none => .error (.data (.tooFewItems before title size))
    | some a => do
      let rest ← ofItems title size src fs before []
      return (a, rest)
  | _ :: _, (f, fs), before, t :: ts => do
    let a ← f.codec.decode src t
    let rest ← ofItems title size src fs (before + 1) ts
    return (a, rest)

/-! ## Writing -/

/-- The members of a record, in the order of its fields. -/
def members : {types : List Type} → Row Field types → Contents types → List (String × Json)
  | [], _, _ => []
  | _ :: _, (f, fs), (a, rest) =>
    if f.omits a then members fs rest else (f.name, f.codec.encode a) :: members fs rest

end Fields

/-- The form of records of a type: a title, the fields, and how contents make a record. -/
structure RecordFormat (ρ : Type) where
  title : String
  types : List Type
  fields : Row Field types
  make : Contents types → ρ
  parts : ρ → Contents types
  make_parts : ∀ r, make (parts r) = r

/-- Records. -/
def Codec.record {ρ : Type} (fmt : RecordFormat ρ) : Codec ρ where
  decode
    | src, .object members => do
      let inner ← src.open?
      let slots ← Fields.fillAll fmt.fields inner (Row.ofFn (fun _ => none) fmt.types) members
      let contents ← Fields.finish fmt.fields slots
      return fmt.make contents
    | src, .array items => do
      let inner ← src.open?
      let contents ← Fields.ofItems fmt.title fmt.types.length inner fmt.fields 0 items
      return fmt.make contents
    | _, t => .error (t.mismatch (.record fmt.title))
  encode r := .object (Fields.members fmt.fields (fmt.parts r))

end AudioScore
