import AudioScore.Codec.Error
import AudioScore.Json.Scan
import AudioScore.Json.Text
import AudioScore.Time

/-!
# Reading and writing typed data

A codec reads trees of one form as values of a type, and writes such values as documents. Trees
are read from left to right, so that of several faults the one that stands first is reported.

* `Codec.ofText`, `Codec.ofValue`: reading text and generic values.
* `Codec.text`, `Codec.toValue`: writing them.
-/

namespace AudioScore

/-- How values of a type are read and written. -/
structure Codec (α : Type) where
  decode : Source → Tree → Except DecodeError α
  encode : α → Json

/-- Opens a bracket, or fails when brackets nest too deeply. -/
def Source.open? (src : Source) : Except DecodeError Source :=
  match src.enter with
  | some inner => .ok inner
  | none => .error .malformed

/-- Passes over a tree that nothing is read from. Where it ends in its text is not looked for here:
that is where `Scan.tree` stopped. What is left to see is that the text was JSON up to there. The
limits on how deep brackets nest, and on what numbers and strings can stand for, hold only for trees
that are decoded. -/
def Tree.skip (t : Tree) : Except DecodeError Unit :=
  if t.intact then .ok () else .error .malformed

namespace Codec

variable {α β : Type}

/-! ## Documents -/

/-- Reads a whole text, with nothing after it but white space. -/
def ofText (c : Codec α) (text : String) : Except DecodeError α := do
  let (t, isEnd) := Tree.ofText text
  let a ← c.decode .newText t
  if isEnd then return a else throw .malformed

/-- Reads a generic value. Its members come in the order of their keys. -/
def ofValue (c : Codec α) (v : Value) : Except DecodeError α :=
  c.decode .value v.json.toTree

/-- Writes text. -/
def text (c : Codec α) (layout : Layout) (a : α) : String := (c.encode a).text layout

/-- Writes a generic value. -/
def toValue (c : Codec α) (a : α) : Value := (c.encode a).toValue

/-! ## Simple data -/

/-- Strings. -/
def string : Codec String where
  decode
    | _, .string (some s) => .ok s
    | _, t => .error (t.mismatch .string)
  encode := .string

/-- Signed 64-bit integers. -/
def int64 : Codec Int64 where
  decode
    | _, .number (some (.integer n _)) =>
      if n < 2 ^ (63 : Nat) then .ok (Int64.ofInt n) else .error (.data (.integerTooLarge n))
    | _, t => .error (t.mismatch .int64)
  encode n := .number (.ofInt64 n)

/-- Values of a wire enumeration, by their strings. -/
def wireEnum [WireEnum α] : Codec α where
  decode src t := do
    let s ← string.decode src t
    match WireEnum.ofWire? s with
    | .ok a => .ok a
    | .error e => .error (.data (.unrecognized e))
  encode a := .string (WireEnum.wire a)

/-- Any value at all. -/
def value : Codec Value where
  decode src t :=
    match t.value? src with
    | some v => .ok v
    | none => .error .malformed
  encode := Value.json

/-- Data in the form of other data. -/
def map (there : α → β) (back : β → α) (c : Codec α) : Codec β where
  decode src t := (c.decode src t).map there
  encode b := c.encode (back b)

/-! ## Collections -/

/-- Data that may be missing, with `null` in their place. -/
def optional (c : Codec α) : Codec (Option α) where
  decode
    | _, .null => .ok none
    | src, t => (c.decode src t).map some
  encode
    | none => .null
    | some a => c.encode a

/-- Arrays of data of one form. -/
def list (c : Codec α) : Codec (List α) where
  decode
    | src, .array items => do
      let inner ← src.open?
      items.mapM (c.decode inner)
    | _, t => .error (t.mismatch .sequence)
  encode xs := .array (xs.map c.encode)

/-- Reads members into a dictionary, each over an earlier one of the same key. -/
def entries (c : Codec α) (src : Source) :
    Dict α → List (Option String × Tree) → Except DecodeError (Dict α)
  | d, [] => .ok d
  | _, (none, _) :: _ => .error .malformed
  | d, (some key, t) :: rest => do
    let a ← c.decode src t
    entries c src (d.insert key a) rest

/-- Objects with any keys and data of one form. -/
def dict (c : Codec α) : Codec (Dict α) where
  decode
    | src, .object members => do
      let inner ← src.open?
      c.entries inner .empty members
    | _, t => .error (t.mismatch .map)
  encode d := .object (d.map c.encode).entries

end Codec

/-- Times in documents: integer nanoseconds. -/
def Time.codec : Codec Time := Codec.int64.map Time.mk Time.nanos

end AudioScore
