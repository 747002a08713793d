import AudioScore.Binary64.Decimal
import AudioScore.Dict

/-!
# JSON documents and values

A document keeps the members of its objects in the order in which they stand. A value is a
document whose objects, at every depth, have strictly increasing keys, so that equal values are
equal documents.

* `Number`: an integer of at most 64 bits, or a finite double. The two never mix.
* `Json`: documents.
* `Value`: sorted documents, with one constructor function per kind.
-/

namespace AudioScore

/-! ## Numbers -/

/-- A number of a document. Integers are those of the signed and the unsigned 64-bit range. -/
inductive Number where
  | integer (n : Int) (inRange : -2 ^ (63 : Nat) ≤ n ∧ n < 2 ^ (64 : Nat))
  | float (x : Binary64.Finite)
deriving DecidableEq

namespace Number

/-- The number of a 64-bit integer. -/
def ofInt64 (n : Int64) : Number :=
  .integer n.toInt ⟨Int64.le_toInt n, Int.lt_trans (Int64.toInt_lt n) (by decide)⟩

/-- The number of an integer, if it is in range. -/
def ofInt? (n : Int) : Option Number :=
  if h : -2 ^ (63 : Nat) ≤ n ∧ n < 2 ^ (64 : Nat) then some (.integer n h) else none

/-- The signed 64-bit integer that a number is, if it is one. -/
def int64? : Number → Option Int64
  | .integer n _ => if n < 2 ^ (63 : Nat) then some (Int64.ofInt n) else none
  | .float _ => none

/-- The double nearest to a number. -/
def toBinary64 : Number → Binary64
  | .integer n _ => .ofInt n
  | .float x => .finite x

/-- Equality of numbers: an integer never equals a float, and the two zeros of floats do. -/
def same : Number → Number → Bool
  | .integer m _, .integer n _ => m == n
  | .float x, .float y => x.same y
  | _, _ => false

end Number

/-! ## Documents -/

/-- A JSON document, the members of objects in their order. -/
inductive Json where
  | null
  | boolean (b : Bool)
  | number (n : Number)
  | string (s : String)
  | array (items : List Json)
  | object (members : List (String × Json))
deriving Inhabited

namespace Json

mutual

/-- Equality of documents, with numbers compared by `Number.same`. -/
def same : Json → Json → Bool
  | .null, .null => true
  | .boolean a, .boolean b => a == b
  | .number m, .number n => m.same n
  | .string s, .string t => s == t
  | .array xs, .array ys => sameItems xs ys
  | .object ms, .object ns => sameMembers ms ns
  | _, _ => false
termination_by structural x => x

/-- Equality of the items of arrays, one by one. -/
def sameItems : List Json → List Json → Bool
  | [], [] => true
  | x :: xs, y :: ys => x.same y && sameItems xs ys
  | _, _ => false
termination_by structural x => x

/-- Equality of the members of objects, one by one. -/
def sameMembers : List (String × Json) → List (String × Json) → Bool
  | [], [] => true
  | (k, x) :: ms, (l, y) :: ns => k == l && x.same y && sameMembers ms ns
  | _, _ => false
termination_by structural x => x

end

mutual

/-- Every object, at any depth, has strictly increasing keys. -/
def Sorted : Json → Prop
  | .array items => SortedItems items
  | .object members => Increasing (members.map Prod.fst) ∧ SortedMembers members
  | _ => True
termination_by structural x => x

/-- All items are sorted. -/
def SortedItems : List Json → Prop
  | [] => True
  | x :: xs => x.Sorted ∧ SortedItems xs
termination_by structural x => x

/-- All values of members are sorted. -/
def SortedMembers : List (String × Json) → Prop
  | [] => True
  | (_, x) :: ms => x.Sorted ∧ SortedMembers ms
termination_by structural x => x

end

theorem sortedItems_iff {xs : List Json} : SortedItems xs ↔ ∀ x ∈ xs, x.Sorted := by
  induction xs with
  | nil => simp [SortedItems]
  | cons x xs ih => simp [SortedItems, ih]

theorem sortedMembers_iff {ms : List (String × Json)} :
    SortedMembers ms ↔ ∀ m ∈ ms, m.2.Sorted := by
  induction ms with
  | nil => simp [SortedMembers]
  | cons m ms ih => simp [SortedMembers, ih]

end Json

/-! ## Values -/

/-- A document whose objects have strictly increasing keys, at every depth. -/
structure Value where
  json : Json
  sorted : json.Sorted

namespace Value

theorem ext {v w : Value} (h : v.json = w.json) : v = w := by
  obtain ⟨j, hj⟩ := v
  obtain ⟨k, hk⟩ := w
  cases h
  rfl

/-- The value `null`. -/
def null : Value := ⟨.null, trivial⟩

instance : Inhabited Value := ⟨null⟩

/-- A truth value. -/
def boolean (b : Bool) : Value := ⟨.boolean b, trivial⟩

/-- A number. -/
def number (n : Number) : Value := ⟨.number n, trivial⟩

/-- A string. -/
def string (s : String) : Value := ⟨.string s, trivial⟩

/-- An array of values. -/
def array (items : List Value) : Value :=
  ⟨.array (items.map json), Json.sortedItems_iff.mpr (by
    intro x hx
    obtain ⟨v, -, rfl⟩ := List.mem_map.mp hx
    exact v.sorted)⟩

/-- The object with the entries of a dictionary. -/
def object (members : Dict Value) : Value :=
  ⟨.object (members.map json).entries, (members.map json).increasing,
    Json.sortedMembers_iff.mpr (by
      intro m hm
      obtain ⟨e, -, rfl⟩ := List.mem_map.mp hm
      exact e.2.sorted)⟩

/-- A 64-bit integer. -/
def ofInt64 (n : Int64) : Value := number (.ofInt64 n)

/-- A double. What is not finite has no number, and becomes `null`. -/
def ofBinary64 : Binary64 → Value
  | .finite x => number (.float x)
  | _ => null

/-- Equality of values, with numbers compared by `Number.same`. -/
def same (v w : Value) : Bool := v.json.same w.json

end Value

end AudioScore
