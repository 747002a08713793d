import AudioScore.Json.Tree
import AudioScore.Proofs.Dict

/-!
# Documents as values

The value of a document has the same items and members, with the members of each object sorted
and a later one kept over an earlier one of the same key.

* `Json.toValue_array`, `Json.toValue_object`: the value of a document, layer by layer.
* `Value.toValue_json`: a value, taken as a document, has itself as its value.
-/

namespace AudioScore

namespace Json

theorem treesOfItems_eq_map (xs : List Json) : treesOfItems xs = xs.map toTree := by
  induction xs with
  | nil => rfl
  | cons x xs ih => rw [treesOfItems, ih, List.map_cons]

theorem treesOfMembers_eq_map (ms : List (String × Json)) :
    treesOfMembers ms = ms.map fun m => (some m.1, m.2.toTree) := by
  induction ms with
  | nil => rfl
  | cons m ms ih => rw [treesOfMembers, ih, List.map_cons]

/-! ## The value of a document -/

mutual

/-- Every document has a value. -/
theorem value?_value (j : Json) : j.toTree.value? .value = some j.toValue := by
  match j with
  | .null => rfl
  | .boolean b => rfl
  | .number n => rfl
  | .string s => rfl
  | .array xs =>
    have h := values?_value xs
    simp [toValue, toTree, Tree.value?, Source.enter, h]
  | .object ms =>
    have h := entries?_value .empty ms
    simp [toValue, toTree, Tree.value?, Source.enter, h]
termination_by structural j

theorem values?_value (xs : List Json) :
    Tree.values? .value (treesOfItems xs) = some (xs.map toValue) := by
  match xs with
  | [] => rfl
  | x :: xs =>
    rw [treesOfItems, Tree.values?, value?_value x, values?_value xs]
    rfl
termination_by structural xs

theorem entries?_value (d : Dict Value) (ms : List (String × Json)) :
    Tree.entries? .value d (treesOfMembers ms)
      = some (d.insertAll (ms.map fun m => (m.1, m.2.toValue))) := by
  match ms with
  | [] => rfl
  | (k, x) :: ms =>
    rw [treesOfMembers, Tree.entries?, value?_value x]
    exact entries?_value (d.insert k x.toValue) ms
termination_by structural ms

end

theorem toValue_array (xs : List Json) : (array xs).toValue = Value.array (xs.map toValue) := by
  have h := value?_value (array xs)
  rw [toTree, Tree.value?] at h
  simp only [Source.enter, values?_value, Option.bind_eq_bind, Option.bind_some, Option.pure_def,
    Option.some_inj] at h
  exact h.symm

theorem toValue_object (ms : List (String × Json)) :
    (object ms).toValue = Value.object (Dict.ofList (ms.map fun m => (m.1, m.2.toValue))) := by
  have h := value?_value (object ms)
  rw [toTree, Tree.value?] at h
  simp only [Source.enter, entries?_value, Option.bind_eq_bind, Option.bind_some, Option.pure_def,
    Option.some_inj] at h
  exact h.symm

/-! ## Sorted documents -/

mutual

theorem json_toValue {j : Json} (h : j.Sorted) : j.toValue.json = j := by
  match j with
  | .null => rfl
  | .boolean b => rfl
  | .number n => rfl
  | .string s => rfl
  | .array xs =>
    rw [toValue_array]
    exact congrArg array (json_toValue_items h)
  | .object ms =>
    have hkeys : Increasing ((ms.map fun m => (m.1, m.2.toValue)).map Prod.fst) := by
      rw [List.map_map]
      exact h.1
    rw [toValue_object]
    change object ((Dict.ofList _).entries.map _) = _
    rw [Dict.entries_ofList hkeys]
    exact congrArg object (json_toValue_members h.2)

theorem json_toValue_items {xs : List Json} (h : SortedItems xs) :
    (xs.map toValue).map Value.json = xs := by
  match xs with
  | [] => rfl
  | x :: xs =>
    rw [List.map_cons, List.map_cons, json_toValue h.1, json_toValue_items h.2]

theorem json_toValue_members {ms : List (String × Json)} (h : SortedMembers ms) :
    ((ms.map fun m => (m.1, m.2.toValue)).map fun e => (e.1, e.2.json)) = ms := by
  match ms with
  | [] => rfl
  | (k, x) :: ms =>
    rw [List.map_cons, List.map_cons, json_toValue h.1, json_toValue_members h.2]

end

end Json

/-- A value, taken as a document, has itself as its value. -/
theorem Value.toValue_json (v : Value) : v.json.toValue = v :=
  Value.ext (Json.json_toValue v.sorted)

end AudioScore
