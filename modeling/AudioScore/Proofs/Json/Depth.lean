import AudioScore.Proofs.Json.Value

/-!
# How deeply documents nest

A text may only open so many brackets inside each other. The tree of a document is read as far
as that limit admits its depth, and a value has no limit.

* `Json.depth`: how many arrays and objects stand inside each other.
* `Json.value?_toTree`: the tree of a document has its value exactly where its depth is admitted.
* `Json.Distinct.depth_toValue`: without repeated keys a document is as deep as its value.
-/

namespace AudioScore

namespace Json

/-! ## Depth -/

mutual

/-- How many arrays and objects stand inside each other. -/
def depth : Json → Nat
  | .array items => depthItems items + 1
  | .object members => depthMembers members + 1
  | _ => 0
termination_by structural x => x

/-- The depth of the deepest item. -/
def depthItems : List Json → Nat
  | [] => 0
  | x :: xs => max x.depth (depthItems xs)
termination_by structural x => x

/-- The depth of the deepest value of a member. -/
def depthMembers : List (String × Json) → Nat
  | [] => 0
  | (_, x) :: ms => max x.depth (depthMembers ms)
termination_by structural x => x

end

theorem depthItems_le_iff {xs : List Json} {n : Nat} :
    depthItems xs ≤ n ↔ ∀ x ∈ xs, x.depth ≤ n := by
  induction xs with
  | nil => simp [depthItems]
  | cons x xs ih => rw [depthItems, Nat.max_le, ih, List.forall_mem_cons]

theorem depthMembers_le_iff {ms : List (String × Json)} {n : Nat} :
    depthMembers ms ≤ n ↔ ∀ m ∈ ms, m.2.depth ≤ n := by
  induction ms with
  | nil => simp [depthMembers]
  | cons m ms ih => rw [depthMembers, Nat.max_le, ih, List.forall_mem_cons]

end Json

/-! ## Room -/

namespace Source

/-- Whether there is room for brackets nested to a depth. -/
def Admits : Source → Nat → Prop
  | .text room, depth => depth ≤ room
  | .value, _ => True

instance (src : Source) (depth : Nat) : Decidable (src.Admits depth) :=
  match src with
  | .text room => inferInstanceAs (Decidable (depth ≤ room))
  | .value => inferInstanceAs (Decidable True)

theorem admits_zero (src : Source) : src.Admits 0 := by
  cases src with
  | text room => exact Nat.zero_le room
  | value => trivial

theorem admits_max {src : Source} {m n : Nat} :
    src.Admits (max m n) ↔ src.Admits m ∧ src.Admits n := by
  cases src with
  | text room => exact Nat.max_le
  | value => simp [Admits]

/-- A bracket opens where its depth is admitted, and leaves room for one less. -/
theorem enter_cases (src : Source) :
    (∃ inner, src.enter = some inner ∧ ∀ n, src.Admits (n + 1) ↔ inner.Admits n) ∨
      (src.enter = none ∧ ∀ n, ¬ src.Admits (n + 1)) := by
  match src with
  | .text 0 => exact .inr ⟨rfl, fun n h => absurd h (Nat.not_succ_le_zero n)⟩
  | .text (room + 1) => exact .inl ⟨.text room, rfl, fun n => Nat.succ_le_succ_iff⟩
  | .value => exact .inl ⟨.value, rfl, fun n => Iff.rfl⟩

end Source

namespace Json

mutual

/-- The tree of a document has a value where the depth of the document is admitted. -/
theorem value?_toTree (src : Source) (j : Json) :
    j.toTree.value? src = if src.Admits j.depth then some j.toValue else none := by
  match j with
  | .null => exact (if_pos src.admits_zero).symm
  | .boolean b => exact (if_pos src.admits_zero).symm
  | .number n => exact (if_pos src.admits_zero).symm
  | .string s => exact (if_pos src.admits_zero).symm
  | .array xs =>
    rw [toTree, Tree.value?, depth, toValue_array]
    obtain ⟨inner, hinner, hadmits⟩ | ⟨hnone, hdeep⟩ := src.enter_cases
    · have h := values?_toTree inner xs
      simp only [hinner, Option.bind_eq_bind, Option.bind_some, h, hadmits, Option.pure_def]
      split <;> rfl
    · rw [hnone, if_neg (hdeep _)]
      rfl
  | .object ms =>
    rw [toTree, Tree.value?, depth, toValue_object]
    obtain ⟨inner, hinner, hadmits⟩ | ⟨hnone, hdeep⟩ := src.enter_cases
    · have h := entries?_toTree inner .empty ms
      simp only [hinner, Option.bind_eq_bind, Option.bind_some, h, hadmits, Option.pure_def]
      split <;> rfl
    · rw [hnone, if_neg (hdeep _)]
      rfl
termination_by structural j

theorem values?_toTree (src : Source) (xs : List Json) :
    Tree.values? src (treesOfItems xs)
      = if src.Admits (depthItems xs) then some (xs.map toValue) else none := by
  match xs with
  | [] => exact (if_pos src.admits_zero).symm
  | x :: xs =>
    rw [treesOfItems, Tree.values?, value?_toTree src x, values?_toTree src xs, depthItems]
    by_cases hx : src.Admits x.depth <;> by_cases hxs : src.Admits (depthItems xs) <;>
      simp [Source.admits_max, hx, hxs]
termination_by structural xs

theorem entries?_toTree (src : Source) (d : Dict Value) (ms : List (String × Json)) :
    Tree.entries? src d (treesOfMembers ms)
      = if src.Admits (depthMembers ms) then
          some (d.insertAll (ms.map fun m => (m.1, m.2.toValue))) else none := by
  match ms with
  | [] => exact (if_pos src.admits_zero).symm
  | (k, x) :: ms =>
    have h := entries?_toTree src (d.insert k x.toValue) ms
    rw [treesOfMembers, Tree.entries?, value?_toTree src x, depthMembers]
    by_cases hx : src.Admits x.depth <;> by_cases hms : src.Admits (depthMembers ms) <;>
      simp [Source.admits_max, hx, hms, h, Dict.insertAll_cons]
termination_by structural ms

end

/-! ## Distinct keys -/

mutual

/-- No object, at any depth, repeats a key. -/
def Distinct : Json → Prop
  | .array items => DistinctItems items
  | .object members => (members.map Prod.fst).Nodup ∧ DistinctMembers members
  | _ => True
termination_by structural x => x

/-- No item repeats a key. -/
def DistinctItems : List Json → Prop
  | [] => True
  | x :: xs => x.Distinct ∧ DistinctItems xs
termination_by structural x => x

/-- No value of a member repeats a key. -/
def DistinctMembers : List (String × Json) → Prop
  | [] => True
  | (_, x) :: ms => x.Distinct ∧ DistinctMembers ms
termination_by structural x => x

end

theorem distinctItems_iff {xs : List Json} : DistinctItems xs ↔ ∀ x ∈ xs, x.Distinct := by
  induction xs with
  | nil => simp [DistinctItems]
  | cons x xs ih => simp [DistinctItems, ih]

theorem distinctMembers_iff {ms : List (String × Json)} :
    DistinctMembers ms ↔ ∀ m ∈ ms, m.2.Distinct := by
  induction ms with
  | nil => simp [DistinctMembers]
  | cons m ms ih => simp [DistinctMembers, ih]

mutual

/-- Sorted keys do not repeat. -/
theorem Sorted.distinct {j : Json} (h : j.Sorted) : j.Distinct := by
  match j with
  | .null | .boolean _ | .number _ | .string _ => trivial
  | .array xs => exact SortedItems.distinct h
  | .object ms => exact ⟨h.1.nodup, SortedMembers.distinct h.2⟩
termination_by structural j

theorem SortedItems.distinct {xs : List Json} (h : SortedItems xs) : DistinctItems xs := by
  match xs with
  | [] => trivial
  | x :: xs => exact ⟨h.1.distinct, SortedItems.distinct h.2⟩
termination_by structural xs

theorem SortedMembers.distinct {ms : List (String × Json)} (h : SortedMembers ms) :
    DistinctMembers ms := by
  match ms with
  | [] => trivial
  | (k, x) :: ms => exact ⟨h.1.distinct, SortedMembers.distinct h.2⟩
termination_by structural ms

end

theorem eq_of_le_iff {a b : Nat} (h : ∀ n, a ≤ n ↔ b ≤ n) : a = b :=
  Nat.le_antisymm ((h b).mpr (Nat.le_refl b)) ((h a).mp (Nat.le_refl a))

mutual

/-- A document without repeated keys is as deep as its value. -/
theorem Distinct.depth_toValue {j : Json} (h : j.Distinct) : j.toValue.json.depth = j.depth := by
  match j with
  | .null => rfl
  | .boolean b => rfl
  | .number n => rfl
  | .string s => rfl
  | .array xs =>
    have hxs := DistinctItems.depth_toValue h
    rw [toValue_array]
    refine congrArg (· + 1) (eq_of_le_iff fun n => ?_)
    rw [depthItems_le_iff, depthItems_le_iff]
    simp only [List.mem_map, forall_exists_index, and_imp, forall_apply_eq_imp_iff₂]
    exact forall₂_congr fun x hx => by rw [hxs x hx]
  | .object ms =>
    have hms := DistinctMembers.depth_toValue h.2
    rw [toValue_object]
    refine congrArg (· + 1) (eq_of_le_iff fun n => ?_)
    rw [depthMembers_le_iff, depthMembers_le_iff]
    have hkeys : ((ms.map fun m => (m.1, m.2.toValue)).map Prod.fst).Nodup := by
      rw [List.map_map]
      exact h.1
    change (∀ m ∈ (Dict.ofList _).entries.map _, _) ↔ _
    simp only [List.mem_map, Dict.mem_entries_ofList hkeys, forall_exists_index, and_imp,
      forall_apply_eq_imp_iff₂]
    exact forall₂_congr fun m hm => by rw [hms m hm]
termination_by structural j

theorem DistinctItems.depth_toValue {xs : List Json} (h : DistinctItems xs) :
    ∀ x ∈ xs, x.toValue.json.depth = x.depth := by
  match xs with
  | [] => exact fun x hx => absurd hx (by simp)
  | x :: xs =>
    have hx := h.1.depth_toValue
    have hxs := DistinctItems.depth_toValue h.2
    exact List.forall_mem_cons.mpr ⟨hx, hxs⟩
termination_by structural xs

theorem DistinctMembers.depth_toValue {ms : List (String × Json)} (h : DistinctMembers ms) :
    ∀ m ∈ ms, m.2.toValue.json.depth = m.2.depth := by
  match ms with
  | [] => exact fun m hm => absurd hm (by simp)
  | (k, x) :: ms =>
    have hx := h.1.depth_toValue
    have hms := DistinctMembers.depth_toValue h.2
    exact List.forall_mem_cons.mpr ⟨hx, hms⟩
termination_by structural ms

end

end Json

end AudioScore
