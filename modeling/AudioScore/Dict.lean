/-!
# Dictionaries with sorted keys

A dictionary keeps its entries in strictly increasing order of their keys, by code point, which
is also the order of their UTF-8 bytes. So a dictionary is determined by what it maps to what.

* `get?_insert`: inserting changes the entry under one key.
* `mem_keys_insertEntry`, `increasing_insertEntry`: what the entries are afterwards, and their order.
* `ext_get?`: dictionaries with the same entries are equal.
-/

namespace AudioScore

/-- Keys in strictly increasing order. -/
def Increasing (keys : List String) : Prop := keys.Pairwise (· < ·)

/-- A finite map from strings, its entries sorted by key. -/
structure Dict (α : Type) where
  entries : List (String × α)
  increasing : Increasing (entries.map Prod.fst)

namespace Dict

variable {α : Type}

/-! ## Sorted insertion -/

/-- Puts an entry at its place in sorted entries, in place of one with the same key. -/
def insertEntry (key : String) (value : α) : List (String × α) → List (String × α)
  | [] => [(key, value)]
  | (k, v) :: rest =>
    if key < k then (key, value) :: (k, v) :: rest
    else if key = k then (key, value) :: rest
    else (k, v) :: insertEntry key value rest

theorem mem_keys_insertEntry {key k : String} {value : α} {es : List (String × α)} :
    k ∈ (insertEntry key value es).map Prod.fst ↔ k = key ∨ k ∈ es.map Prod.fst := by
  induction es with
  | nil => simp [insertEntry]
  | cons e rest ih =>
    obtain ⟨k', v'⟩ := e
    rw [insertEntry]
    split
    · simp
    · split
      · rename_i h
        simp [h]
      · simp only [List.map_cons, List.mem_cons, ih]
        exact or_left_comm

theorem lt_of_not_lt_of_ne {a b : String} (h : ¬ a < b) (hne : a ≠ b) : b < a := by
  rcases String.le_total a b with hle | hle
  · by_cases hba : b < a
    · exact hba
    · exact absurd (String.le_antisymm hle (String.not_lt.mp h)) hne
  · by_cases hba : b < a
    · exact hba
    · exact absurd (String.le_antisymm (String.not_lt.mp hba) (String.not_lt.mp h)) hne

theorem increasing_insertEntry (key : String) (value : α) {es : List (String × α)}
    (h : Increasing (es.map Prod.fst)) : Increasing ((insertEntry key value es).map Prod.fst) := by
  induction es with
  | nil => exact List.pairwise_singleton _ _
  | cons e rest ih =>
    obtain ⟨k, v⟩ := e
    have hk := List.pairwise_cons.mp h
    rw [insertEntry]
    split
    · rename_i hlt
      refine List.pairwise_cons.mpr ⟨fun k' hk' => ?_, h⟩
      rcases List.mem_cons.mp hk' with rfl | hmem
      · exact hlt
      · exact String.lt_trans hlt (hk.1 k' hmem)
    · split
      · rename_i heq
        subst heq
        exact h
      · rename_i hlt hne
        refine List.pairwise_cons.mpr ⟨fun k' hk' => ?_, ih hk.2⟩
        rcases mem_keys_insertEntry.mp hk' with rfl | hmem
        · exact lt_of_not_lt_of_ne hlt hne
        · exact hk.1 k' hmem

/-! ## Operations -/

/-- The dictionary without entries. -/
def empty : Dict α := ⟨[], List.Pairwise.nil⟩

instance : Inhabited (Dict α) := ⟨empty⟩

/-- Whether there are no entries. -/
def isEmpty (d : Dict α) : Bool := d.entries.isEmpty

/-- The number of entries. -/
def size (d : Dict α) : Nat := d.entries.length

/-- The keys, in increasing order. -/
def keys (d : Dict α) : List String := d.entries.map Prod.fst

/-- Maps a key to a value, whatever it was mapped to before. -/
def insert (d : Dict α) (key : String) (value : α) : Dict α :=
  ⟨insertEntry key value d.entries, increasing_insertEntry key value d.increasing⟩

/-- What a key is mapped to. -/
def get? (d : Dict α) (key : String) : Option α := d.entries.lookup key

/-- The dictionary of a list of entries, in which a later entry replaces an earlier one. -/
def ofList (es : List (String × α)) : Dict α :=
  es.foldl (fun d e => d.insert e.1 e.2) empty

/-- The dictionary with every value changed. -/
def map {β : Type} (f : α → β) (d : Dict α) : Dict β :=
  ⟨d.entries.map fun e => (e.1, f e.2), by
    rw [List.map_map]
    exact d.increasing⟩

/-- Whether two dictionaries have the same keys, with values that agree. -/
def sameBy (agree : α → α → Bool) (d e : Dict α) : Bool :=
  d.keys == e.keys &&
    (d.entries.zip e.entries).all fun p => agree p.1.2 p.2.2

/-! ## Lookup -/

theorem lookup_cons_ite (k key : String) (value : α) (es : List (String × α)) :
    ((key, value) :: es).lookup k = if k = key then some value else es.lookup k := by
  by_cases h : k = key
  · simp [h]
  · simp [List.lookup_cons, h, beq_eq_false_iff_ne.mpr h]

/-- A list whose first entry has a key has something under that key. -/
theorem lookup_head_ne_none (e : String × α) (es : List (String × α)) :
    (e :: es).lookup e.1 ≠ none := by
  rw [lookup_cons_ite, if_pos rfl]
  exact Option.some_ne_none _

theorem lookup_insertEntry (key k : String) (value : α) (es : List (String × α)) :
    (insertEntry key value es).lookup k = if k = key then some value else es.lookup k := by
  induction es with
  | nil => rw [insertEntry, lookup_cons_ite]
  | cons e rest ih =>
    obtain ⟨k', v'⟩ := e
    rw [insertEntry]
    split
    · rw [lookup_cons_ite]
    · split
      · rename_i h
        subst h
        simp only [lookup_cons_ite]
        split <;> rfl
      · rename_i hne
        simp only [lookup_cons_ite, ih]
        by_cases h : k = k'
        · subst h
          rw [if_pos rfl, if_neg (Ne.symm hne), if_pos rfl]
        · rw [if_neg h, if_neg h]

theorem get?_insert (d : Dict α) (key k : String) (value : α) :
    (d.insert key value).get? k = if k = key then some value else d.get? k :=
  lookup_insertEntry key k value d.entries

theorem get?_empty (k : String) : (empty : Dict α).get? k = none := rfl

theorem lookup_eq_none_of_lt {k : String} {es : List (String × α)}
    (h : ∀ k' ∈ es.map Prod.fst, k < k') : es.lookup k = none := by
  induction es with
  | nil => rfl
  | cons e rest ih =>
    obtain ⟨k', v'⟩ := e
    have hne : k ≠ k' := by
      rintro rfl
      exact String.lt_irrefl _ (h k (by simp))
    rw [lookup_cons_ite, if_neg hne]
    exact ih fun k'' hk'' => h k'' (by simp [hk''])

theorem entries_ext {es fs : List (String × α)} (he : Increasing (es.map Prod.fst))
    (hf : Increasing (fs.map Prod.fst)) (h : ∀ k, es.lookup k = fs.lookup k) : es = fs := by
  induction es generalizing fs with
  | nil =>
    cases fs with
    | nil => rfl
    | cons f fs => exact absurd (h f.1).symm (lookup_head_ne_none f fs)
  | cons e es ih =>
    cases fs with
    | nil => exact absurd (h e.1) (lookup_head_ne_none e es)
    | cons f fs =>
      have hee := List.pairwise_cons.mp he
      have hff := List.pairwise_cons.mp hf
      have hkey : e.1 = f.1 := by
        by_cases hlt : e.1 < f.1
        · have hnone : (f :: fs).lookup e.1 = none := by
            refine lookup_eq_none_of_lt fun k' hk' => ?_
            rcases List.mem_cons.mp hk' with rfl | hmem
            · exact hlt
            · exact String.lt_trans hlt (hff.1 k' hmem)
          exact absurd ((h e.1).trans hnone) (lookup_head_ne_none e es)
        · by_cases heq : e.1 = f.1
          · exact heq
          have hgt := lt_of_not_lt_of_ne hlt heq
          have hnone : (e :: es).lookup f.1 = none := by
            refine lookup_eq_none_of_lt fun k' hk' => ?_
            rcases List.mem_cons.mp hk' with rfl | hmem
            · exact hgt
            · exact String.lt_trans hgt (hee.1 k' hmem)
          exact absurd ((h f.1).symm.trans hnone) (lookup_head_ne_none f fs)
      obtain ⟨k, v⟩ := e
      obtain ⟨k', w⟩ := f
      simp only at hkey
      subst hkey
      have hv : v = w := by
        have := h k
        rwa [lookup_cons_ite, lookup_cons_ite, if_pos rfl, if_pos rfl, Option.some_inj] at this
      subst hv
      congr 1
      refine ih hee.2 hff.2 fun j => ?_
      by_cases hj : j = k
      · subst hj
        rw [lookup_eq_none_of_lt hee.1, lookup_eq_none_of_lt hff.1]
      · have := h j
        rwa [lookup_cons_ite, lookup_cons_ite, if_neg hj, if_neg hj] at this

/-- Dictionaries that map every key alike are equal. -/
theorem ext_get? {d e : Dict α} (h : ∀ k, d.get? k = e.get? k) : d = e := by
  obtain ⟨es, he⟩ := d
  obtain ⟨fs, hf⟩ := e
  cases entries_ext he hf h
  rfl

end Dict

end AudioScore
