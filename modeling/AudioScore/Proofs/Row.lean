import AudioScore.Proofs.Dict
import AudioScore.Proofs.Except
import AudioScore.Row
import Mathlib.Data.List.ReduceOption

/-!
# Rows, item by item

* `Row.Every`: a property of every item of a row.
* `Row.every_of_traverse`, `Row.build_eq_ok_iff`, `Row.ofFn_eq`: rows that are made item by item.
* `Row.build_eq_error_iff`, `Row.traverse_eq_error_iff`: the first item that fails.
* `Row.map`, `Row.map_eq_iff`: rows with every item changed, and those that this leaves as they are.
* `Row.AgreeOn`, `Row.build_update`: rows that differ in one item, and what making one of them shows
  about the others.
* `Row.every_mem_toList`, `Row.Every.mem_toList`: every item is in the list of items, and no other.
* `Row.every_get?`, `Row.mem_keys_iff`, `Row.Every.forall_entries`: dictionaries of items by name.
* `Row.present`, `Row.every_get?_present`: dictionaries of items that may be missing.
-/

namespace AudioScore

universe u v

namespace Row

variable {ι : Type u} {F G : ι → Type v} {i : ι} {is : List ι}

/-- A row of a first item and the rest. -/
def cons (x : F i) (xs : Row F is) : Row F (i :: is) := (x, xs)

theorem exists_cons (row : Row F (i :: is)) : ∃ x xs, row = cons x xs := ⟨row.1, row.2, rfl⟩

theorem cons_inj {x y : F i} {xs ys : Row F is} : cons x xs = cons y ys ↔ x = y ∧ xs = ys :=
  Prod.mk.injEq .. ▸ Iff.rfl

/-- Whether every item of a row has a property. -/
def Every (P : (i : ι) → F i → Prop) : {is : List ι} → Row F is → Prop
  | [], _ => True
  | i :: _, (x, xs) => P i x ∧ Every P xs

theorem Every.imp_of_mem {P Q : (i : ι) → F i → Prop} {row : Row F is}
    (h : ∀ i ∈ is, ∀ x, P i x → Q i x) (hP : row.Every P) : row.Every Q := by
  induction is with
  | nil => trivial
  | cons i is ih =>
    obtain ⟨x, xs, rfl⟩ := row.exists_cons
    exact ⟨h i (List.mem_cons_self ..) x hP.1,
      ih (fun j hj => h j (List.mem_cons_of_mem _ hj)) hP.2⟩

theorem Every.imp {P Q : (i : ι) → F i → Prop} (h : ∀ i x, P i x → Q i x) {row : Row F is}
    (hP : row.Every P) : row.Every Q :=
  hP.imp_of_mem fun i _ => h i

theorem Every.and {P Q : (i : ι) → F i → Prop} {row : Row F is} (hP : row.Every P)
    (hQ : row.Every Q) : row.Every fun i x => P i x ∧ Q i x := by
  induction is with
  | nil => trivial
  | cons i is ih =>
    obtain ⟨x, xs, rfl⟩ := row.exists_cons
    exact ⟨⟨hP.1, hQ.1⟩, ih hP.2 hQ.2⟩

/-- What holds of every item holds of the item at each index. -/
theorem Every.exists_of_mem {P : (i : ι) → F i → Prop} {row : Row F is} (h : row.Every P) :
    ∀ i ∈ is, ∃ x, P i x := by
  induction is with
  | nil => exact fun i hi => absurd hi List.not_mem_nil
  | cons i is ih =>
    obtain ⟨x, xs, rfl⟩ := row.exists_cons
    exact List.forall_mem_cons.mpr ⟨⟨x, h.1⟩, ih h.2⟩

/-! ## Making rows -/

theorem every_ofFn {P : (i : ι) → F i → Prop} {f : (i : ι) → F i} (h : ∀ i ∈ is, P i (f i)) :
    (ofFn f is).Every P := by
  induction is with
  | nil => trivial
  | cons i is ih =>
    exact ⟨h i (List.mem_cons_self ..), ih fun j hj => h j (List.mem_cons_of_mem _ hj)⟩

theorem ofFn_eq {f : (i : ι) → F i} {row : Row F is} (h : row.Every fun i x => f i = x) :
    ofFn f is = row := by
  induction is with
  | nil => rfl
  | cons i is ih =>
    obtain ⟨x, xs, rfl⟩ := row.exists_cons
    exact cons_inj.mpr ⟨h.1, ih h.2⟩

theorem build_cons {ε : Type v} (f : (i : ι) → Except ε (F i)) (i : ι) (is : List ι) :
    build f (i :: is) = f i >>= fun x => build f is >>= fun xs => pure (cons x xs) := rfl

theorem build_eq_ok_iff {ε : Type v} {f : (i : ι) → Except ε (F i)} {row : Row F is} :
    build f is = .ok row ↔ row.Every fun i x => f i = .ok x := by
  induction is with
  | nil => exact ⟨fun _ => trivial, fun _ => rfl⟩
  | cons i is ih =>
    obtain ⟨x, xs, rfl⟩ := row.exists_cons
    rw [build_cons, Except.pair_eq_ok]
    constructor
    · rintro ⟨y, ys, hy, hys, h⟩
      obtain ⟨rfl, rfl⟩ := cons_inj.mp h
      exact ⟨hy, ih.mp hys⟩
    · rintro ⟨hx, hxs⟩
      exact ⟨x, xs, hx, ih.mpr hxs, rfl⟩

theorem build_congr {ε : Type v} {f g : (i : ι) → Except ε (F i)} (h : ∀ i ∈ is, f i = g i) :
    build f is = build g is := by
  induction is with
  | nil => rfl
  | cons i is ih =>
    obtain ⟨hi, his⟩ := List.forall_mem_cons.mp h
    rw [build_cons, build_cons, hi, ih his]

/-- A row that is not made stops at the first item that fails. -/
theorem build_eq_error_iff {ε : Type v} {f : (i : ι) → Except ε (F i)} {e : ε} :
    build f is = .error e ↔ First (fun i => ∃ x, f i = .ok x) (fun i => f i = .error e) is := by
  induction is with
  | nil => exact iff_of_false (fun h => by cases h) not_first_nil
  | cons i is ih => rw [build_cons, Except.pair_eq_error, first_cons, ih]

theorem exists_build_iff {ε : Type v} {f : (i : ι) → Except ε (F i)} :
    (∃ row, build f is = .ok row) ↔ ∀ i ∈ is, ∃ x, f i = .ok x := by
  induction is with
  | nil => exact ⟨fun _ i hi => absurd hi List.not_mem_nil, fun _ => ⟨⟨⟩, rfl⟩⟩
  | cons i is ih => rw [build_cons, Except.exists_pair_iff, ih, List.forall_mem_cons]

theorem traverse_cons {ε : Type v} (f : (i : ι) → F i → Except ε (G i)) (x : F i) (xs : Row F is) :
    traverse f (i :: is) (cons x xs)
      = f i x >>= fun y => traverse f is xs >>= fun ys => pure (cons y ys) := rfl

theorem every_of_traverse {ε : Type v} {P : (i : ι) → G i → Prop}
    {f : (i : ι) → F i → Except ε (G i)} (h : ∀ i ∈ is, ∀ x y, f i x = .ok y → P i y)
    {xs : Row F is} {ys : Row G is} (hys : traverse f is xs = .ok ys) : ys.Every P := by
  induction is with
  | nil => trivial
  | cons i is ih =>
    obtain ⟨x, xs, rfl⟩ := xs.exists_cons
    rw [traverse_cons, Except.pair_eq_ok] at hys
    obtain ⟨y, rest, hy, hrest, rfl⟩ := hys
    exact ⟨h i (List.mem_cons_self ..) x y hy,
      ih (fun j hj => h j (List.mem_cons_of_mem _ hj)) hrest⟩

theorem exists_traverse_iff {ε : Type v} {f : (i : ι) → F i → Except ε (G i)} {row : Row F is} :
    (∃ ys, traverse f is row = .ok ys) ↔ row.Every fun i x => ∃ y, f i x = .ok y := by
  induction is with
  | nil => exact ⟨fun _ => trivial, fun _ => ⟨⟨⟩, rfl⟩⟩
  | cons i is ih =>
    obtain ⟨x, xs, rfl⟩ := row.exists_cons
    rw [traverse_cons, Except.exists_pair_iff, ih]
    exact Iff.rfl

/-- A row whose items are made from those of another one is made in the same way from nothing, if
every item is. -/
theorem build_eq_traverse {ε : Type v} {f : (i : ι) → F i → Except ε (G i)}
    {g : (i : ι) → Except ε (G i)} {row : Row F is} (h : row.Every fun i x => g i = f i x) :
    build g is = traverse f is row := by
  induction is with
  | nil => rfl
  | cons i is ih =>
    obtain ⟨x, xs, rfl⟩ := row.exists_cons
    rw [build_cons, traverse_cons, h.1, ih h.2]

/-! ## Changing rows -/

/-- The row with every item changed. -/
def map (f : (i : ι) → F i → G i) : {is : List ι} → Row F is → Row G is
  | [], _ => ⟨⟩
  | i :: _, (x, xs) => (f i x, map f xs)

theorem every_map {P : (i : ι) → G i → Prop} {f : (i : ι) → F i → G i} {row : Row F is} :
    (row.map f).Every P ↔ row.Every fun i x => P i (f i x) := by
  induction is with
  | nil => exact Iff.rfl
  | cons i is ih =>
    obtain ⟨x, xs, rfl⟩ := row.exists_cons
    exact and_congr_right fun _ => ih

/-- A change leaves a row as it is exactly if it does so to every item. -/
theorem map_eq_iff {f : (i : ι) → F i → F i} {row : Row F is} :
    row.map f = row ↔ row.Every fun i x => f i x = x := by
  induction is with
  | nil => exact ⟨fun _ => trivial, fun _ => rfl⟩
  | cons i is ih =>
    obtain ⟨x, xs, rfl⟩ := row.exists_cons
    exact cons_inj.trans (and_congr_right fun _ => ih)

/-! ## Rows that differ in one item -/

/-- Whether two rows have equal items at the indices with a property. -/
def AgreeOn (P : ι → Prop) : {is : List ι} → Row F is → Row F is → Prop
  | [], _, _ => True
  | i :: _, (x, xs), (y, ys) => (P i → x = y) ∧ AgreeOn P xs ys

theorem AgreeOn.refl (P : ι → Prop) (row : Row F is) : row.AgreeOn P row := by
  induction is with
  | nil => trivial
  | cons i is ih =>
    obtain ⟨x, xs, rfl⟩ := row.exists_cons
    exact ⟨fun _ => rfl, ih xs⟩

/-- From a row that was made, the others are known that are made alike but for one item. -/
theorem build_update {ε : Type v} {β : Type*} {name : ι → β} {f : (i : ι) → Except ε (F i)}
    {row : Row F is} (hrow : build f is = .ok row) (hnames : (is.map name).Nodup) {j : ι}
    (hj : j ∈ is) : ∃ put : F j → Row F is,
      (∀ x, row.AgreeOn (fun i => name i ≠ name j) (put x)) ∧
      ∀ g : (i : ι) → Except ε (F i), (∀ i ∈ is, name i ≠ name j → g i = f i) →
        build g is = (g j).map put := by
  induction is with
  | nil => cases hj
  | cons i is ih =>
    obtain ⟨x, xs, rfl⟩ := row.exists_cons
    obtain ⟨hx, hxs⟩ := build_eq_ok_iff.mp hrow
    obtain ⟨hi, hnames⟩ := List.nodup_cons.mp hnames
    rcases List.mem_cons.mp hj with rfl | hj
    · -- The item stands first, and the others keep their names apart from it.
      refine ⟨fun y => cons y xs, fun y => ⟨fun h => absurd rfl h, AgreeOn.refl _ xs⟩, ?_⟩
      intro g hg
      have hrest : build g is = .ok xs := by
        rw [← build_eq_ok_iff.mpr hxs]
        refine build_congr fun k hk => hg k (List.mem_cons_of_mem _ hk) fun heq => hi ?_
        exact List.mem_map.mpr ⟨k, hk, heq⟩
      rw [build_cons, hrest]
      cases g j <;> rfl
    · have hne : name i ≠ name j := fun heq => hi (List.mem_map.mpr ⟨j, hj, heq.symm⟩)
      obtain ⟨put, hagree, hput⟩ := ih (build_eq_ok_iff.mpr hxs) hnames hj
      refine ⟨fun y => cons x (put y), fun y => ⟨fun _ => rfl, hagree y⟩, ?_⟩
      intro g hg
      have hrest := hput g fun k hk => hg k (List.mem_cons_of_mem _ hk)
      rw [build_cons, hg i List.mem_cons_self hne, hx, hrest]
      cases g j <;> rfl

/-! ## Lists of items -/

theorem toList_cons {α : Type v} (g : (i : ι) → F i → α) (x : F i) (xs : Row F is) :
    toList g (i :: is) (cons x xs) = g i x :: toList g is xs := rfl

/-- A row that is not made from another one stops at the first item that is refused. -/
theorem traverse_eq_error_iff {ε : Type v} {f : (i : ι) → F i → Except ε (G i)}
    {refusal? : (i : ι) → F i → Option ε} (hok : ∀ i x, (∃ y, f i x = .ok y) ↔ refusal? i x = none)
    (herror : ∀ i x e, f i x = .error e ↔ refusal? i x = some e) {row : Row F is} {e : ε} :
    traverse f is row = .error e ↔ First (· = none) (· = some e) (toList refusal? is row) := by
  induction is with
  | nil => exact iff_of_false (fun h => by cases h) not_first_nil
  | cons i is ih =>
    obtain ⟨x, xs, rfl⟩ := row.exists_cons
    rw [traverse_cons, Except.pair_eq_error, toList_cons, first_cons, ih, hok, herror]

/-- Every item is in any list that holds the list of items. -/
theorem every_mem_of_subset {α : Type v} (g : (i : ι) → F i → α) {row : Row F is} {ys : List α}
    (h : toList g is row ⊆ ys) : row.Every fun i x => g i x ∈ ys := by
  induction is with
  | nil => trivial
  | cons i is ih =>
    obtain ⟨x, xs, rfl⟩ := row.exists_cons
    rw [toList_cons, List.cons_subset] at h
    exact ⟨h.1, ih h.2⟩

theorem every_mem_toList {α : Type v} (g : (i : ι) → F i → α) (row : Row F is) :
    row.Every fun i x => g i x ∈ toList g is row :=
  every_mem_of_subset g fun _ h => h

theorem Every.mem_toList {α : Type v} {g : (i : ι) → F i → α} {P : α → Prop} {row : Row F is}
    (h : row.Every fun i x => P (g i x)) {y : α} (hy : y ∈ toList g is row) : P y := by
  induction is with
  | nil => cases hy
  | cons i is ih =>
    obtain ⟨x, xs, rfl⟩ := row.exists_cons
    rw [toList_cons] at hy
    rcases List.mem_cons.mp hy with rfl | hy
    · exact h.1
    · exact ih h.2 hy

theorem map_toList {α β : Type v} {g : (i : ι) → F i → α} {f : α → β} {name : ι → β}
    (hname : ∀ i x, f (g i x) = name i) (row : Row F is) :
    (toList g is row).map f = is.map name := by
  induction is with
  | nil => rfl
  | cons i is ih =>
    obtain ⟨x, xs, rfl⟩ := row.exists_cons
    rw [toList_cons, List.map_cons, List.map_cons, ih, hname]

/-! ## Items by name -/

variable {F : ι → Type} {α : Type} {name : ι → String} {write : (i : ι) → F i → α}

/-- Under names that do not repeat, every item is found. -/
theorem every_get? (hnames : (is.map name).Nodup) (write : (i : ι) → F i → α) (row : Row F is) :
    row.Every fun i x =>
      (Dict.ofList (toList (fun i x => (name i, write i x)) is row)).get? (name i)
        = some (write i x) := by
  have hkeys := map_toList (g := fun i x => (name i, write i x)) (f := Prod.fst)
    (fun _ _ => rfl) row
  rw [← hkeys] at hnames
  exact (every_mem_toList (fun i x => (name i, write i x)) row).imp fun i x hmem =>
    Dict.get?_ofList_of_mem hnames hmem

/-- Under names that do not repeat, there are no keys but the names. -/
theorem mem_keys_iff (hnames : (is.map name).Nodup) (write : (i : ι) → F i → α) (row : Row F is)
    (k : String) :
    k ∈ (Dict.ofList (toList (fun i x => (name i, write i x)) is row)).keys ↔ k ∈ is.map name := by
  have hkeys := map_toList (g := fun i x => (name i, write i x)) (f := Prod.fst)
    (fun _ _ => rfl) row
  rw [← hkeys] at hnames ⊢
  exact Dict.mem_keys_ofList hnames

/-- What holds of all items holds of all that is in their dictionary. -/
theorem Every.forall_entries {P : α → Prop} {row : Row F is}
    (h : row.Every fun i x => P (write i x)) :
    ∀ e ∈ (Dict.ofList (toList (fun i x => (name i, write i x)) is row)).entries, P e.2 :=
  Dict.forall_entries_ofList fun _ he => Every.mem_toList (P := fun e => P e.2) h he

/-! ## Items that may be missing -/

/-- The entries of the items that are there. -/
def present (name : ι → String) (write : (i : ι) → F i → α) (row : Row (fun i => Option (F i)) is) :
    List (String × α) :=
  (toList (fun i x => x.map fun a => (name i, write i a)) is row).reduceOption

theorem present_cons (name : ι → String) (write : (i : ι) → F i → α) (x : Option (F i))
    (xs : Row (fun i => Option (F i)) is) :
    present name write (cons x xs : Row (fun i => Option (F i)) (i :: is))
      = (x.map fun a => (name i, write i a)).toList ++ present name write xs := by
  unfold present
  rw [toList_cons]
  cases x <;> rfl

theorem keys_present_sublist (row : Row (fun i => Option (F i)) is) :
    ((present name write row).map Prod.fst).Sublist (is.map name) := by
  induction is with
  | nil => exact List.Sublist.refl _
  | cons i is ih =>
    obtain ⟨x, xs, rfl⟩ := row.exists_cons
    rw [present_cons, List.map_append, List.map_cons]
    cases x with
    | none => exact (ih xs).cons _
    | some a => exact (ih xs).cons_cons _

theorem every_mem_present_iff (hnames : (is.map name).Nodup) (write : (i : ι) → F i → α)
    (row : Row (fun i => Option (F i)) is) :
    row.Every fun i x => ∀ b, (name i, b) ∈ present name write row ↔ x.map (write i) = some b := by
  induction is with
  | nil => trivial
  | cons i is ih =>
    obtain ⟨x, xs, rfl⟩ := row.exists_cons
    obtain ⟨hi, hnames⟩ := List.nodup_cons.mp hnames
    rw [present_cons]
    constructor
    · intro b
      have hnew : (name i, b) ∉ present name write xs :=
        fun hmem => hi ((keys_present_sublist xs).subset (List.mem_map_of_mem hmem))
      cases x with
      | none => simp [hnew]
      | some a => simp [hnew, eq_comm]
    · refine (ih hnames xs).imp_of_mem fun j hj y h b => ?_
      have hne : name j ≠ name i := fun heq => hi (List.mem_map.mpr ⟨j, hj, heq⟩)
      rw [← h b]
      cases x <;> simp [hne]

/-- Under names that do not repeat, every item that is there is found, and no other. -/
theorem every_get?_present (hnames : (is.map name).Nodup) (write : (i : ι) → F i → α)
    (row : Row (fun i => Option (F i)) is) :
    row.Every fun i x =>
      (Dict.ofList (present name write row)).get? (name i) = x.map (write i) := by
  have hkeys : ((present name write row).map Prod.fst).Nodup :=
    hnames.sublist (keys_present_sublist row)
  refine (every_mem_present_iff hnames write row).imp fun i x h => Option.ext fun b => ?_
  exact (Dict.get?_ofList_eq_some_iff hkeys).trans (h b)

end Row

end AudioScore
