import AudioScore.Dict
import Mathlib.Data.List.Forall2

/-!
# Entries of dictionaries

* `Dict.entries_insertAll`: increasing entries are put at the end one after another.
* `Dict.mem_entries_insertAll`: under new keys, nothing is lost.
* `Dict.get?_insertAll_of_last`: what is put in last under a key is found there.
* `Dict.get?_ofList_of_mem`: entries with distinct keys are found under them.
* `Dict.get?_erase`: taking out the entry of one key.
-/

namespace AudioScore

theorem Increasing.nodup {keys : List String} (h : Increasing keys) : keys.Nodup := by
  refine h.imp fun hlt => ?_
  rintro rfl
  exact String.lt_irrefl _ hlt

namespace Dict

variable {α : Type}

/-! ## Appending in order -/

theorem insertEntry_of_lt {key : String} {value : α} {es : List (String × α)}
    (h : ∀ k ∈ es.map Prod.fst, k < key) : insertEntry key value es = es ++ [(key, value)] := by
  induction es with
  | nil => rfl
  | cons e es ih =>
    obtain ⟨k, v⟩ := e
    have hk : k < key := h k (by simp)
    have hne : key ≠ k := by
      rintro rfl
      exact String.lt_irrefl _ hk
    have hnlt : ¬ key < k := fun hlt => String.lt_irrefl _ (String.lt_trans hk hlt)
    rw [insertEntry, if_neg hnlt, if_neg hne, ih fun k' hk' => h k' (by simp [hk'])]
    rfl

/-- The entries after those of a list are put into a dictionary. -/
def insertAll (d : Dict α) (es : List (String × α)) : Dict α :=
  es.foldl (fun d e => d.insert e.1 e.2) d

theorem insertAll_cons (d : Dict α) (key : String) (a : α) (es : List (String × α)) :
    d.insertAll ((key, a) :: es) = (d.insert key a).insertAll es := rfl

theorem insertAll_append (d : Dict α) (es fs : List (String × α)) :
    d.insertAll (es ++ fs) = (d.insertAll es).insertAll fs := List.foldl_append

theorem entries_insertAll {d : Dict α} {es : List (String × α)}
    (h : Increasing ((d.entries ++ es).map Prod.fst)) :
    (d.insertAll es).entries = d.entries ++ es := by
  induction es generalizing d with
  | nil => simp [insertAll]
  | cons e es ih =>
    obtain ⟨key, a⟩ := e
    have hlt : ∀ k ∈ d.entries.map Prod.fst, k < key := by
      intro k hk
      rw [List.map_append] at h
      exact (List.pairwise_append.mp h).2.2 k hk key (by simp)
    have hinsert : (d.insert key a).entries = d.entries ++ [(key, a)] := insertEntry_of_lt hlt
    rw [insertAll_cons, ih (by rwa [hinsert, List.append_assoc]), hinsert, List.append_assoc]
    rfl

/-- Increasing entries are the entries of their dictionary. -/
theorem entries_ofList {es : List (String × α)} (h : Increasing (es.map Prod.fst)) :
    (ofList es).entries = es :=
  entries_insertAll (d := empty) h

theorem ofList_entries (d : Dict α) : ofList d.entries = d := by
  have h := entries_ofList d.increasing
  cases hd : ofList d.entries with
  | mk es he =>
    rw [hd] at h
    cases h
    rfl

theorem mem_insertEntry {key : String} {value : α} {es : List (String × α)}
    (h : key ∉ es.map Prod.fst) {e : String × α} :
    e ∈ insertEntry key value es ↔ e = (key, value) ∨ e ∈ es := by
  induction es with
  | nil => simp [insertEntry]
  | cons e' es ih =>
    obtain ⟨k, v⟩ := e'
    simp only [List.map_cons, List.mem_cons, not_or] at h
    rw [insertEntry]
    split
    · simp
    · rw [if_neg h.1, List.mem_cons, List.mem_cons, ih h.2]
      exact or_left_comm

/-- Entries with distinct new keys are all there after they are put in. -/
theorem mem_entries_insertAll {d : Dict α} {es : List (String × α)}
    (h : ((d.entries ++ es).map Prod.fst).Nodup) {e : String × α} :
    e ∈ (d.insertAll es).entries ↔ e ∈ d.entries ∨ e ∈ es := by
  induction es generalizing d with
  | nil => simp [insertAll]
  | cons e' es ih =>
    obtain ⟨key, a⟩ := e'
    have hkeys := h
    rw [List.map_append, List.nodup_append] at hkeys
    obtain ⟨hd, hes, hne⟩ := hkeys
    rw [List.map_cons, List.nodup_cons] at hes
    have hnew : key ∉ d.entries.map Prod.fst := fun hmem => hne key hmem key (by simp) rfl
    have hstep : ((insertEntry key a d.entries ++ es).map Prod.fst).Nodup := by
      rw [List.map_append, List.nodup_append]
      refine ⟨(increasing_insertEntry key a d.increasing).nodup, hes.2, ?_⟩
      rintro k hk l hl rfl
      rcases mem_keys_insertEntry.mp hk with rfl | hk
      · exact hes.1 hl
      · exact hne k hk k (by simp [hl]) rfl
    have hentries : (d.insert key a).entries = insertEntry key a d.entries := rfl
    rw [insertAll_cons, ih hstep, hentries, mem_insertEntry hnew, List.mem_cons, or_assoc,
      or_left_comm]

theorem mem_entries_ofList {es : List (String × α)} (h : (es.map Prod.fst).Nodup)
    {e : String × α} : e ∈ (ofList es).entries ↔ e ∈ es :=
  (mem_entries_insertAll (d := empty) h).trans (or_iff_right List.not_mem_nil)

theorem mem_keys_ofList {es : List (String × α)} (h : (es.map Prod.fst).Nodup) {k : String} :
    k ∈ (ofList es).keys ↔ k ∈ es.map Prod.fst := by
  unfold keys
  simp only [List.mem_map, mem_entries_ofList h]

theorem mem_of_mem_insertEntry {key : String} {value : α} {es : List (String × α)}
    {e : String × α} (h : e ∈ insertEntry key value es) : e = (key, value) ∨ e ∈ es := by
  induction es with
  | nil => exact .inl (List.mem_singleton.mp h)
  | cons e' es ih =>
    obtain ⟨k, v⟩ := e'
    rw [insertEntry] at h
    split at h
    · exact List.mem_cons.mp h
    · split at h
      · exact (List.mem_cons.mp h).imp_right (List.mem_cons_of_mem _)
      · rcases List.mem_cons.mp h with rfl | h
        · exact .inr (List.mem_cons_self ..)
        · exact (ih h).imp_right (List.mem_cons_of_mem _)

theorem forall_entries_insert {P : α → Prop} {d : Dict α} (hd : ∀ e ∈ d.entries, P e.2)
    (key : String) {value : α} (hvalue : P value) : ∀ e ∈ (d.insert key value).entries, P e.2 := by
  intro e he
  rcases mem_of_mem_insertEntry he with rfl | he
  · exact hvalue
  · exact hd e he

/-- Nothing is in a dictionary but what was put in. -/
theorem forall_entries_ofList {P : α → Prop} {es : List (String × α)} (h : ∀ e ∈ es, P e.2) :
    ∀ e ∈ (ofList es).entries, P e.2 := by
  have hall : ∀ d : Dict α, (∀ e ∈ d.entries, P e.2) → ∀ e ∈ (d.insertAll es).entries, P e.2 := by
    induction es with
    | nil => exact fun d hd => hd
    | cons e es ih =>
      rw [List.forall_mem_cons] at h
      exact fun d hd => ih h.2 _ (forall_entries_insert hd e.1 h.1)
  exact hall empty fun e he => absurd he List.not_mem_nil

/-- Under a key that nothing is put under, nothing changes. -/
theorem get?_insertAll_of_not_mem {es : List (String × α)} {key : String}
    (h : key ∉ es.map Prod.fst) (d : Dict α) : (d.insertAll es).get? key = d.get? key := by
  induction es generalizing d with
  | nil => rfl
  | cons e es ih =>
    rw [List.map_cons, List.mem_cons, not_or] at h
    rw [insertAll_cons, ih h.2, get?_insert, if_neg h.1]

/-- What is put in last under a key is found under it. -/
theorem get?_insertAll_of_last {es fs : List (String × α)} {key : String} {a : α}
    (h : key ∉ fs.map Prod.fst) (d : Dict α) :
    (d.insertAll (es ++ (key, a) :: fs)).get? key = some a := by
  rw [insertAll_append, insertAll_cons, get?_insertAll_of_not_mem h, get?_insert, if_pos rfl]

/-! ## Taking entries out -/

/-- The dictionary without the entry of a key. -/
def erase (d : Dict α) (key : String) : Dict α where
  entries := d.entries.filter fun e => e.1 ≠ key
  increasing := d.increasing.sublist (List.filter_sublist.map Prod.fst)

theorem get?_erase (d : Dict α) (key k : String) :
    (d.erase key).get? k = if k = key then none else d.get? k := by
  have h : ∀ es : List (String × α), (es.filter fun e => e.1 ≠ key).lookup k
      = if k = key then none else es.lookup k := by
    intro es
    induction es with
    | nil => simp
    | cons e es ih =>
      obtain ⟨l, v⟩ := e
      by_cases hl : l = key
      · rw [List.filter_cons_of_neg (by simp [hl]), ih, lookup_cons_ite, hl]
        split <;> rfl
      · rw [List.filter_cons_of_pos (by simp [hl]), lookup_cons_ite, lookup_cons_ite, ih]
        by_cases hk : k = l
        · rw [if_pos hk, if_pos hk, if_neg (hk ▸ hl)]
        · rw [if_neg hk, if_neg hk]
  exact h d.entries

/-! ## Changed values -/

theorem get?_map {β : Type} (f : α → β) (d : Dict α) (k : String) :
    (d.map f).get? k = (d.get? k).map f := by
  have h : ∀ es : List (String × α), (es.map fun e => (e.1, f e.2)).lookup k = (es.lookup k).map f := by
    intro es
    induction es with
    | nil => rfl
    | cons e es ih =>
      rw [List.map_cons, lookup_cons_ite, lookup_cons_ite, ih]
      split <;> rfl
  exact h d.entries

theorem map_insertAll {β : Type} (f : α → β) (d : Dict α) (es : List (String × α)) :
    (d.insertAll es).map f = (d.map f).insertAll (es.map fun e => (e.1, f e.2)) := by
  induction es generalizing d with
  | nil => rfl
  | cons e es ih =>
    have hinsert : (d.insert e.1 e.2).map f = (d.map f).insert e.1 (f e.2) := by
      refine ext_get? fun k => ?_
      rw [get?_map, get?_insert, get?_insert, get?_map]
      split <;> rfl
    rw [List.map_cons, insertAll_cons, insertAll_cons, ← hinsert]
    exact ih (d.insert e.1 e.2)

theorem map_ofList {β : Type} (f : α → β) (es : List (String × α)) :
    (ofList es).map f = ofList (es.map fun e => (e.1, f e.2)) :=
  map_insertAll f empty es

/-! ## Related entries -/

/-- Entries whose keys are equal, with values in a relation. -/
def Related {β : Type} (R : α → β → Prop) (es : List (String × α)) (fs : List (String × β)) : Prop :=
  List.Forall₂ (fun e f => e.1 = f.1 ∧ R e.2 f.2) es fs

theorem Related.keys_eq {β : Type} {R : α → β → Prop} {es : List (String × α)}
    {fs : List (String × β)} (h : Related R es fs) : es.map Prod.fst = fs.map Prod.fst := by
  induction h with
  | nil => rfl
  | cons hef hrest ih => rw [List.map_cons, List.map_cons, hef.1, ih]

theorem Related.insertEntry {β : Type} {R : α → β → Prop} {es : List (String × α)}
    {fs : List (String × β)} (h : Related R es fs) (key : String) {a : α} {b : β} (hab : R a b) :
    Related R (insertEntry key a es) (insertEntry key b fs) := by
  induction h with
  | nil => exact .cons ⟨rfl, hab⟩ .nil
  | @cons e f es fs hef hrest ih =>
    obtain ⟨k, x⟩ := e
    obtain ⟨l, y⟩ := f
    obtain ⟨rfl, hxy⟩ := hef
    rw [Dict.insertEntry, Dict.insertEntry]
    split
    · exact .cons ⟨rfl, hab⟩ (.cons ⟨rfl, hxy⟩ hrest)
    · split
      · exact .cons ⟨rfl, hab⟩ hrest
      · exact .cons ⟨rfl, hxy⟩ ih

theorem mem_entries_of_get? {d : Dict α} {key : String} {a : α} (h : d.get? key = some a) :
    (key, a) ∈ d.entries := by
  obtain ⟨pre, post, heq, -⟩ := List.lookup_eq_some_iff.mp h
  rw [heq]
  simp

/-- Entries with distinct keys are found under them. -/
theorem get?_ofList_of_mem {es : List (String × α)} (h : (es.map Prod.fst).Nodup) {key : String}
    {a : α} (hmem : (key, a) ∈ es) : (ofList es).get? key = some a := by
  have hentry : (key, a) ∈ (ofList es).entries := (mem_entries_ofList h).mpr hmem
  obtain ⟨pre, post, hsplit⟩ := List.append_of_mem hentry
  have hkeys := (ofList es).increasing.nodup
  rw [hsplit, List.map_append, List.nodup_append] at hkeys
  refine List.lookup_eq_some_iff.mpr ⟨pre, post, hsplit, fun p hp => ?_⟩
  rw [bne_iff_ne]
  exact (hkeys.2.2 p.1 (List.mem_map.mpr ⟨p, hp, rfl⟩) key (by simp)).symm

theorem get?_ofList_eq_some_iff {es : List (String × α)} (h : (es.map Prod.fst).Nodup)
    {key : String} {a : α} : (ofList es).get? key = some a ↔ (key, a) ∈ es :=
  ⟨fun hget => (mem_entries_ofList h).mp (mem_entries_of_get? hget), get?_ofList_of_mem h⟩

end Dict

end AudioScore
