import AudioScore.Proofs.Codec.Agreement
import AudioScore.Proofs.Codec.Form

/-!
# Codecs and grammars

A codec meets a form if it reads exactly the values that fit the form, and writes what it has read
from one of them as its normal form.

* `Codec.Meets`, `Field.Meets`: the property of codecs, and of fields of records.
* `Codec.Meets.list`, `Codec.Meets.dict`, `Codec.Meets.record`: collections and records.
-/

namespace AudioScore

open AudioScore.Tree

/-- A codec reads exactly the values of a form, and writes them back in their normal form. -/
structure Codec.Meets {α : Type} (c : Codec α) (form : Form) : Prop where
  reads : ∀ v : Value, (∃ a, c.decode .value v.json.toTree = .ok a) ↔ form.fits v.json
  writes : ∀ {v : Value} {a : α}, c.decode .value v.json.toTree = .ok a →
    (c.encode a).toValue.json = form.canon v.json

namespace Value

/-- A value is a leaf, an array of values, or an object of values. -/
theorem leaf_or_collection (v : Value) :
    v.json.toTree.isLeaf ∨ (∃ vs, v = .array vs) ∨ ∃ d, v = .object d := by
  have h := Json.value?_value v.json
  rw [v.toValue_json] at h
  obtain ⟨-, hl⟩ | ⟨-, -, vs, -, -, -, hv⟩ | ⟨-, -, d, -, -, -, hv⟩ := value?_cases h
  · exact .inl hl
  · exact .inr (.inl ⟨vs, hv⟩)
  · exact .inr (.inr ⟨d, hv⟩)

end Value

namespace Codec.Meets

variable {α β : Type}

/-! ## Simple data -/

theorem string : Codec.string.Meets .string where
  reads v := by
    cases v.json with
    | string s => exact ⟨fun _ => rfl, fun _ => ⟨s, rfl⟩⟩
    | _ => exact iff_of_false Except.not_exists_ok Bool.false_ne_true
  writes {v a} h := by
    cases hj : v.json with
    | string s =>
      rw [hj] at h
      cases h
      rfl
    | _ =>
      rw [hj] at h
      cases h

theorem wireEnum [WireEnum α] :
    (Codec.wireEnum : Codec α).Meets (.oneOf ((WireEnum.values : List α).map WireEnum.wire)) where
  reads v := by
    cases v.json with
    | string s =>
      have hfits : (Form.oneOf ((WireEnum.values : List α).map WireEnum.wire)).fits (.string s)
          ↔ ∃ a : α, WireEnum.wire a = s := by
        simp only [Form.oneOf, List.contains_iff_mem, List.mem_map, WireEnum.mem_values, true_and]
      rw [hfits, wireEnum_decode]
      cases h : (WireEnum.ofWire? s : Except UnrecognizedName α) with
      | ok a => exact ⟨fun _ => ⟨a, (WireEnum.ofWire?_eq_ok_iff.mp h).symm⟩, fun _ => ⟨a, rfl⟩⟩
      | error e =>
        constructor
        · rintro ⟨a, ha⟩
          cases ha
        · rintro ⟨a, rfl⟩
          rw [WireEnum.ofWire?_wire] at h
          cases h
    | _ => exact iff_of_false Except.not_exists_ok Bool.false_ne_true
  writes {v a} h := by
    cases hj : v.json with
    | string s =>
      rw [hj, wireEnum_decode] at h
      cases hs : (WireEnum.ofWire? s : Except UnrecognizedName α) with
      | ok b =>
        rw [hs] at h
        cases h
        rw [WireEnum.ofWire?_eq_ok_iff.mp hs]
        rfl
      | error e =>
        rw [hs] at h
        cases h
    | _ =>
      rw [hj] at h
      cases h

theorem value_decode_value (v : Value) : Codec.value.decode .value v.json.toTree = .ok v := by
  have h := Json.value?_value v.json
  rw [v.toValue_json] at h
  rw [value_decode, h]

theorem value : Codec.value.Meets .any where
  reads v := ⟨fun _ => rfl, fun _ => ⟨v, value_decode_value v⟩⟩
  writes {v a} h := by
    rw [value_decode_value] at h
    cases h
    exact congrArg Value.json v.toValue_json

/-! ## Collections -/

theorem list_value_eq_ok_iff {c : Codec α} {vs : List Value} {xs : List α} :
    c.list.decode .value (Value.array vs).json.toTree = .ok xs
      ↔ List.Forall₂ (fun v x => c.decode .value v.json.toTree = .ok x) vs xs := by
  rw [Value.toTree_array, Agrees.list_array_eq_ok_iff rfl, List.forall₂_map_left_iff]

theorem json_toValue_list (c : Codec α) (xs : List α) :
    (c.list.encode xs).toValue.json = .array (xs.map fun x => (c.encode x).toValue.json) := by
  have hencode : (c.list.encode xs).toValue = Value.array ((xs.map c.encode).map Json.toValue) :=
    Json.toValue_array _
  rw [hencode]
  change Json.array (((xs.map _).map _).map _) = _
  rw [List.map_map, List.map_map]
  rfl

theorem fits_array (form : Form) (vs : List Value) :
    form.list.fits (Value.array vs).json ↔ ∀ v ∈ vs, form.fits v.json := by
  change (vs.map Value.json).all form.fits = true ↔ _
  rw [List.all_eq_true, List.forall_mem_map]

theorem list {c : Codec α} {form : Form} (hc : c.Meets form) : c.list.Meets form.list where
  reads v := by
    obtain hl | ⟨vs, rfl⟩ | ⟨d, rfl⟩ := v.leaf_or_collection
    · rw [Agrees.list_leaf c .value hl]
      cases hj : v.json with
      | array xs =>
        rw [hj] at hl
        cases hl
      | _ => exact iff_of_false Except.not_exists_ok Bool.false_ne_true
    · have hdecode : c.list.decode .value (Value.array vs).json.toTree
          = (vs.map fun v => v.json.toTree).mapM (c.decode .value) := by
        rw [Value.toTree_array]
        rfl
      rw [fits_array, hdecode, Except.exists_mapM_iff, List.forall_mem_map]
      exact forall₂_congr fun v _ => hc.reads v
    · exact iff_of_false Except.not_exists_ok Bool.false_ne_true
  writes {v xs} h := by
    obtain hl | ⟨vs, rfl⟩ | ⟨d, rfl⟩ := v.leaf_or_collection
    · rw [Agrees.list_leaf c .value hl] at h
      cases h
    · have hitems : (xs.map fun x => (c.encode x).toValue.json)
          = (vs.map Value.json).map form.canon := by
        have h := list_value_eq_ok_iff.mp h
        clear * - h hc
        induction h with
        | nil => rfl
        | cons hx hxs ih => rw [List.map_cons, List.map_cons, List.map_cons, ih, hc.writes hx]
      rw [json_toValue_list]
      exact congrArg Json.array hitems
    · cases h

theorem dict_value_eq_ok_iff {c : Codec α} {d : Dict Value} {e : Dict α} :
    c.dict.decode .value (Value.object d).json.toTree = .ok e
      ↔ Dict.Related (fun v a => c.decode .value v.json.toTree = .ok a) d.entries e.entries := by
  rw [Value.toTree_object, Agrees.dict_object rfl, Value.members]
  constructor
  · intro h
    obtain ⟨fs, hfs, rfl⟩ := Agrees.related_of_entries h
    have hkeys : Increasing (fs.map Prod.fst) := hfs.keys_eq ▸ d.increasing
    change Dict.Related _ _ (Dict.ofList fs).entries
    rwa [Dict.entries_ofList hkeys]
  · intro h
    rw [Agrees.entries_of_related h]
    exact congrArg Except.ok e.ofList_entries

theorem json_toValue_dict (c : Codec α) (d : Dict α) :
    (c.dict.encode d).toValue.json
      = .object (d.entries.map fun e => (e.1, (c.encode e.2).toValue.json)) := by
  have hkeys : Increasing (((d.map c.encode).entries.map fun m => (m.1, m.2.toValue)).map
      Prod.fst) := by
    rw [List.map_map]
    exact (d.map c.encode).increasing
  have hencode : (c.dict.encode d).toValue
      = Value.object (Dict.ofList ((d.map c.encode).entries.map fun m => (m.1, m.2.toValue))) :=
    Json.toValue_object _
  rw [hencode]
  change Json.object ((Dict.ofList _).entries.map _) = _
  rw [Dict.entries_ofList hkeys]
  change Json.object (((d.entries.map _).map _).map _) = _
  rw [List.map_map, List.map_map]
  rfl

theorem fits_object (form : Form) (d : Dict Value) :
    form.dict.fits (Value.object d).json ↔ ∀ e ∈ d.entries, form.fits e.2.json := by
  change ((d.map Value.json).entries.all fun m => form.fits m.2) = true ↔ _
  rw [List.all_eq_true]
  exact List.forall_mem_map

theorem dict {c : Codec α} {form : Form} (hc : c.Meets form) : c.dict.Meets form.dict where
  reads v := by
    obtain hl | ⟨vs, rfl⟩ | ⟨d, rfl⟩ := v.leaf_or_collection
    · rw [Agrees.dict_leaf c .value hl]
      cases hj : v.json with
      | object ms =>
        rw [hj] at hl
        cases hl
      | _ => exact iff_of_false Except.not_exists_ok Bool.false_ne_true
    · exact iff_of_false Except.not_exists_ok Bool.false_ne_true
    · rw [fits_object, Value.toTree_object, Agrees.dict_object rfl, Agrees.exists_entries_iff,
        Value.members, List.forall_mem_map]
      refine forall₂_congr fun e _ => ?_
      rw [← hc.reads]
      constructor
      · intro h
        obtain ⟨key, a, -, ha⟩ := h
        exact ⟨a, ha⟩
      · intro h
        obtain ⟨a, ha⟩ := h
        exact ⟨e.1, a, rfl, ha⟩
  writes {v e} h := by
    obtain hl | ⟨vs, rfl⟩ | ⟨d, rfl⟩ := v.leaf_or_collection
    · rw [Agrees.dict_leaf c .value hl] at h
      cases h
    · cases h
    · have hentries : (e.entries.map fun f => (f.1, (c.encode f.2).toValue.json))
          = (d.entries.map fun f => (f.1, f.2.json)).map fun m => (m.1, form.canon m.2) := by
        have h := dict_value_eq_ok_iff.mp h
        clear * - h hc
        generalize d.entries = es, e.entries = fs at h ⊢
        induction h with
        | nil => rfl
        | @cons f g fs gs hfg hrest ih =>
          rw [List.map_cons, List.map_cons, List.map_cons, ih, hfg.1, hc.writes hfg.2]
      rw [json_toValue_dict]
      exact congrArg Json.object hentries

end Codec.Meets

/-! ## Entries -/

namespace Form.Entry

theorem fits_none {e : Entry} : e.fits none ↔ e.presence ≠ .required := by
  simp [fits]

theorem fits_some {e : Entry} {j : Json} :
    e.fits (some j) ↔ (e.presence = .nullable ∧ j = .null) ∨ e.form.fits j := by
  cases j <;> simp [fits]

theorem canon_of_redundant {e : Entry} {j : Json} (h : e.redundant j) : e.canon (some j) = none :=
  if_pos h

theorem canon_of_not_redundant {e : Entry} {j : Json} (h : ¬ e.redundant j) :
    e.canon (some j) = some (e.form.canon j) :=
  if_neg h

theorem not_redundant_of_ne_null {name : String} {form : Form} {j : Json} (h : j ≠ .null) :
    ¬ (Entry.mk name .nullable form).redundant j := by
  cases j with
  | null => exact absurd rfl h
  | _ => exact Bool.false_ne_true

theorem redundant_collection {name : String} {form : Form} {j : Json} :
    (Entry.mk name .collection form).redundant j ↔ j = .array [] ∨ j = .object [] := by
  rcases j with _ | _ | _ | _ | (_ | _) | (_ | _) <;> simp [redundant]

end Form.Entry

/-! ## Fields -/

/-- What a field writes of its content, if anything. -/
def Field.write {α : Type} (f : Field α) (a : α) : Option Json :=
  if f.omits a then none else some (f.codec.encode a)

/-- The tree of a content that is a value. -/
def Value.tree? (c : Option Value) : List Tree := (c.map fun v => v.json.toTree).toList

/-- A field has the name of an entry, takes exactly the contents that fit the entry, and writes back
what the entry keeps of them. -/
structure Field.Meets {α : Type} (f : Field α) (e : Form.Entry) : Prop where
  name_eq : f.name = e.name
  reads : ∀ c : Option Value,
    (∃ a, f.Takes .value (Value.tree? c) a) ↔ e.fits (c.map Value.json)
  writes : ∀ {c : Option Value} {a : α}, f.Takes .value (Value.tree? c) a →
    (f.write a).map (fun j => j.toValue.json) = e.canon (c.map Value.json)

/-- A field whose content may be missing, in whatever way its type says so: `there` makes a content
of what may be missing, and `back` tells what it was made of. -/
structure Field.Nullable {α β : Type} (f : Field β) (c : Codec α) (there : Option α → β)
    (back : β → Option α) : Prop where
  decode_eq : ∀ t, f.codec.decode .value t = (c.optional.decode .value t).map there
  encode_eq : ∀ b a, back b = some a → f.codec.encode b = c.encode a
  absent_eq : f.absent = some (there none)
  omits_eq : ∀ b, f.omits b = (back b).isNone
  back_there : ∀ o, back (there o) = o

theorem Json.toTree_ne_null {j : Json} (h : j ≠ .null) : j.toTree ≠ .null := by
  intro htree
  cases j with
  | null => exact h rfl
  | _ => cases htree

namespace Field.Nullable

variable {α β : Type} {f : Field β} {c : Codec α} {form : Form} {there : Option α → β}
  {back : β → Option α}

theorem write_none (hf : f.Nullable c there back) : f.write (there none) = none := by
  have homits : f.omits (there none) := by
    rw [hf.omits_eq, hf.back_there]
    rfl
  exact if_pos homits

theorem write_some (hf : f.Nullable c there back) (a : α) :
    f.write (there (some a)) = some (c.encode a) := by
  have hnot : ¬ f.omits (there (some a)) := by
    rw [hf.omits_eq, hf.back_there]
    exact Bool.false_ne_true
  rw [write, if_neg hnot, hf.encode_eq _ a (hf.back_there _)]

theorem takes_null (hf : f.Nullable c there back) {v : Value} (hv : v.json = .null) {b : β} :
    f.Takes .value (Value.tree? (some v)) b ↔ b = there none := by
  change f.codec.decode .value v.json.toTree = .ok b ↔ _
  rw [hf.decode_eq, hv]
  exact ⟨fun h => (Except.ok.inj h).symm, fun h => congrArg Except.ok h.symm⟩

theorem takes_value (hf : f.Nullable c there back) {v : Value} (hv : v.json ≠ .null) {b : β} :
    f.Takes .value (Value.tree? (some v)) b
      ↔ ∃ a, c.decode .value v.json.toTree = .ok a ∧ there (some a) = b := by
  change f.codec.decode .value v.json.toTree = .ok b ↔ _
  rw [hf.decode_eq, Codec.Agrees.optional_decode c .value (Json.toTree_ne_null hv), Except.map_eq_ok]
  constructor
  · rintro ⟨o, ho, rfl⟩
    obtain ⟨a, ha, rfl⟩ := Except.map_eq_ok.mp ho
    exact ⟨a, ha, rfl⟩
  · rintro ⟨a, ha, rfl⟩
    exact ⟨some a, Except.map_eq_ok.mpr ⟨a, ha, rfl⟩, rfl⟩

theorem meets (hf : f.Nullable c there back) (hc : c.Meets form) :
    f.Meets ⟨f.name, .nullable, form⟩ where
  name_eq := rfl
  reads content := by
    cases content with
    | none => exact ⟨fun _ => Form.Entry.fits_none.mpr (by simp), fun _ => ⟨there none, hf.absent_eq⟩⟩
    | some v =>
      refine Iff.trans ?_ Form.Entry.fits_some.symm
      by_cases hv : v.json = .null
      · exact ⟨fun _ => .inl ⟨rfl, hv⟩, fun _ => ⟨_, (hf.takes_null hv).mpr rfl⟩⟩
      · simp only [hf.takes_value hv, hv, and_false, false_or, ← hc.reads]
        constructor
        · intro h
          obtain ⟨b, a, ha, -⟩ := h
          exact ⟨a, ha⟩
        · intro h
          obtain ⟨a, ha⟩ := h
          exact ⟨_, a, ha, rfl⟩
  writes {content b} h := by
    cases content with
    | none =>
      obtain rfl := Option.some.inj (hf.absent_eq.symm.trans h)
      rw [hf.write_none]
      rfl
    | some v =>
      by_cases hv : v.json = .null
      · obtain rfl := (hf.takes_null hv).mp h
        rw [hf.write_none, Option.map_some, hv]
        rfl
      · obtain ⟨a, ha, rfl⟩ := (hf.takes_value hv).mp h
        rw [hf.write_some, Option.map_some, Option.map_some, hc.writes ha]
        exact (Form.Entry.canon_of_not_redundant (Form.Entry.not_redundant_of_ne_null hv)).symm

end Field.Nullable

namespace Field.Meets

variable {α : Type} {c : Codec α} {form : Form}

theorem required (name : String) (hc : c.Meets form) :
    (Field.required name c).Meets ⟨name, .required, form⟩ where
  name_eq := rfl
  reads content := by
    cases content with
    | none =>
      constructor
      · rintro ⟨a, ha⟩
        cases ha
      · intro h
        exact absurd rfl (Form.Entry.fits_none.mp h)
    | some v =>
      refine (hc.reads v).trans (Iff.trans ?_ Form.Entry.fits_some.symm)
      exact ⟨.inr, fun h => h.resolve_left fun h => by cases h.1⟩
  writes {content a} h := by
    cases content with
    | none => cases h
    | some v =>
      have hnot : ¬ (Form.Entry.mk name .required form).redundant v.json := Bool.false_ne_true
      refine Eq.trans ?_ (Form.Entry.canon_of_not_redundant hnot).symm
      exact congrArg some (hc.writes h)

theorem optional (name : String) (hc : c.Meets form) :
    (Field.optional name c).Meets ⟨name, .nullable, form⟩ := by
  have hnullable : (Field.optional name c).Nullable c id id := by
    refine ⟨fun t => ?_, fun b a h => ?_, rfl, fun _ => rfl, fun _ => rfl⟩
    · rw [Except.map_id]
      rfl
    · cases h
      rfl
  exact hnullable.meets hc

/-- A field whose content is a collection, empty where it is absent. -/
theorem collection {f : Field α} (hc : f.codec.Meets form) {empty : α}
    (habsent : f.absent = some empty) (hempty : f.omits empty)
    (homits : ∀ {v : Value} {a : α}, f.codec.decode .value v.json.toTree = .ok a →
      (f.omits a ↔ v.json = .array [] ∨ v.json = .object [])) :
    f.Meets ⟨f.name, .collection, form⟩ where
  name_eq := rfl
  reads content := by
    cases content with
    | none => exact ⟨fun _ => Form.Entry.fits_none.mpr (by simp), fun _ => ⟨empty, habsent⟩⟩
    | some v =>
      refine (hc.reads v).trans (Iff.trans ?_ Form.Entry.fits_some.symm)
      exact ⟨.inr, fun h => h.resolve_left fun h => by cases h.1⟩
  writes {content a} h := by
    cases content with
    | none =>
      obtain rfl := Option.some.inj (habsent.symm.trans h)
      rw [Field.write, if_pos hempty]
      rfl
    | some v =>
      by_cases hv : v.json = .array [] ∨ v.json = .object []
      · rw [Field.write, if_pos ((homits h).mpr hv)]
        exact (Form.Entry.canon_of_redundant (Form.Entry.redundant_collection.mpr hv)).symm
      · rw [Field.write, if_neg (mt (homits h).mp hv), Option.map_some, hc.writes h]
        exact (Form.Entry.canon_of_not_redundant (mt Form.Entry.redundant_collection.mp hv)).symm

theorem list (name : String) (hc : c.Meets form) :
    (Field.list name c).Meets ⟨name, .collection, form.list⟩ := by
  refine collection hc.list rfl rfl fun {v xs} h => ?_
  change xs.isEmpty ↔ _
  rw [List.isEmpty_iff]
  obtain hl | ⟨vs, rfl⟩ | ⟨d, rfl⟩ := v.leaf_or_collection
  · change c.list.decode .value v.json.toTree = .ok xs at h
    rw [Codec.Agrees.list_leaf c .value hl] at h
    cases h
  · cases Codec.Meets.list_value_eq_ok_iff.mp h with
    | nil => exact ⟨fun _ => .inl rfl, fun _ => rfl⟩
    | cons hx hxs =>
      constructor
      · intro h
        cases h
      · rintro (h | h) <;> cases h
  · cases h

theorem dict (name : String) (hc : c.Meets form) :
    (Field.dict name c).Meets ⟨name, .collection, form.dict⟩ := by
  refine collection hc.dict rfl rfl fun {v e} h => ?_
  change e.entries.isEmpty ↔ _
  rw [List.isEmpty_iff]
  obtain hl | ⟨vs, rfl⟩ | ⟨d, rfl⟩ := v.leaf_or_collection
  · change c.dict.decode .value v.json.toTree = .ok e at h
    rw [Codec.Agrees.dict_leaf c .value hl] at h
    cases h
  · cases h
  · have h := Codec.Meets.dict_value_eq_ok_iff.mp h
    change _ ↔ _ ∨ Json.object (d.entries.map _) = _
    generalize d.entries = es, e.entries = fs at h ⊢
    cases h with
    | nil => exact ⟨fun _ => .inr rfl, fun _ => rfl⟩
    | cons hx hxs =>
      constructor
      · intro h
        cases h
      · rintro (h | h) <;> cases h

end Field.Meets

/-! ## Rows -/

namespace Fields

variable {α : Type} {types : List Type}

/-- Each field takes the content at its place, or stands for its absence. -/
def TakesEach : {types : List Type} → Row Field types → List (Option Value) → Contents types → Prop
  | [], _, cs, _ => cs = []
  | _ :: _, _, [], _ => False
  | _ :: _, (f, fs), c :: cs, (a, rest) => f.Takes .value (Value.tree? c) a ∧ TakesEach fs cs rest

theorem takesEach_cons {f : Field α} {fs : Row Field types} {c : Option Value}
    {cs : List (Option Value)} {a : α} {rest : Contents types} :
    TakesEach (Row.cons f fs) (c :: cs) (Row.cons a rest)
      ↔ f.Takes .value (Value.tree? c) a ∧ TakesEach fs cs rest := Iff.rfl

theorem takes_members_iff (fields : Row Field types) (d : Dict Value) (contents : Contents types) :
    Takes .value (Value.members d) fields contents
      ↔ TakesEach fields ((names fields).map d.get?) contents := by
  induction types with
  | nil => exact ⟨fun _ => rfl, fun _ => trivial⟩
  | cons α types ih =>
    obtain ⟨f, fs, rfl⟩ := fields.exists_cons
    obtain ⟨a, rest, rfl⟩ := contents.exists_cons
    rw [names_cons, List.map_cons, takes_cons, takesEach_cons, ih, Value.under_members]
    exact Iff.rfl

/-- Values one by one, and none for the places after them. -/
def padded (n : Nat) (vs : List Value) : List (Option Value) :=
  vs.map some ++ List.replicate (n - vs.length) none

theorem takesItems_iff (fields : Row Field types) (vs : List Value) (contents : Contents types) :
    TakesItems .value fields (vs.map fun v => v.json.toTree) contents
      ↔ vs.length ≤ types.length ∧ TakesEach fields (padded types.length vs) contents := by
  induction types generalizing vs with
  | nil =>
    cases vs with
    | nil => exact ⟨fun _ => ⟨Nat.le_refl 0, rfl⟩, fun _ => rfl⟩
    | cons v vs =>
      constructor
      · intro h
        cases h
      · rintro ⟨h, -⟩
        cases h
  | cons α types ih =>
    obtain ⟨f, fs, rfl⟩ := fields.exists_cons
    obtain ⟨a, rest, rfl⟩ := contents.exists_cons
    cases vs with
    | nil =>
      have hpadded : padded (α :: types).length [] = none :: padded types.length [] := by
        simp [padded, List.replicate_succ]
      rw [hpadded, takesEach_cons]
      refine (and_congr Iff.rfl (ih fs [] rest)).trans ?_
      simp [Value.tree?]
    | cons v vs =>
      have hpadded : padded (α :: types).length (v :: vs) = some v :: padded types.length vs := by
        simp [padded]
      rw [hpadded, takesEach_cons]
      refine (and_congr Iff.rfl (ih fs vs rest)).trans ?_
      rw [List.length_cons, List.length_cons, Nat.succ_le_succ_iff]
      exact and_left_comm

/-- The fields of a row meet the entries of a list one by one. -/
def Meet : {types : List Type} → Row Field types → List Form.Entry → Prop
  | [], _, es => es = []
  | _ :: _, _, [] => False
  | _ :: _, (f, fs), e :: es => f.Meets e ∧ Meet fs es

theorem Meet.exists_cons {f : Field α} {fs : Row Field types} {es : List Form.Entry}
    (h : Meet (Row.cons f fs) es) : ∃ e es', es = e :: es' ∧ f.Meets e ∧ Meet fs es' := by
  cases es with
  | nil => cases h
  | cons e es => exact ⟨e, es, rfl, h.1, h.2⟩

theorem Meet.names_eq {fields : Row Field types} {es : List Form.Entry} (h : Meet fields es) :
    names fields = es.map Form.Entry.name := by
  induction types generalizing es with
  | nil =>
    cases h
    rfl
  | cons α types ih =>
    obtain ⟨f, fs, rfl⟩ := fields.exists_cons
    obtain ⟨e, es, rfl, hf, hfs⟩ := h.exists_cons
    rw [names_cons, List.map_cons, hf.name_eq, ih hfs]

theorem Meet.length_eq {fields : Row Field types} {es : List Form.Entry} (h : Meet fields es) :
    types.length = es.length := by
  induction types generalizing es with
  | nil =>
    cases h
    rfl
  | cons α types ih =>
    obtain ⟨f, fs, rfl⟩ := fields.exists_cons
    obtain ⟨e, es, rfl, hf, hfs⟩ := h.exists_cons
    rw [List.length_cons, List.length_cons, ih hfs]

/-- Fields take contents exactly if these fit the entries. -/
theorem Meet.reads {fields : Row Field types} {es : List Form.Entry} (h : Meet fields es)
    {cs : List (Option Value)} (hlength : cs.length = es.length) :
    (∃ contents, TakesEach fields cs contents)
      ↔ (es.zip (cs.map (Option.map Value.json))).all fun p => p.1.fits p.2 := by
  induction types generalizing es cs with
  | nil =>
    cases h
    cases cs with
    | nil => exact ⟨fun _ => rfl, fun _ => ⟨PUnit.unit, rfl⟩⟩
    | cons c cs => cases hlength
  | cons α types ih =>
    obtain ⟨f, fs, rfl⟩ := fields.exists_cons
    obtain ⟨e, es, rfl, hf, hfs⟩ := h.exists_cons
    cases cs with
    | nil => cases hlength
    | cons c cs =>
      rw [List.map_cons, List.zip_cons_cons, List.all_cons, Bool.and_eq_true, ← hf.reads,
        ← ih hfs (Nat.succ.inj hlength)]
      constructor
      · rintro ⟨contents, hcontents⟩
        obtain ⟨a, rest, rfl⟩ := contents.exists_cons
        exact ⟨⟨a, hcontents.1⟩, rest, hcontents.2⟩
      · rintro ⟨⟨a, ha⟩, rest, hrest⟩
        exact ⟨Row.cons a rest, ha, hrest⟩

/-- The members that are written are the normal forms of the contents that were taken. -/
theorem Meet.writes {fields : Row Field types} {es : List Form.Entry} (h : Meet fields es)
    {cs : List (Option Value)} {contents : Contents types} (htakes : TakesEach fields cs contents) :
    (members fields contents).map (fun m => (m.1, m.2.toValue.json))
      = ((es.zip (cs.map (Option.map Value.json))).map fun p => (p.1.name, p.1.canon p.2)).filterMap
          fun c => c.2.map fun j => (c.1, j) := by
  induction types generalizing es cs with
  | nil =>
    cases h
    rfl
  | cons α types ih =>
    obtain ⟨f, fs, rfl⟩ := fields.exists_cons
    obtain ⟨a, rest, rfl⟩ := contents.exists_cons
    obtain ⟨e, es, rfl, hf, hfs⟩ := h.exists_cons
    cases cs with
    | nil => cases htakes
    | cons c cs =>
      have hwrite := hf.writes htakes.1
      have hrest := ih hfs htakes.2
      rw [members_cons, List.map_cons, List.zip_cons_cons, List.map_cons, ← hwrite, ← hf.name_eq]
      unfold Field.write
      split
      · exact hrest
      · exact congrArg (_ :: ·) hrest

end Fields

/-! ## Records -/

namespace Codec.Meets

theorem contents?_object (es : List Form.Entry) (d : Dict Value) :
    Form.contents? es (Value.object d).json
      = some ((es.map fun e => d.get? e.name).map (Option.map Value.json)) := by
  have h : Form.contents? es (Value.object d).json
      = some (es.map fun e => (d.map Value.json).get? e.name) := rfl
  rw [h, List.map_map]
  refine congrArg some (List.map_congr_left fun e _ => ?_)
  exact Dict.get?_map Value.json d e.name

theorem contents?_array (es : List Form.Entry) (vs : List Value) :
    Form.contents? es (Value.array vs).json = if vs.length ≤ es.length then
      some ((Fields.padded es.length vs).map (Option.map Value.json)) else none := by
  have h : Form.contents? es (Value.array vs).json
      = if (vs.map Value.json).length ≤ es.length then
          some ((vs.map Value.json).map some
            ++ List.replicate (es.length - (vs.map Value.json).length) none)
        else none := rfl
  rw [h, List.length_map, Fields.padded, List.map_append, List.map_replicate, List.map_map,
    List.map_map]
  rfl

theorem contents?_leaf (es : List Form.Entry) {j : Json} (h : j.toTree.isLeaf) :
    Form.contents? es j = none := by
  cases j with
  | array xs => cases h
  | object ms => cases h
  | _ => rfl

theorem record_array {ρ : Type} {fmt : RecordFormat ρ} {vs : List Value} {r : ρ} :
    (Codec.record fmt).decode .value (Value.array vs).json.toTree = .ok r
      ↔ ∃ contents, vs.length ≤ fmt.types.length ∧
        Fields.TakesEach fmt.fields (Fields.padded fmt.types.length vs) contents ∧
        fmt.make contents = r := by
  rw [Value.toTree_array, record_array_eq_ok_iff]
  constructor
  · rintro ⟨inner, contents, ⟨⟩, htakes, hmake⟩
    obtain ⟨hlength, htakes⟩ := (Fields.takesItems_iff ..).mp htakes
    exact ⟨contents, hlength, htakes, hmake⟩
  · rintro ⟨contents, hlength, htakes, hmake⟩
    exact ⟨.value, contents, rfl, (Fields.takesItems_iff ..).mpr ⟨hlength, htakes⟩, hmake⟩

theorem record_object {ρ : Type} {fmt : RecordFormat ρ} (hnames : (Fields.names fmt.fields).Nodup)
    {d : Dict Value} {r : ρ} :
    (Codec.record fmt).decode .value (Value.object d).json.toTree = .ok r
      ↔ ∃ contents, Fields.TakesEach fmt.fields ((Fields.names fmt.fields).map d.get?) contents ∧
        fmt.make contents = r := by
  rw [Value.toTree_object, record_object_eq_ok_iff hnames]
  constructor
  · rintro ⟨inner, contents, ⟨⟩, -, htakes, hmake⟩
    exact ⟨contents, (Fields.takes_members_iff ..).mp htakes, hmake⟩
  · rintro ⟨contents, htakes, hmake⟩
    exact ⟨.value, contents, rfl, Value.passable_members _ d,
      (Fields.takes_members_iff ..).mpr htakes, hmake⟩

/-- What a record is written as is the normal form of the contents that it was made of. -/
theorem record_writes {ρ : Type} {fmt : RecordFormat ρ} {es : List Form.Entry}
    (hmeet : Fields.Meet fmt.fields es) (hparts : ∀ contents, fmt.parts (fmt.make contents) = contents)
    {cs : List (Option Value)} {contents : Contents fmt.types}
    (htakes : Fields.TakesEach fmt.fields cs contents) :
    ((Codec.record fmt).encode (fmt.make contents)).toValue.json
      = Form.keyed ((es.zip (cs.map (Option.map Value.json))).map fun p =>
          (p.1.name, p.1.canon p.2)) := by
  have hencode : (Codec.record fmt).encode (fmt.make contents)
      = .object (Fields.members fmt.fields contents) := by
    change Json.object (Fields.members fmt.fields (fmt.parts (fmt.make contents))) = _
    rw [hparts]
  rw [hencode, Json.toValue_object]
  change Json.object ((Dict.ofList _).map Value.json).entries = _
  rw [Dict.map_ofList, List.map_map, Form.keyed, ← hmeet.writes htakes]
  rfl

/-- A record meets the form of entries that its fields meet one by one. -/
theorem record {ρ : Type} {fmt : RecordFormat ρ} {es : List Form.Entry}
    (hnames : (Fields.names fmt.fields).Nodup) (hmeet : Fields.Meet fmt.fields es)
    (hparts : ∀ contents, fmt.parts (fmt.make contents) = contents) :
    (Codec.record fmt).Meets (.record es) where
  reads v := by
    obtain hl | ⟨vs, rfl⟩ | ⟨d, rfl⟩ := v.leaf_or_collection
    · rw [Agrees.record_leaf fmt .value hl, Form.record_not_fits (contents?_leaf es hl)]
      exact iff_of_false Except.not_exists_ok Bool.false_ne_true
    · simp only [record_array, hmeet.length_eq]
      have hcontents := contents?_array es vs
      by_cases hlength : vs.length ≤ es.length
      · have hpadded : (Fields.padded es.length vs).length = es.length := by
          rw [Fields.padded, List.length_append, List.length_map, List.length_replicate]
          omega
        rw [if_pos hlength] at hcontents
        rw [Form.record_fits hcontents, ← hmeet.reads hpadded]
        constructor
        · intro h
          obtain ⟨r, contents, -, htakes, -⟩ := h
          exact ⟨contents, htakes⟩
        · intro h
          obtain ⟨contents, htakes⟩ := h
          exact ⟨_, contents, hlength, htakes, rfl⟩
      · rw [if_neg hlength] at hcontents
        rw [Form.record_not_fits hcontents]
        refine iff_of_false ?_ Bool.false_ne_true
        intro h
        obtain ⟨r, contents, hle, -⟩ := h
        exact hlength hle
    · simp only [record_object hnames, hmeet.names_eq, List.map_map]
      rw [Form.record_fits (contents?_object es d), ← hmeet.reads (List.length_map ..)]
      constructor
      · intro h
        obtain ⟨r, contents, htakes, -⟩ := h
        exact ⟨contents, htakes⟩
      · intro h
        obtain ⟨contents, htakes⟩ := h
        exact ⟨_, contents, htakes, rfl⟩
  writes {v r} h := by
    obtain hl | ⟨vs, rfl⟩ | ⟨d, rfl⟩ := v.leaf_or_collection
    · rw [Agrees.record_leaf fmt .value hl] at h
      cases h
    · obtain ⟨contents, hlength, htakes, rfl⟩ := record_array.mp h
      rw [hmeet.length_eq] at hlength htakes
      rw [record_writes hmeet hparts htakes,
        Form.record_canon ((contents?_array es vs).trans (if_pos hlength))]
    · obtain ⟨contents, htakes, rfl⟩ := (record_object hnames).mp h
      rw [hmeet.names_eq, List.map_map] at htakes
      rw [record_writes hmeet hparts htakes, Form.record_canon (contents?_object es d)]
      rfl

end Codec.Meets

end AudioScore
