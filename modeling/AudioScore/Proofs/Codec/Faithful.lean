import AudioScore.Proofs.Codec.Record
import AudioScore.Proofs.Json.Depth
import AudioScore.Proofs.Json.Text

/-!
# What is written reads back

A codec is faithful if the document of every datum reads back as that datum wherever its depth
is admitted, and is refused as malformed everywhere else. Each way to make a codec keeps this.

* `Codec.Faithful`: the property.
* `Codec.Faithful.list`, `Codec.Faithful.dict`, `Codec.Faithful.record`: collections and records.
* `Codec.Faithful.ofText_text`, `Codec.Faithful.text_inj`: text, in either layout.
-/

namespace AudioScore

theorem Source.open?_cases (src : Source) :
    (∃ inner, src.open? = .ok inner ∧ ∀ n, src.Admits (n + 1) ↔ inner.Admits n) ∨
      (src.open? = .error .malformed ∧ ∀ n, ¬ src.Admits (n + 1)) := by
  unfold Source.open?
  obtain ⟨inner, hinner, hadmits⟩ | ⟨hnone, hdeep⟩ := src.enter_cases
  · exact .inl ⟨inner, by rw [hinner], hadmits⟩
  · exact .inr ⟨by rw [hnone], hdeep⟩

namespace Codec

variable {α β : Type}

theorem wireEnum_decode [WireEnum α] (src : Source) (s : String) :
    (wireEnum : Codec α).decode src (Json.string s).toTree =
      match (WireEnum.ofWire? s : Except UnrecognizedName α) with
      | .ok a => .ok a
      | .error e => .error (.data (.unrecognized e)) := rfl

theorem value_decode (src : Source) (t : Tree) :
    value.decode src t =
      match t.value? src with
      | some v => .ok v
      | none => .error .malformed := rfl

/-- Everything that is written reads back as far as its depth is admitted, and repeats no key. -/
structure Faithful (c : Codec α) : Prop where
  decode_encode : ∀ src a, c.decode src (c.encode a).toTree
    = if src.Admits (c.encode a).depth then .ok a else .error .malformed
  distinct : ∀ a, (c.encode a).Distinct

namespace Faithful

/-! ## Simple data -/

theorem string : Codec.string.Faithful where
  decode_encode src _ := (if_pos src.admits_zero).symm
  distinct _ := trivial

theorem int64 : Codec.int64.Faithful where
  decode_encode src n := by
    have hlt : n.toInt < 2 ^ (63 : Nat) := Int64.toInt_lt n
    have h : Codec.int64.decode src (Codec.int64.encode n).toTree = .ok (Int64.ofInt n.toInt) :=
      if_pos hlt
    rw [h, Int64.ofInt_toInt]
    exact (if_pos src.admits_zero).symm
  distinct _ := trivial

theorem wireEnum [WireEnum α] : (Codec.wireEnum : Codec α).Faithful where
  decode_encode src a := by
    have h : (Codec.wireEnum : Codec α).decode src (Json.string (WireEnum.wire a)).toTree = .ok a := by
      rw [wireEnum_decode, WireEnum.ofWire?_wire]
    exact h.trans (if_pos src.admits_zero).symm
  distinct _ := trivial

theorem value : Codec.value.Faithful where
  decode_encode src v := by
    change Codec.value.decode src v.json.toTree = if src.Admits v.json.depth then _ else _
    rw [value_decode, Json.value?_toTree, v.toValue_json]
    by_cases h : src.Admits v.json.depth
    · rw [if_pos h, if_pos h]
    · rw [if_neg h, if_neg h]
  distinct v := v.sorted.distinct

theorem map {c : Codec α} (hc : c.Faithful) {there : α → β} {back : β → α}
    (h : ∀ b, there (back b) = b) : (c.map there back).Faithful where
  decode_encode src b := by
    change (c.decode src (c.encode (back b)).toTree).map there = _
    rw [hc.decode_encode]
    change _ = if src.Admits (c.encode (back b)).depth then _ else _
    split
    · exact congrArg Except.ok (h b)
    · rfl
  distinct b := hc.distinct (back b)

/-! ## Collections -/

theorem optional {c : Codec α} (hc : c.Faithful) (hnull : ∀ a, c.encode a ≠ .null) :
    c.optional.Faithful where
  decode_encode src a := by
    cases a with
    | none => exact (if_pos src.admits_zero).symm
    | some a =>
      have h : c.optional.decode src (c.encode a).toTree
          = (c.decode src (c.encode a).toTree).map some := by
        cases he : c.encode a with
        | null => exact absurd he (hnull a)
        | _ => rfl
      change c.optional.decode src (c.encode a).toTree = if src.Admits (c.encode a).depth then _ else _
      rw [h, hc.decode_encode]
      split <;> rfl
  distinct a := by
    cases a with
    | none => trivial
    | some a => exact hc.distinct a

theorem mapM_toTree {c : Codec α} (hc : c.Faithful) (src : Source) (xs : List α) :
    (Json.treesOfItems (xs.map c.encode)).mapM (c.decode src)
      = if src.Admits (Json.depthItems (xs.map c.encode)) then .ok xs else .error .malformed := by
  induction xs with
  | nil => exact (if_pos src.admits_zero).symm
  | cons x xs ih =>
    rw [List.map_cons, Json.treesOfItems, List.mapM_cons, ih, hc.decode_encode, Json.depthItems]
    by_cases hx : src.Admits (c.encode x).depth
    · by_cases hxs : src.Admits (Json.depthItems (xs.map c.encode))
      · rw [if_pos hx, if_pos hxs, if_pos (Source.admits_max.mpr ⟨hx, hxs⟩)]
        rfl
      · rw [if_pos hx, if_neg hxs, if_neg fun h => hxs (Source.admits_max.mp h).2]
        rfl
    · rw [if_neg hx, if_neg fun h => hx (Source.admits_max.mp h).1]
      rfl

theorem list {c : Codec α} (hc : c.Faithful) : c.list.Faithful where
  decode_encode src xs := by
    have h : c.list.decode src (c.list.encode xs).toTree
        = src.open? >>= fun inner => (Json.treesOfItems (xs.map c.encode)).mapM (c.decode inner) :=
      rfl
    change _ = if src.Admits (Json.depthItems (xs.map c.encode) + 1) then _ else _
    rw [h]
    obtain ⟨inner, hopen, hadmits⟩ | ⟨hopen, hdeep⟩ := src.open?_cases
    · rw [hopen, if_congr (hadmits _) rfl rfl]
      exact hc.mapM_toTree inner xs
    · rw [hopen, if_neg (hdeep _)]
      rfl
  distinct xs := by
    refine Json.distinctItems_iff.mpr fun x hx => ?_
    obtain ⟨a, -, rfl⟩ := List.mem_map.mp hx
    exact hc.distinct a

theorem entries_toTree {c : Codec α} (hc : c.Faithful) (src : Source) (d : Dict α)
    (es : List (String × α)) :
    c.entries src d (Json.treesOfMembers (es.map fun e => (e.1, c.encode e.2)))
      = if src.Admits (Json.depthMembers (es.map fun e => (e.1, c.encode e.2))) then
          .ok (d.insertAll es) else .error .malformed := by
  induction es generalizing d with
  | nil => exact (if_pos src.admits_zero).symm
  | cons e es ih =>
    rw [List.map_cons, Json.treesOfMembers, Codec.entries, hc.decode_encode, Json.depthMembers]
    by_cases hx : src.Admits (c.encode e.2).depth
    · rw [if_pos hx]
      change c.entries src (d.insert e.1 e.2) _ = _
      rw [ih]
      exact if_congr ⟨fun h => Source.admits_max.mpr ⟨hx, h⟩, fun h => (Source.admits_max.mp h).2⟩
        rfl rfl
    · rw [if_neg hx, if_neg fun h => hx (Source.admits_max.mp h).1]
      rfl

theorem dict {c : Codec α} (hc : c.Faithful) : c.dict.Faithful where
  decode_encode src d := by
    have h : c.dict.decode src (c.dict.encode d).toTree = src.open? >>= fun inner =>
        c.entries inner .empty (Json.treesOfMembers (d.entries.map fun e => (e.1, c.encode e.2))) :=
      rfl
    change _ = if src.Admits (Json.depthMembers (d.entries.map fun e => (e.1, c.encode e.2)) + 1)
      then _ else _
    rw [h]
    obtain ⟨inner, hopen, hadmits⟩ | ⟨hopen, hdeep⟩ := src.open?_cases
    · have hd : Dict.empty.insertAll d.entries = d := d.ofList_entries
      rw [hopen, if_congr (hadmits _) rfl rfl]
      exact (hc.entries_toTree inner .empty d.entries).trans (by rw [hd])
    · rw [hopen, if_neg (hdeep _)]
      rfl
  distinct d := by
    refine ⟨(d.map c.encode).increasing.nodup, Json.distinctMembers_iff.mpr fun m hm => ?_⟩
    obtain ⟨e, -, rfl⟩ := List.mem_map.mp hm
    exact hc.distinct e.2

end Faithful

end Codec

/-! ## Records -/

/-- A field reads back what it writes, and leaves out nothing but what its absence stands for. -/
structure Field.Faithful {α : Type} (f : Field α) : Prop where
  codec : f.codec.Faithful
  absent_of_omits : ∀ a, f.omits a → f.absent = some a

namespace Field.Faithful

variable {α : Type} {c : Codec α}

theorem required (name : String) (hc : c.Faithful) : (Field.required name c).Faithful where
  codec := hc
  absent_of_omits _ h := absurd h Bool.false_ne_true

theorem optional (name : String) (hc : c.Faithful) (hnull : ∀ a, c.encode a ≠ .null) :
    (Field.optional name c).Faithful where
  codec := hc.optional hnull
  absent_of_omits a h := by
    cases a with
    | none => rfl
    | some a => cases h

theorem list (name : String) (hc : c.Faithful) : (Field.list name c).Faithful where
  codec := hc.list
  absent_of_omits xs h := by
    rw [List.isEmpty_iff.mp h]
    rfl

theorem dict (name : String) (hc : c.Faithful) : (Field.dict name c).Faithful where
  codec := hc.dict
  absent_of_omits d h := by
    have hempty : d = .empty := Dict.ext_get? fun k => by
      rw [Dict.get?, List.isEmpty_iff.mp h]
      rfl
    rw [hempty]
    rfl

end Field.Faithful

namespace Fields

/-- The slots after the members of a record are read: those that were left out stay empty. -/
def written : {types : List Type} → Row Field types → Contents types → Slots types
  | [], _, _ => ⟨⟩
  | _ :: _, (f, fs), (a, rest) => (if f.omits a then none else some a, written fs rest)

theorem written_cons {α : Type} {types : List Type} (f : Field α) (fs : Row Field types) (a : α)
    (rest : Contents types) :
    written (Row.cons f fs) (Row.cons a rest)
      = Row.cons (if f.omits a then none else some a) (written fs rest) := rfl

theorem finish_written {types : List Type} {fields : Row Field types}
    (h : Every Field.Faithful fields) (contents : Contents types) :
    finish fields (written fields contents) = .ok contents := by
  induction types with
  | nil => rfl
  | cons α types ih =>
    obtain ⟨f, fs, rfl⟩ := fields.exists_cons
    obtain ⟨a, rest, rfl⟩ := contents.exists_cons
    have hslot : (if f.omits a then none else some a : Option α).or f.absent = some a := by
      split
      · rename_i homits
        exact h.1.absent_of_omits a homits
      · rfl
    rw [written_cons, finish_cons, hslot]
    dsimp only
    rw [ih h.2]
    rfl

/-- The members that a record is written with are read into its slots. -/
theorem fillAll_members {types : List Type} {fields : Row Field types}
    (hnames : (names fields).Nodup) (h : Every Field.Faithful fields) (src : Source)
    (contents : Contents types) :
    fillAll fields src (blank types) (Json.treesOfMembers (members fields contents))
      = if src.Admits (Json.depthMembers (members fields contents)) then
          .ok (written fields contents) else .error .malformed := by
  induction types with
  | nil => exact (if_pos src.admits_zero).symm
  | cons α types ih =>
    obtain ⟨f, fs, rfl⟩ := fields.exists_cons
    obtain ⟨a, rest, rfl⟩ := contents.exists_cons
    rw [names_cons, List.nodup_cons] at hnames
    have hrest := ih hnames.2 h.2 rest
    have hothers : ∀ m ∈ Json.treesOfMembers (members fs rest), m.1 ≠ some f.name := by
      intro m hm heq
      rw [Json.treesOfMembers_eq_map] at hm
      obtain ⟨m', hm', rfl⟩ := List.mem_map.mp hm
      have hmem := mem_members hm'
      rw [Option.some.inj heq] at hmem
      exact hnames.1 hmem
    rw [members_cons, written_cons, blank_cons]
    by_cases homits : f.omits a
    · rw [if_pos homits, if_pos homits, fillAll_of_not_mem f fs src none (blank types) hothers, hrest]
      split <;> rfl
    rw [if_neg homits, if_neg homits, Json.treesOfMembers, Json.depthMembers, fillAll_cons,
      fill_first, h.1.codec.decode_encode]
    by_cases ha : src.Admits (f.codec.encode a).depth
    · rw [if_pos ha]
      change fillAll _ _ (Row.cons (some a) (blank types)) _ = _
      rw [fillAll_of_not_mem f fs src (some a) (blank types) hothers, hrest]
      by_cases hms : src.Admits (Json.depthMembers (members fs rest))
      · rw [if_pos hms, if_pos (Source.admits_max.mpr ⟨ha, hms⟩)]
        rfl
      · rw [if_neg hms, if_neg fun h => hms (Source.admits_max.mp h).2]
        rfl
    · rw [if_neg ha, if_neg fun h => ha (Source.admits_max.mp h).1]
      rfl

theorem distinct_members {types : List Type} {fields : Row Field types}
    (h : Every Field.Faithful fields) (contents : Contents types) :
    Json.DistinctMembers (members fields contents) := by
  induction types with
  | nil => trivial
  | cons α types ih =>
    obtain ⟨f, fs, rfl⟩ := fields.exists_cons
    obtain ⟨a, rest, rfl⟩ := contents.exists_cons
    rw [members_cons]
    split
    · exact ih h.2 rest
    · exact ⟨h.1.codec.distinct a, ih h.2 rest⟩

end Fields

namespace Codec.Faithful

/-- Records of faithful fields with names of their own are faithful. -/
theorem record {ρ : Type} {fmt : RecordFormat ρ} (hnames : (Fields.names fmt.fields).Nodup)
    (h : Fields.Every Field.Faithful fmt.fields) : (Codec.record fmt).Faithful where
  decode_encode src r := by
    have hdecode : (Codec.record fmt).decode src ((Codec.record fmt).encode r).toTree
        = src.open? >>= fun inner =>
          Fields.fillAll fmt.fields inner (Fields.blank fmt.types)
            (Json.treesOfMembers (Fields.members fmt.fields (fmt.parts r))) >>= fun slots =>
          (Fields.finish fmt.fields slots) >>= fun contents => pure (fmt.make contents) := rfl
    change _ = if src.Admits (Json.depthMembers (Fields.members fmt.fields (fmt.parts r)) + 1)
      then _ else _
    rw [hdecode]
    obtain ⟨inner, hopen, hadmits⟩ | ⟨hopen, hdeep⟩ := src.open?_cases
    · rw [hopen, if_congr (hadmits _) rfl rfl]
      change Fields.fillAll _ _ _ _ >>= _ = _
      rw [Fields.fillAll_members hnames h]
      split
      · change Fields.finish _ (Fields.written _ _) >>= _ = _
        rw [Fields.finish_written h]
        exact congrArg Except.ok (fmt.make_parts r)
      · rfl
    · rw [hopen, if_neg (hdeep _)]
      rfl
  distinct r := ⟨Fields.nodup_members hnames _, Fields.distinct_members h _⟩

variable {α : Type} {c : Codec α}

/-! ## Whole documents -/

/-- What is written as text, in either layout, reads back where a new text admits its depth. -/
theorem ofText_text (hc : c.Faithful) (layout : Layout) (a : α) :
    c.ofText (c.text layout a)
      = if (c.toValue a).json.depth ≤ 127 then .ok a else .error .malformed := by
  have hdepth : (c.toValue a).json.depth = (c.encode a).depth := (hc.distinct a).depth_toValue
  have h : c.ofText (c.text layout a)
      = c.decode .newText (c.encode a).toTree >>= fun a => if true then pure a else throw .malformed := by
    rw [ofText, text, Tree.ofText_text]
  rw [h, hc.decode_encode, hdepth]
  change (if (c.encode a).depth ≤ 127 then _ else _) >>= _ = _
  split <;> rfl

/-- Different data are written as different text. -/
theorem text_inj (hc : c.Faithful) (layout : Layout) {a b : α} :
    c.text layout a = c.text layout b ↔ a = b := by
  refine ⟨fun h => ?_, congrArg (c.text layout)⟩
  have htree : (c.encode a).toTree = (c.encode b).toTree := by
    have hparsed : ((c.encode a).toTree, true) = ((c.encode b).toTree, true) := by
      rw [← Tree.ofText_text layout, ← Tree.ofText_text layout]
      exact congrArg Tree.ofText h
    exact congrArg Prod.fst hparsed
  -- A generic value is read at any depth, so that what is read is what was written.
  have hread : ∀ x, c.decode .value (c.encode x).toTree = .ok x := fun x =>
    (hc.decode_encode .value x).trans (if_pos trivial)
  exact Except.ok.inj ((hread a).symm.trans ((congrArg (c.decode .value) htree).trans (hread b)))

end Codec.Faithful

end AudioScore
