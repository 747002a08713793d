import AudioScore.Proofs.Arg.Conforms
import AudioScore.Score.LoadingPolicy

/-!
# What comes of reading

A value that is absent or `null` stands for the default. Any other one is refused unless it conforms
to the declared kind, and then stands for the contents that its form says. Only a name may still be
refused: the first one that no value of the enumeration has. As the form is checked first, a list with
an item of another form is refused for its kind, whatever names stand before that item.

* `FieldType.Reads`, `FieldType.Unnamed`: what a conforming document stands for, and the name in it
  that is refused.
* `FieldType.decode_eq_ok_iff`, `FieldType.decode_eq_name_iff`: decoding finds these.
* `ConfigField.Outcome`: what comes of reading, told without reading.
* `ConfigField.read_outcome`: it is what reading a field gives, and what other types make of values
  that they accept and do not decode.
-/

namespace AudioScore

/-! ## Numbers -/

/-- A number becomes one double. -/
theorem Number.BecomesFloat.eq {a : Number} {x y : Binary64.Finite}
    (hx : a.BecomesFloat (.float x)) (hy : a.BecomesFloat (.float y)) : x = y := by
  cases hx with
  | integer hx =>
    cases hy with
    | integer hy => exact hx.eq hy
  | float x =>
    cases hy with
    | float y => rfl

/-! ## Names -/

theorem WireEnum.ofWire?_eq_error_iff {α : Type} [WireEnum α] {s : String} {e : UnrecognizedName} :
    (ofWire? s : Except UnrecognizedName α) = .error e ↔
      (∀ a : α, wire a ≠ s) ∧ e = ⟨typeName α, s⟩ := by
  constructor
  · intro h
    refine ⟨fun a ha => ?_, ofWire?_eq_error h⟩
    rw [← ha, ofWire?_wire] at h
    cases h
  · rintro ⟨hnone, rfl⟩
    cases h : (ofWire? s : Except UnrecognizedName α) with
    | ok a => exact absurd (ofWire?_eq_ok_iff.mp h).symm (hnone a)
    | error e => rw [ofWire?_eq_error h]

theorem ScalarArg.enum_decode_string {α : Type} [WireEnum α] (s : String) :
    (enum : ScalarArg α).decode (.string s) = (WireEnum.ofWire? s).mapError .name := by
  unfold enum
  dsimp only
  cases (WireEnum.ofWire? s : Except UnrecognizedName α) <;> rfl

theorem ScalarArg.enum_decode_eq_name_iff {α : Type} [WireEnum α] {j : Json}
    {e : UnrecognizedName} : (enum : ScalarArg α).decode j = .error (.name e) ↔
      ∃ s, j = .string s ∧ (∀ a : α, WireEnum.wire a ≠ s) ∧ e = ⟨WireEnum.typeName α, s⟩ := by
  have hstring : ∀ s, (enum : ScalarArg α).decode (.string s) = .error (.name e)
      ↔ (WireEnum.ofWire? s : Except UnrecognizedName α) = .error e := fun s => by
    rw [enum_decode_string]
    cases (WireEnum.ofWire? s : Except UnrecognizedName α) <;> simp [Except.mapError]
  constructor
  · intro h
    cases j with
    | string s => exact ⟨s, rfl, WireEnum.ofWire?_eq_error_iff.mp ((hstring s).mp h)⟩
    | _ => cases h
  · rintro ⟨s, rfl, h⟩
    exact (hstring s).mpr (WireEnum.ofWire?_eq_error_iff.mpr h)

/-! ## Scalars -/

namespace ScalarType

/-- What a document stands for. An integer stands for the double nearest to it where a double is
wanted. -/
def Reads : (τ : ScalarType) → Json → τ.Carrier → Prop
  | .string, j, s => j = .string s
  | .int, j, n => ∃ inRange, j = .number (.integer n.toInt inRange)
  | .float, j, x => ∃ a y, j = .number a ∧ x = .finite y ∧ a.BecomesFloat (.float y)
  | .bool, j, b => j = .boolean b
  | .time, j, t => ∃ inRange, j = .number (.integer t.nanos.toInt inRange)
  | .enum _ names, j, a => j = .string (names.wire a)

/-- Whether a document is a string that names nothing, where it should name a value of an
enumeration. -/
def Unnamed : ScalarType → Json → UnrecognizedName → Prop
  | .enum α names, j, e =>
    ∃ s, j = .string s ∧ (∀ a : α, names.wire a ≠ s) ∧ e = ⟨names.typeName, s⟩
  | _, _, _ => False

theorem decode_eq_ok_iff (τ : ScalarType) {j : Json} {x : τ.Carrier} :
    τ.arg.decode j = .ok x ↔ τ.Reads j x := by
  -- But for doubles, a document stands for that whose encoding it is.
  have hkeeps : τ.arg.decode j = .ok x → τ.arg.kind.Keeps j (τ.arg.encode x).json :=
    τ.keeping_arg.keeps
  have hback : τ.arg.encodable x → j = (τ.arg.encode x).json → τ.arg.decode j = .ok x := by
    rintro hx rfl
    exact τ.faithful_arg.decode_encode x hx
  cases τ with
  | string => exact ⟨fun h => (hkeeps h).symm, hback rfl⟩
  | bool => exact ⟨fun h => (hkeeps h).symm, hback rfl⟩
  | enum α names => exact ⟨fun h => (hkeeps h).symm, hback rfl⟩
  | int => exact ⟨fun h => ⟨_, (hkeeps h).symm⟩, fun ⟨_, h⟩ => hback rfl h⟩
  | time => exact ⟨fun h => ⟨_, (hkeeps h).symm⟩, fun ⟨_, h⟩ => hback rfl h⟩
  | float =>
    constructor
    · exact ScalarArg.float_decode
    · rintro ⟨a, y, rfl, rfl, hbecomes⟩
      obtain ⟨z, hz, hnearest⟩ := a.exists_toBinary64
      have hvalue : ScalarArg.float.decode (.number a) = .ok a.toBinary64 := rfl
      rw [hbecomes.eq hnearest, ← hz]
      exact hvalue

theorem decode_eq_name_iff (τ : ScalarType) {j : Json} {e : UnrecognizedName} :
    τ.arg.decode j = .error (.name e) ↔ τ.Unnamed j e := by
  cases τ with
  | enum α names => exact ScalarArg.enum_decode_eq_name_iff
  | int | time =>
    refine iff_of_false (fun h => ?_) not_false
    dsimp only [arg, ScalarArg.int, ScalarArg.time] at h
    split at h <;> cases h
  | string | float | bool => exact iff_of_false (fun h => by cases j <;> cases h) not_false

end ScalarType

/-! ## Contents of fields -/

namespace FieldType

/-- What a document stands for. The items of an array stand for those of a list, in order. -/
def Reads : (τ : FieldType) → Json → τ.Carrier → Prop
  | .scalar τ, j, x => τ.Reads j x
  | .list τ, j, xs => ∃ items, j = .array items ∧ List.Forall₂ τ.Reads items xs

/-- The name in a document that is refused. In an array it is the first one that names nothing. -/
def Unnamed : FieldType → Json → UnrecognizedName → Prop
  | .scalar τ, j, e => τ.Unnamed j e
  | .list τ, j, e =>
    ∃ items, j = .array items ∧ First (fun i => ∃ x, τ.Reads i x) (fun i => τ.Unnamed i e) items

theorem decode_eq_ok_iff (τ : FieldType) {j : Json} {x : τ.Carrier} :
    τ.arg.decode j = .ok x ↔ τ.Reads j x := by
  cases τ with
  | scalar τ => exact τ.decode_eq_ok_iff
  | list τ =>
    have hitems : ∀ items : List Json, items.mapM τ.arg.decode = .ok x
        ↔ List.Forall₂ τ.Reads items x := fun items => by
      rw [Except.mapM_eq_ok]
      exact ⟨.imp fun i y => τ.decode_eq_ok_iff.mp, .imp fun i y => τ.decode_eq_ok_iff.mpr⟩
    constructor
    · intro h
      cases j with
      | array items => exact ⟨items, rfl, (hitems items).mp h⟩
      | _ => cases h
    · rintro ⟨items, rfl, h⟩
      exact (hitems items).mpr h

theorem decode_eq_name_iff (τ : FieldType) {j : Json} {e : UnrecognizedName} :
    τ.arg.decode j = .error (.name e) ↔ τ.Unnamed j e := by
  cases τ with
  | scalar τ => exact τ.decode_eq_name_iff
  | list τ =>
    have hitems : ∀ items : List Json, items.mapM τ.arg.decode = .error (.name e)
        ↔ First (fun i => ∃ x, τ.Reads i x) (fun i => τ.Unnamed i e) items := fun items => by
      rw [Except.mapM_eq_error]
      simp only [τ.decode_eq_ok_iff, τ.decode_eq_name_iff]
    constructor
    · intro h
      cases j with
      | array items => exact ⟨items, rfl, (hitems items).mp h⟩
      | _ => cases h
    · rintro ⟨items, rfl, h⟩
      exact (hitems items).mpr h

end FieldType

/-! ## Outcomes -/

namespace ConfigField

/-- What comes of reading a field, by what is given. -/
inductive Outcome (f : ConfigField) : Option Value → Except MappingError f.Carrier → Prop where
  /-- The default stands for an absent value. -/
  | default {given : Option Value} {d : f.Carrier} (habsent : given = none ∨ given = some .null)
      (hd : f.default = some d) : Outcome f given (.ok d)
  /-- There is neither a value nor a default. -/
  | missing {given : Option Value} (habsent : given = none ∨ given = some .null)
      (hnone : f.default = none) : Outcome f given (.error (.missingArgument f.name))
  /-- A value does not have the form of the kind. -/
  | mismatch {v : Value} (hv : v ≠ .null) (hform : ¬ f.type.arg.kind.conforms v.json) :
      Outcome f (some v) (.error (.kindMismatch f.name f.type.arg.kind v.json.kind))
  /-- A value has the form of the kind, and stands for contents. -/
  | reads {v : Value} {x : f.Carrier} (hform : f.type.arg.kind.conforms v.json)
      (hx : f.type.Reads v.json x) : Outcome f (some v) (.ok x)
  /-- A value has the form of the kind, and there is a name in it that is refused. -/
  | unnamed {v : Value} {e : UnrecognizedName} (hform : f.type.arg.kind.conforms v.json)
      (he : f.type.Unnamed v.json e) : Outcome f (some v) (.error (.unrecognizedName f.name e))

variable {f : ConfigField} {given : Option Value} {r : Except MappingError f.Carrier}

/-- A value that conforms is decoded, and any other one is refused. -/
theorem read_present {v : Value} (hv : v ≠ .null) : f.arg.read (some v)
    = if f.type.arg.kind.conforms v.json then (f.type.arg.decode v.json).mapError f.arg.refusal
      else .error (.kindMismatch f.name f.type.arg.kind v.json.kind) := by
  rw [← f.type.kinded_arg.accepts_eq]
  exact Arg.read_present hv

theorem read_of_conforms {v : Value} (hform : f.type.arg.kind.conforms v.json) :
    f.arg.read (some v) = (f.type.arg.decode v.json).mapError f.arg.refusal :=
  (read_present (ArgKind.ne_null_of_conforms hform)).trans (if_pos hform)

theorem read_of_not_conforms {v : Value} (hv : v ≠ .null)
    (hform : ¬ f.type.arg.kind.conforms v.json) : f.arg.read (some v)
      = .error (.kindMismatch f.name f.type.arg.kind v.json.kind) :=
  (read_present hv).trans (if_neg hform)

/-- Reading has one of the outcomes. -/
theorem outcome_read (f : ConfigField) (given : Option Value) :
    f.Outcome given (f.arg.read given) := by
  by_cases habsent : given = none ∨ given = some .null
  · rw [Arg.read_absent habsent, Arg.missing]
    split
    · rename_i d hd
      exact .default habsent hd
    · rename_i hnone
      exact .missing habsent hnone
  · obtain ⟨v, rfl⟩ : ∃ v, given = some v := by
      cases given with
      | none => exact absurd (.inl rfl) habsent
      | some v => exact ⟨v, rfl⟩
    have hv : v ≠ .null := fun h => habsent (.inr (congrArg some h))
    by_cases hform : f.type.arg.kind.conforms v.json
    · rw [read_of_conforms hform]
      obtain ⟨x, hx⟩ | ⟨-, e, he⟩ := f.type.kinded_arg.decode_cases v.json hform
      · rw [hx]
        exact .reads hform (f.type.decode_eq_ok_iff.mp hx)
      · rw [he]
        exact .unnamed hform (f.type.decode_eq_name_iff.mp he)
    · rw [read_of_not_conforms hv hform]
      exact .mismatch hv hform

theorem Outcome.read_eq (h : f.Outcome given r) : f.arg.read given = r := by
  cases h with
  | default habsent hd => exact (Arg.read_absent habsent).trans (Arg.missing_eq_ok_iff.mpr hd)
  | missing habsent hnone => exact (Arg.read_absent habsent).trans (Arg.missing_of_none hnone)
  | mismatch hv hform => exact read_of_not_conforms hv hform
  | reads hform hx =>
    rw [read_of_conforms hform, f.type.decode_eq_ok_iff.mpr hx]
    rfl
  | unnamed hform he =>
    rw [read_of_conforms hform, f.type.decode_eq_name_iff.mpr he]
    rfl

end ConfigField

/-! ## Other types -/

namespace Arg

variable {α : Type}

/-- What a type accepts and does not decode is refused as its decoder says. -/
theorem read_of_decode_error {a : Arg α} {v : Value} {e : ValueError} (hv : v ≠ .null)
    (haccepts : a.type.accepts v.json) (hdecode : a.type.decode v.json = .error e) :
    a.read (some v) = .error (a.refusal e) := by
  rw [read_present hv, readValue, if_pos haccepts, hdecode]
  rfl

/-- A list is refused as its first item is that is not decoded. -/
theorem read_list_of_first {s : ScalarArg α} {name : String} {default : Option (List α)}
    {items : List Value} {e : ValueError} (haccepts : ∀ i ∈ items, s.accepts i.json)
    (hfirst : First (fun i => ∃ x, s.decode i.json = .ok x) (fun i => s.decode i.json = .error e)
      items) : (⟨name, .list s, default⟩ : Arg (List α)).read (some (.array items))
        = .error (refusal ⟨name, .list s, default⟩ e) := by
  have hitems : (ArgType.list s).accepts (Value.array items).json := by
    change (items.map Value.json).all s.accepts = true
    rw [List.all_eq_true, List.forall_mem_map]
    exact haccepts
  have hdecode : (ArgType.list s).decode (Value.array items).json = .error e := by
    change (items.map Value.json).mapM s.decode = .error e
    rw [Except.mapM_eq_error, first_map]
    exact hfirst
  have harray : Value.array items ≠ .null := fun h => by cases congrArg Value.json h
  exact read_of_decode_error harray hitems hdecode

end Arg

namespace ConfigField

/-- A list with an item that does not conform is refused for its kind, wherever the item stands. -/
theorem read_list_of_mem {τ : ScalarType} {name : String} {default : Option (List τ.Carrier)}
    {items : List Value} (h : ∃ i ∈ items, ¬ τ.arg.kind.conforms i.json) :
    (⟨name, .list τ, default⟩ : ConfigField).arg.read (some (.array items))
      = .error (.kindMismatch name (.list τ.arg.kind) .array) := by
  have harray : Value.array items ≠ .null := fun h => by cases congrArg Value.json h
  refine read_of_not_conforms (f := ⟨name, .list τ, default⟩) harray fun hall => ?_
  obtain ⟨i, hi, hform⟩ := h
  have hitems : ∀ j ∈ items.map Value.json, τ.arg.kind.conforms j := List.all_eq_true.mp hall
  exact hform (hitems _ (List.mem_map_of_mem hi))

/-- What comes of reading a field is its outcome, and nothing else. So a list with an item of another
form is refused for its kind, whatever names stand in it. Values of other types that are accepted and
not decoded are refused with the kind that the decoder reports, which in a list is that of its first
such item. -/
theorem read_outcome :
    (∀ (f : ConfigField) (given : Option Value) (r : Except MappingError f.Carrier),
      f.arg.read given = r ↔ f.Outcome given r) ∧
    (∀ (τ : ScalarType) (name : String) (default : Option (List τ.Carrier)) (items : List Value),
      (∃ i ∈ items, ¬ τ.arg.kind.conforms i.json) →
        (⟨name, .list τ, default⟩ : ConfigField).arg.read (some (.array items))
          = .error (.kindMismatch name (.list τ.arg.kind) .array)) ∧
    (∀ (α : Type) (a : Arg α) (v : Value) (k : ValueKind), v ≠ .null → a.type.accepts v.json →
      a.type.decode v.json = .error (.kind k) →
        a.read (some v) = .error (.kindMismatch a.name a.type.kind k)) ∧
    ∀ (α : Type) (s : ScalarArg α) (name : String) (default : Option (List α))
      (items : List Value) (k : ValueKind), (∀ i ∈ items, s.accepts i.json) →
      First (fun i => ∃ x, s.decode i.json = .ok x) (fun i => s.decode i.json = .error (.kind k))
        items →
        (⟨name, .list s, default⟩ : Arg (List α)).read (some (.array items))
          = .error (.kindMismatch name (.list s.kind) k) := by
  refine ⟨fun f given r => ⟨?_, Outcome.read_eq⟩, ?_, ?_, ?_⟩
  · rintro rfl
    exact f.outcome_read given
  · intro τ name default items h
    exact read_list_of_mem h
  · intro α a v k hv haccepts hdecode
    exact Arg.read_of_decode_error hv haccepts hdecode
  · intro α s name default items k haccepts hfirst
    exact Arg.read_list_of_first haccepts hfirst

/-- Even integers, of which a document shows only that they are numbers. -/
def evenInt : ScalarArg Int64 where
  kind := .int
  accepts
    | .number _ => true
    | _ => false
  decode j :=
    match ScalarArg.int64? j with
    | some n => if n.toInt % 2 = 0 then .ok n else wrongKind j
    | none => wrongKind j
  encode := .ofInt64
  encodable _ := true

/-- Loading policies, one after another. -/
def policies : ConfigField := .required "policies" (.list (.ofEnum LoadingPolicy))

theorem read_outcome_policies :
    policies.arg.read (some .null) = .error (.missingArgument "policies") ∧
      policies.arg.read (some (.array [.string "later", .ofInt64 3]))
        = .error (.kindMismatch "policies" (.list .enum) .array) ∧
      policies.arg.read (some (.array [.string "someContentPlaythrough", .string "later",
        .string "never"])) = .error (.unrecognizedName "policies" ⟨"LoadingPolicy", "later"⟩) ∧
      (⟨"half", .scalar evenInt, none⟩ : Arg Int64).read (some (.ofInt64 3))
        = .error (.kindMismatch "half" (.scalar .int) .number) ∧
      (⟨"halves", .list evenInt, none⟩ : Arg (List Int64)).read
        (some (.array [.ofInt64 2, .ofInt64 3])) = .error (.kindMismatch "halves" (.list .int)
          .number) := by
  obtain ⟨houtcome, hlist, hother, hitems⟩ := read_outcome
  refine ⟨(houtcome policies _ _).mpr (.missing (.inr rfl) rfl), ?_, ?_, ?_, ?_⟩
  · exact hlist (.ofEnum LoadingPolicy) "policies" none _ ⟨.ofInt64 3, by simp, by decide⟩
  · have hlater : ∀ a : LoadingPolicy, WireEnum.wire a ≠ "later" := fun a => by cases a <;> decide
    have hfirst : (ScalarType.ofEnum LoadingPolicy).Reads (.string "someContentPlaythrough")
        LoadingPolicy.someContent := rfl
    exact (houtcome policies _ _).mpr (.unnamed (by decide) ⟨_, rfl, [_], _, [_], rfl,
      List.forall_mem_singleton.mpr ⟨_, hfirst⟩, _, rfl, hlater, rfl⟩)
  · exact hother Int64 _ _ _ (fun h => by cases congrArg Value.json h) rfl rfl
  · exact hitems Int64 evenInt _ _ _ .number (by simp [evenInt, Value.ofInt64, Value.number])
      ⟨[_], _, [], rfl, List.forall_mem_singleton.mpr ⟨2, rfl⟩, rfl⟩

end ConfigField

end AudioScore
