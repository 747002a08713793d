import AudioScore.Arg.Field
import AudioScore.Proofs.Except
import AudioScore.Proofs.Json.Depth

/-!
# Arguments read back

Every value of a type of argument that is encodable is written in a form that the type accepts,
and that it reads back. What is written is never `null`, and nests at most one bracket.

* `ArgType.Faithful`: the property.
* `FieldType.faithful_arg`: it holds of the types of config fields.
* `Arg.read_encode`: an argument reads back what it writes.
-/

namespace AudioScore

/-- What is written of an encodable value is accepted and read back, and is not `null`. -/
structure ArgType.Faithful {α : Type} (t : ArgType α) : Prop where
  accepts_encode : ∀ x, t.encodable x → t.accepts (t.encode x).json
  decode_encode : ∀ x, t.encodable x → t.decode (t.encode x).json = .ok x
  kind_encode : ∀ x, t.encodable x → (t.encode x).json.kind ≠ .null
  depth_encode : ∀ x, (t.encode x).json.depth ≤ 1

/-- The same for a type whose values may stand in lists, and which opens no bracket. -/
structure ScalarArg.Faithful {α : Type} (s : ScalarArg α) : Prop where
  accepts_encode : ∀ x, s.encodable x → s.accepts (s.encode x).json
  decode_encode : ∀ x, s.encodable x → s.decode (s.encode x).json = .ok x
  kind_encode : ∀ x, s.encodable x → (s.encode x).json.kind ≠ .null
  depth_encode : ∀ x, (s.encode x).json.depth = 0

namespace ScalarArg

theorem string_faithful : string.Faithful where
  accepts_encode _ _ := rfl
  decode_encode _ _ := rfl
  kind_encode _ _ h := by cases h
  depth_encode _ := rfl

theorem bool_faithful : bool.Faithful where
  accepts_encode _ _ := rfl
  decode_encode _ _ := rfl
  kind_encode _ _ h := by cases h
  depth_encode _ := rfl

/-- An integer that is written is found again. -/
theorem int64?_ofInt64 (n : Int64) : int64? (Value.ofInt64 n).json = some n := by
  have hlt : n.toInt < 2 ^ (63 : Nat) := Int64.toInt_lt n
  change (if n.toInt < 2 ^ (63 : Nat) then some (Int64.ofInt n.toInt) else none) = _
  rw [if_pos hlt, Int64.ofInt_toInt]

theorem int_faithful : int.Faithful where
  accepts_encode n _ := by
    change (int64? (Value.ofInt64 n).json).isSome = true
    rw [int64?_ofInt64]
    rfl
  decode_encode n _ := by
    unfold int
    dsimp only
    rw [int64?_ofInt64]
  kind_encode _ _ h := by cases h
  depth_encode _ := rfl

theorem time_faithful : time.Faithful where
  accepts_encode t _ := by
    change (int64? (Value.ofInt64 t.nanos).json).isSome = true
    rw [int64?_ofInt64]
    rfl
  decode_encode t _ := by
    unfold time
    dsimp only
    rw [int64?_ofInt64]
  kind_encode _ _ h := by cases h
  depth_encode _ := rfl

theorem float_faithful : float.Faithful where
  accepts_encode x hx := by
    cases x with
    | finite x => rfl
    | _ => cases hx
  decode_encode x hx := by
    cases x with
    | finite x => rfl
    | _ => cases hx
  kind_encode x hx := by
    cases x with
    | finite x => exact fun h => by cases h
    | _ => cases hx
  depth_encode x := by cases x <;> rfl

theorem enum_faithful {α : Type} [WireEnum α] : (enum : ScalarArg α).Faithful where
  accepts_encode _ _ := rfl
  decode_encode a _ := by
    unfold enum Value.string
    dsimp only
    rw [WireEnum.ofWire?_wire]
  kind_encode _ _ h := by cases h
  depth_encode _ := rfl

end ScalarArg

namespace ArgType

variable {α : Type} {s : ScalarArg α}

theorem scalar_faithful (hs : s.Faithful) : (scalar s).Faithful where
  accepts_encode := hs.accepts_encode
  decode_encode := hs.decode_encode
  kind_encode := hs.kind_encode
  depth_encode x := Nat.le_trans (Nat.le_of_eq (hs.depth_encode x)) (Nat.zero_le 1)

theorem list_faithful (hs : s.Faithful) : (list s).Faithful where
  accepts_encode xs hxs := by
    have hxs : ∀ x ∈ xs, s.encodable x := List.all_eq_true.mp hxs
    change ((xs.map s.encode).map Value.json).all s.accepts = true
    rw [List.all_eq_true, List.forall_mem_map, List.forall_mem_map]
    exact fun x hx => hs.accepts_encode x (hxs x hx)
  decode_encode xs hxs := by
    have hxs : ∀ x ∈ xs, s.encodable x := List.all_eq_true.mp hxs
    change ((xs.map s.encode).map Value.json).mapM s.decode = .ok xs
    rw [Except.mapM_eq_ok, List.forall₂_map_left_iff, List.forall₂_map_left_iff,
      List.forall₂_same]
    exact fun x hx => hs.decode_encode x (hxs x hx)
  kind_encode _ _ h := by cases h
  depth_encode xs := by
    refine Nat.succ_le_succ (Json.depthItems_le_iff.mpr ?_)
    rw [List.forall_mem_map, List.forall_mem_map]
    exact fun x _ => Nat.le_of_eq (hs.depth_encode x)

end ArgType

theorem ScalarType.faithful_arg (τ : ScalarType) : τ.arg.Faithful := by
  cases τ with
  | string => exact ScalarArg.string_faithful
  | int => exact ScalarArg.int_faithful
  | float => exact ScalarArg.float_faithful
  | bool => exact ScalarArg.bool_faithful
  | time => exact ScalarArg.time_faithful
  | enum α names => exact ScalarArg.enum_faithful

theorem FieldType.faithful_arg (τ : FieldType) : τ.arg.Faithful := by
  cases τ with
  | scalar τ => exact ArgType.scalar_faithful τ.faithful_arg
  | list τ => exact ArgType.list_faithful τ.faithful_arg

namespace Arg

variable {α : Type} {a : Arg α} {x : α}

/-- An argument reads back what it writes of an encodable value. -/
theorem read_encode (ha : a.type.Faithful) (hx : a.type.encodable x) :
    a.read (some (a.type.encode x)) = .ok x := by
  have habsent : ¬ isAbsent (a.type.encode x) := by
    unfold isAbsent
    rw [beq_iff_eq]
    exact ha.kind_encode x hx
  rw [read, if_neg habsent, readValue, if_pos (ha.accepts_encode x hx), ha.decode_encode x hx]
  rfl

/-- An argument finds what it wrote of an encodable value under its name. -/
theorem readConfig_of_get? (ha : a.type.Faithful) (hx : a.type.encodable x) {config : Dict Value}
    (hget : config.get? a.name = some (a.type.encode x)) : a.readConfig config = .ok x := by
  rw [readConfig, hget]
  exact read_encode ha hx

/-- An argument takes what is given like what is written of it, if that is encodable. -/
theorem read_map_encode (ha : a.type.Faithful) {given : Option α}
    (h : ∀ x, given = some x → a.type.encodable x) :
    a.read (given.map a.type.encode) = a.valueOrDefault given := by
  cases given with
  | none => rfl
  | some x =>
    have hx := h x rfl
    rw [Option.map_some, read_encode ha hx, valueOrDefault, check, if_pos hx]

/-- What is resolved for an argument is encodable, if its default is. -/
theorem encodable_of_valueOrDefault (hdefault : ∀ d, a.default = some d → a.type.encodable d)
    {given : Option α} (h : a.valueOrDefault given = .ok x) : a.type.encodable x := by
  cases given with
  | none =>
    rw [valueOrDefault, missing] at h
    cases hd : a.default with
    | none =>
      rw [hd] at h
      cases h
    | some d =>
      rw [hd] at h
      cases h
      exact hdefault x hd
  | some y =>
    rw [valueOrDefault, check] at h
    by_cases hy : a.type.encodable y
    · rw [if_pos hy] at h
      cases h
      exact hy
    · rw [if_neg hy] at h
      cases h

end Arg

end AudioScore
