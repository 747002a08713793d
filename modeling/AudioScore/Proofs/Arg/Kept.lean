import AudioScore.Proofs.Arg.RoundTrip
import AudioScore.Proofs.Binary64.Nearest

/-!
# What is kept of a value that is read

A value that an argument reads is written as it was, with two exceptions: an integer that is read as
a double becomes the nearest double, and an absent or `null` value becomes the default.

* `ScalarKind.Keeps`, `ArgKind.Keeps`, `ArgSpec.Keeps`: what may be written for what was given.
* `ArgType.Keeping`: a type that writes so what it has read, and can write all that it reads.
* `FieldType.keeping_arg`: the types of config fields.
* `Arg.keeps_of_read`, `Arg.encodable_of_read`: what an argument reads.
-/

namespace AudioScore

/-! ## Numbers -/

/-- What a number becomes that is read as a double. -/
inductive Number.BecomesFloat : Number → Number → Prop where
  | integer {n : Int} {inRange : -2 ^ (63 : Nat) ≤ n ∧ n < 2 ^ (64 : Nat)} {x : Binary64.Finite}
      (h : x.IsNearest n) : BecomesFloat (.integer n inRange) (.float x)
  | float (x : Binary64.Finite) : BecomesFloat (.float x) (.float x)

theorem Number.exists_toBinary64 (a : Number) :
    ∃ x, a.toBinary64 = .finite x ∧ a.BecomesFloat (.float x) := by
  cases a with
  | integer n inRange =>
    obtain ⟨x, hx, hnearest⟩ := Binary64.ofInt_isNearest (n := n) (by omega)
    exact ⟨x, hx, .integer hnearest⟩
  | float x => exact ⟨x, rfl, .float x⟩

theorem Number.ofInt64_of_int64? {a : Number} {n : Int64} (h : a.int64? = some n) :
    a = .ofInt64 n := by
  cases a with
  | float x => cases h
  | integer k inRange =>
    unfold int64? at h
    dsimp only at h
    split at h
    · rename_i hlt
      have hk : n.toInt = k := by
        rw [← Option.some.inj h]
        exact Int64.toInt_ofInt_of_le inRange.1 hlt
      unfold ofInt64
      simp only [hk]
    · cases h

/-! ## Kinds -/

/-- What is written for a value of a kind: numbers that are read as doubles become doubles, and
everything else stays. -/
def ScalarKind.Keeps : ScalarKind → Json → Json → Prop
  | .float, j, k => ∃ a b, j = .number a ∧ k = .number b ∧ a.BecomesFloat b
  | _, j, k => k = j

/-- What is written for a value, or for the items of a list one by one. -/
def ArgKind.Keeps : ArgKind → Json → Json → Prop
  | .scalar kind, j, k => kind.Keeps j k
  | .list kind, j, k =>
    ∃ xs ys, j = .array xs ∧ k = .array ys ∧ List.Forall₂ kind.Keeps xs ys

/-- What is written for a value that may be absent: the default in place of an absent one or of
`null`, and otherwise what the kind says. -/
structure ArgSpec.Keeps (a : ArgSpec) (given : Option Value) (kept : Value) : Prop where
  absent : given = none ∨ given = some .null → a.default = some kept
  present : ∀ v, given = some v → v ≠ .null → a.kind.Keeps v.json kept.json

/-! ## Types -/

/-- Whatever is read can be written, in place of what it was read from. -/
structure ArgType.Keeping {α : Type} (t : ArgType α) : Prop where
  encodable : ∀ {j x}, t.decode j = .ok x → t.encodable x
  keeps : ∀ {j x}, t.decode j = .ok x → t.kind.Keeps j (t.encode x).json

/-- The same for a type whose values may stand in lists. -/
structure ScalarArg.Keeping {α : Type} (s : ScalarArg α) : Prop where
  encodable : ∀ {j x}, s.decode j = .ok x → s.encodable x
  keeps : ∀ {j x}, s.decode j = .ok x → s.kind.Keeps j (s.encode x).json

namespace ScalarArg

theorem string_keeping : string.Keeping where
  encodable _ := rfl
  keeps {j x} h := by
    cases j with
    | string s =>
      cases h
      rfl
    | _ => cases h

theorem bool_keeping : bool.Keeping where
  encodable _ := rfl
  keeps {j x} h := by
    cases j with
    | boolean b =>
      cases h
      rfl
    | _ => cases h

theorem json_of_int64? {j : Json} {n : Int64} (h : int64? j = some n) :
    (Value.ofInt64 n).json = j := by
  cases j with
  | number a =>
    rw [Number.ofInt64_of_int64? h]
    rfl
  | _ => cases h

theorem int_keeping : int.Keeping where
  encodable _ := rfl
  keeps {j x} h := by
    unfold int at h
    dsimp only at h
    split at h
    · rename_i n hn
      cases h
      exact json_of_int64? hn
    · cases h

theorem time_keeping : time.Keeping where
  encodable _ := rfl
  keeps {j x} h := by
    unfold time at h
    dsimp only at h
    split at h
    · rename_i n hn
      cases h
      exact json_of_int64? hn
    · cases h

theorem float_decode {j : Json} {x : Binary64} (h : float.decode j = .ok x) :
    ∃ a y, j = .number a ∧ x = .finite y ∧ a.BecomesFloat (.float y) := by
  cases j with
  | number a =>
    obtain ⟨y, hy, hbecomes⟩ := a.exists_toBinary64
    exact ⟨a, y, rfl, (Except.ok.inj h).symm.trans hy, hbecomes⟩
  | _ => cases h

theorem float_keeping : float.Keeping where
  encodable {j x} h := by
    obtain ⟨a, y, -, rfl, -⟩ := float_decode h
    rfl
  keeps {j x} h := by
    obtain ⟨a, y, rfl, rfl, hbecomes⟩ := float_decode h
    exact ⟨a, .float y, rfl, rfl, hbecomes⟩

theorem enum_keeping {α : Type} [WireEnum α] : (enum : ScalarArg α).Keeping where
  encodable _ := rfl
  keeps {j x} h := by
    cases j with
    | string s =>
      unfold enum at h
      dsimp only at h
      split at h
      · rename_i a ha
        cases h
        rw [WireEnum.ofWire?_eq_ok_iff.mp ha]
        rfl
      · cases h
    | _ => cases h

end ScalarArg

namespace ArgType

variable {α : Type} {s : ScalarArg α}

theorem scalar_keeping (hs : s.Keeping) : (scalar s).Keeping where
  encodable := hs.encodable
  keeps := hs.keeps

theorem list_decode {j : Json} {xs : List α} (h : (list s).decode j = .ok xs) :
    ∃ items, j = .array items ∧ List.Forall₂ (fun y x => s.decode y = .ok x) items xs := by
  cases j with
  | array items => exact ⟨items, rfl, Except.mapM_eq_ok.mp h⟩
  | _ => cases h

theorem list_keeping (hs : s.Keeping) : (list s).Keeping where
  encodable {j xs} h := by
    obtain ⟨items, -, hitems⟩ := list_decode h
    refine List.all_eq_true.mpr ?_
    clear h
    induction hitems with
    | nil => exact fun x hx => absurd hx List.not_mem_nil
    | cons hx hxs ih => exact List.forall_mem_cons.mpr ⟨hs.encodable hx, ih⟩
  keeps {j xs} h := by
    obtain ⟨items, rfl, hitems⟩ := list_decode h
    refine ⟨items, (xs.map s.encode).map Value.json, rfl, rfl, ?_⟩
    rw [List.map_map, List.forall₂_map_right_iff]
    exact hitems.imp fun y x hx => hs.keeps hx

end ArgType

theorem ScalarType.keeping_arg (τ : ScalarType) : τ.arg.Keeping := by
  cases τ with
  | string => exact ScalarArg.string_keeping
  | int => exact ScalarArg.int_keeping
  | float => exact ScalarArg.float_keeping
  | bool => exact ScalarArg.bool_keeping
  | time => exact ScalarArg.time_keeping
  | enum α names => exact ScalarArg.enum_keeping

theorem FieldType.keeping_arg (τ : FieldType) : τ.arg.Keeping := by
  cases τ with
  | scalar τ => exact ArgType.scalar_keeping τ.keeping_arg
  | list τ => exact ArgType.list_keeping τ.keeping_arg

/-! ## Arguments -/

namespace Arg

variable {α : Type} {a : Arg α} {x : α}

theorem isAbsent_iff {v : Value} : isAbsent v ↔ v = .null := by
  unfold isAbsent
  rw [beq_iff_eq]
  constructor
  · intro h
    obtain ⟨j, hj⟩ := v
    cases j with
    | null => rfl
    | _ => cases h
  · rintro rfl
    rfl

theorem read_absent {given : Option Value} (h : given = none ∨ given = some .null) :
    a.read given = a.missing := by
  rcases h with rfl | rfl <;> rfl

theorem read_present {v : Value} (h : v ≠ .null) : a.read (some v) = a.readValue v :=
  if_neg (mt isAbsent_iff.mp h)

theorem missing_eq_ok_iff : a.missing = .ok x ↔ a.default = some x := by
  unfold missing
  cases a.default with
  | none =>
    constructor <;> intro h <;> cases h
  | some d => rw [Except.ok.injEq, Option.some_inj]

theorem missing_of_none (h : a.default = none) : a.missing = .error (.missingArgument a.name) := by
  rw [missing, h]

/-- A value that is read is absent and stands for the default, or is there and is converted. -/
theorem read_cases {given : Option Value} (h : a.read given = .ok x) :
    ((given = none ∨ given = some .null) ∧ a.default = some x) ∨
      ∃ v, given = some v ∧ v ≠ .null ∧ a.type.decode v.json = .ok x := by
  cases given with
  | none => exact .inl ⟨.inl rfl, missing_eq_ok_iff.mp h⟩
  | some v =>
    unfold read at h
    dsimp only at h
    split at h
    · rename_i habsent
      rw [isAbsent_iff.mp habsent]
      exact .inl ⟨.inr rfl, missing_eq_ok_iff.mp h⟩
    · rename_i hpresent
      unfold readValue at h
      split at h
      · exact .inr ⟨v, rfl, mt isAbsent_iff.mpr hpresent, Except.mapError_eq_ok.mp h⟩
      · cases h

theorem encodable_of_read (ha : a.type.Keeping)
    (hdefault : ∀ d, a.default = some d → a.type.encodable d) {given : Option Value}
    (h : a.read given = .ok x) : a.type.encodable x := by
  obtain ⟨-, hx⟩ | ⟨v, -, -, hx⟩ := read_cases h
  · exact hdefault x hx
  · exact ha.encodable hx

theorem keeps_of_read (ha : a.type.Keeping) {given : Option Value} (h : a.read given = .ok x) :
    a.spec.Keeps given (a.type.encode x) := by
  obtain ⟨hgiven, hx⟩ | ⟨v, rfl, hv, hx⟩ := read_cases h
  · refine ⟨fun _ => congrArg (Option.map a.type.encode) hx, fun v hsome hv => ?_⟩
    rcases hgiven with rfl | rfl
    · cases hsome
    · exact absurd (Option.some.inj hsome).symm hv
  · refine ⟨fun hgiven => ?_, fun w hsome _ => ?_⟩
    · rcases hgiven with hnone | hnull
      · cases hnone
      · exact absurd (Option.some.inj hnull) hv
    · rw [← Option.some.inj hsome]
      exact ha.keeps hx

end Arg

end AudioScore
