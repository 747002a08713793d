import AudioScore.Proofs.Arg.Kept

/-!
# Values that can be written

Contents can be written exactly if all doubles in them are finite, and then they are read back from
what is written. Whatever an argument reads from a document or takes from a caller can be written.
Its default is given out as it is, so that it can be written only if it is finite itself.

* `FieldType.encodable_iff`: which contents can be written.
* `FieldType.encodable_iff_decode`: they are those that are read back from their encoding.
* `Arg.Gives`, `Arg.ReadsBack`: the values that an argument gives out, and what is asked of them.
* `ConfigField.given_readsBack`: when it is true of all that a field gives out.
-/

namespace AudioScore

/-! ## Contents that can be written -/

/-- The doubles in a value. -/
def ScalarType.doubles : (τ : ScalarType) → τ.Carrier → List Binary64
  | .float, x => [x]
  | _, _ => []

/-- The doubles in the contents of a field. -/
def FieldType.doubles : (τ : FieldType) → τ.Carrier → List Binary64
  | .scalar τ, x => τ.doubles x
  | .list τ, xs => xs.flatMap τ.doubles

theorem ScalarType.encodable_iff (τ : ScalarType) (x : τ.Carrier) :
    τ.arg.encodable x ↔ ∀ y ∈ τ.doubles x, y.isFinite := by
  cases τ with
  | float =>
    have hsingle : (∀ y ∈ [x], Binary64.isFinite y) ↔ Binary64.isFinite x :=
      List.forall_mem_singleton
    exact hsingle.symm
  | _ => exact iff_of_true rfl fun y hy => absurd hy List.not_mem_nil

/-- Contents can be written exactly if all doubles in them are finite. -/
theorem FieldType.encodable_iff (τ : FieldType) (x : τ.Carrier) :
    τ.arg.encodable x ↔ ∀ y ∈ τ.doubles x, y.isFinite := by
  cases τ with
  | scalar τ => exact τ.encodable_iff x
  | list τ =>
    have hall : (FieldType.list τ).arg.encodable x ↔ ∀ y ∈ x, τ.arg.encodable y := List.all_eq_true
    rw [hall, FieldType.doubles, List.forall_mem_flatMap]
    exact forall₂_congr fun y _ => τ.encodable_iff y

/-- Contents can be written exactly if their encoding is accepted and stands for them. -/
theorem FieldType.encodable_iff_decode (τ : FieldType) (x : τ.Carrier) :
    τ.arg.encodable x ↔
      τ.arg.accepts (τ.arg.encode x).json ∧ τ.arg.decode (τ.arg.encode x).json = .ok x := by
  constructor
  · intro hx
    exact ⟨τ.faithful_arg.accepts_encode x hx, τ.faithful_arg.decode_encode x hx⟩
  · rintro ⟨-, hdecode⟩
    exact τ.keeping_arg.encodable hdecode

/-! ## Values that are given out -/

namespace Arg

variable {α : Type} {a : Arg α} {x : α}

theorem write_of_encodable (hx : a.type.encodable x) : a.write x = .ok (a.type.encode x) := by
  rw [write, check, if_pos hx]
  rfl

theorem write_of_not_encodable (hx : ¬ a.type.encodable x) :
    a.write x = .error (.nonFinite a.name) := by
  rw [write, check, if_neg hx]
  rfl

/-- Whether a value comes of reading, or of a value that may be missing. -/
def Gives (a : Arg α) (x : α) : Prop :=
  (∃ given, a.read given = .ok x) ∨ ∃ given, a.valueOrDefault given = .ok x

/-- Whether a value can be written, and is read from what is written. -/
def ReadsBack (a : Arg α) (x : α) : Prop := ∃ w, a.write x = .ok w ∧ a.read (some w) = .ok x

theorem gives_default (h : a.default = some x) : a.Gives x := .inl ⟨none, missing_eq_ok_iff.mpr h⟩

/-- Everything that is given out was checked, but for the default. -/
theorem Gives.encodable_or_default (ha : a.type.Keeping) (h : a.Gives x) :
    a.type.encodable x ∨ a.default = some x := by
  rcases h with ⟨given, h⟩ | ⟨given, h⟩
  · obtain ⟨-, hdefault⟩ | ⟨v, -, -, hdecode⟩ := read_cases h
    · exact .inr hdefault
    · exact .inl (ha.encodable hdecode)
  · cases given with
    | none => exact .inr (missing_eq_ok_iff.mp h)
    | some y =>
      rw [valueOrDefault, check] at h
      split at h
      · rename_i hy
        cases h
        exact .inl hy
      · cases h

theorem readsBack_iff (ha : a.type.Faithful) : a.ReadsBack x ↔ a.type.encodable x := by
  constructor
  · rintro ⟨w, hwrite, -⟩
    by_contra hx
    rw [write_of_not_encodable hx] at hwrite
    cases hwrite
  · intro hx
    exact ⟨a.type.encode x, write_of_encodable hx, read_encode ha hx⟩

end Arg

namespace ConfigField

theorem readsBack_iff (f : ConfigField) (x : f.Carrier) :
    f.arg.ReadsBack x ↔ ∀ y ∈ f.type.doubles x, y.isFinite :=
  (Arg.readsBack_iff (a := f.arg) f.type.faithful_arg).trans (f.type.encodable_iff x)

/-- What a field gives out can be written and is read back, or it is a default with a double that is
not finite. Such a default is given out like any other, by reading and in place of a missing value,
and then cannot be written. So all that a field gives out is read back exactly if its default is
finite. -/
theorem given_readsBack (f : ConfigField) :
    (∀ x, f.arg.Gives x → f.arg.ReadsBack x ∨
      f.default = some x ∧ ¬ ∀ y ∈ f.type.doubles x, y.isFinite) ∧
    (∀ d, f.default = some d → (¬ ∀ y ∈ f.type.doubles d, y.isFinite) →
      f.arg.read none = .ok d ∧ f.arg.valueOrDefault none = .ok d ∧
        f.arg.write d = .error (.nonFinite f.name)) ∧
    ((∀ x, f.arg.Gives x → f.arg.ReadsBack x) ↔
      ∀ d, f.default = some d → ∀ y ∈ f.type.doubles d, y.isFinite) := by
  have hgives : ∀ x, f.arg.Gives x → f.arg.ReadsBack x ∨ f.default = some x := fun x hx =>
    (hx.encodable_or_default (a := f.arg) f.type.keeping_arg).imp_left
      (Arg.readsBack_iff (a := f.arg) f.type.faithful_arg).mpr
  refine ⟨fun x hx => ?_, fun d hd hnot => ?_, ?_⟩
  · by_cases hback : f.arg.ReadsBack x
    · exact .inl hback
    · exact .inr ⟨(hgives x hx).resolve_left hback, mt (f.readsBack_iff x).mpr hback⟩
  · have hmissing : f.arg.missing = .ok d := Arg.missing_eq_ok_iff.mpr hd
    have hencodable : ¬ f.arg.type.encodable d := mt (f.type.encodable_iff d).mp hnot
    exact ⟨hmissing, hmissing, Arg.write_of_not_encodable hencodable⟩
  · constructor
    · intro h d hd
      exact (f.readsBack_iff d).mp (h d (Arg.gives_default hd))
    · intro h x hx
      rcases hgives x hx with hback | hdefault
      · exact hback
      · exact (f.readsBack_iff x).mpr (h x hdefault)

/-- Cutoffs of which the last one has no end unless others are given. -/
def openCutoffs : ConfigField :=
  .withDefault "cutoffs" (.list .float) [.zero false, .infinite false]

theorem given_readsBack_cutoffs :
    openCutoffs.arg.ReadsBack [.zero true] ∧
      openCutoffs.arg.valueOrDefault none = .ok [.zero false, .infinite false] ∧
      openCutoffs.arg.write [.zero false, .infinite false] = .error (.nonFinite "cutoffs") := by
  obtain ⟨hback, hdefault, -⟩ := given_readsBack openCutoffs
  have hgives : openCutoffs.arg.Gives [.zero true] := .inr ⟨some [.zero true], rfl⟩
  have hother : openCutoffs.default ≠ some [.zero true] := by
    intro h
    cases h
  have hinfinite : ¬ ∀ y ∈ openCutoffs.type.doubles [.zero false, .infinite false], y.isFinite := by
    decide
  obtain ⟨-, hresolve, hwrite⟩ := hdefault _ rfl hinfinite
  exact ⟨(hback _ hgives).resolve_right fun h => hother h.1, hresolve, hwrite⟩

/-- A level that is not a number unless one is given. -/
def unsetLevel : ConfigField := .withDefault "level" (.scalar .float) .nan

/-- The default is given out unchecked, in place of a missing value and by reading. -/
theorem gives_unwritable :
    unsetLevel.arg.valueOrDefault none = .ok .nan ∧ unsetLevel.arg.read none = .ok .nan ∧
      unsetLevel.arg.write .nan = .error (.nonFinite "level") ∧
      ¬ ∀ (f : ConfigField) x, f.arg.Gives x → f.arg.ReadsBack x := by
  have hresolve : unsetLevel.arg.valueOrDefault none = .ok .nan := rfl
  have hwrite : unsetLevel.arg.write .nan = .error (.nonFinite "level") := rfl
  refine ⟨hresolve, rfl, hwrite, fun h => ?_⟩
  obtain ⟨w, hw, -⟩ := h unsetLevel .nan (.inr ⟨none, hresolve⟩)
  rw [hwrite] at hw
  cases hw

end ConfigField

end AudioScore
