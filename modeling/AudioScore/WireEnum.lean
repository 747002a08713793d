/-!
# Enumerations with a fixed text

A wire enumeration gives each of its values one string, by which documents refer to it.

* `ofWire?_wire`: the string of a value reads back as that value.
* `ofWire?_eq_ok_iff`: no other string does.
-/

namespace AudioScore

/-- A string that names no value of an enumeration. -/
structure UnrecognizedName where
  /-- The name of the enumeration. -/
  typeName : String
  /-- The string that was found. -/
  value : String
deriving DecidableEq

/-- What is reported about an unrecognized string. -/
def UnrecognizedName.message (e : UnrecognizedName) : String :=
  "unrecognized " ++ e.typeName ++ " value '" ++ e.value ++ "'"

/-- A finite type whose values have distinct strings in documents. -/
class WireEnum (α : Type) where
  /-- The name of the type. -/
  typeName : String
  /-- Every value, in the order of declaration. -/
  values : List α
  /-- The name of a value. -/
  name : α → String
  /-- The string of a value in documents. -/
  wire : α → String
  mem_values : ∀ a, a ∈ values
  wire_injective : ∀ a b, wire a = wire b → a = b

namespace WireEnum

variable {α : Type} [WireEnum α]

/-- The value that a string names. -/
def ofWire? (s : String) : Except UnrecognizedName α :=
  match (values : List α).find? (fun a => wire a == s) with
  | some a => .ok a
  | none => .error ⟨typeName α, s⟩

theorem ofWire?_wire (a : α) : ofWire? (wire a) = .ok a := by
  unfold ofWire?
  cases h : (values : List α).find? (fun b => wire b == wire a) with
  | none =>
    have := List.find?_eq_none.mp h a (mem_values a)
    simp at this
  | some b =>
    have hb := List.find?_some h
    simp only [beq_iff_eq] at hb
    rw [wire_injective b a hb]

theorem ofWire?_eq_ok_iff {s : String} {a : α} : ofWire? s = .ok a ↔ s = wire a := by
  constructor
  · intro h
    unfold ofWire? at h
    cases hf : (values : List α).find? (fun b => wire b == s) with
    | none => rw [hf] at h; cases h
    | some b =>
      rw [hf] at h
      cases h
      have := List.find?_some hf
      simp only [beq_iff_eq] at this
      exact this.symm
  · rintro rfl
    exact ofWire?_wire a

theorem ofWire?_eq_error {s : String} {e : UnrecognizedName}
    (h : (ofWire? s : Except UnrecognizedName α) = .error e) : e = ⟨typeName α, s⟩ := by
  unfold ofWire? at h
  split at h
  · cases h
  · cases h
    rfl

end WireEnum

end AudioScore
