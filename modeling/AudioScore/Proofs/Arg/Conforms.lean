import AudioScore.Proofs.Arg.Kept

/-!
# What conforms to a kind

The declared kind of an argument tells which values it reads. A value of another form is refused for
its kind. One that conforms is read, except that a string may name no value of an enumeration.

* `ScalarKind.conforms`, `ArgKind.conforms`: which documents have the form of a kind.
* `FieldType.kinded_arg`: the types of config fields go by their kinds.
* `ArgSpec.Governs`: what a published argument says about reading, and `Arg.governs_read`.
* `ArgKind.nullFree_of_conforms`: nothing that conforms is or holds `null`.
-/

namespace AudioScore

/-! ## Kinds -/

/-- Whether a document has the form of a kind. -/
def ScalarKind.conforms : ScalarKind → Json → Bool
  | .string, .string _ => true
  | .enum, .string _ => true
  | .int, .number (.integer n _) => -2 ^ (63 : Nat) ≤ n ∧ n < 2 ^ (63 : Nat)
  | .time, .number (.integer n _) => -2 ^ (63 : Nat) ≤ n ∧ n < 2 ^ (63 : Nat)
  | .float, .number _ => true
  | .bool, .boolean _ => true
  | _, _ => false

/-- Whether a document has the form of a kind. Of an array, all items have it. -/
def ArgKind.conforms : ArgKind → Json → Bool
  | .scalar kind, j => kind.conforms j
  | .list kind, .array items => items.all kind.conforms
  | .list _, _ => false

/-- Whether strings of this kind name values of an enumeration. -/
def ArgKind.isEnum : ArgKind → Bool
  | .scalar kind => kind = .enum
  | .list kind => kind = .enum

theorem ScalarKind.not_conforms_null (kind : ScalarKind) : kind.conforms .null = false := by
  cases kind <;> rfl

theorem ArgKind.not_conforms_null (kind : ArgKind) : kind.conforms .null = false := by
  cases kind with
  | scalar kind => exact kind.not_conforms_null
  | list kind => rfl

theorem ArgKind.ne_null_of_conforms {kind : ArgKind} {v : Value} (h : kind.conforms v.json) :
    v ≠ .null := by
  rintro rfl
  rw [show (Value.null).json = .null from rfl, not_conforms_null] at h
  cases h

/-! ## Documents without `null` -/

namespace Json

mutual

/-- Whether a document neither is nor holds `null`, at any depth. -/
def nullFree : Json → Bool
  | .null => false
  | .array items => nullFreeItems items
  | .object members => nullFreeMembers members
  | _ => true
termination_by structural x => x

/-- Whether all items are free of `null`. -/
def nullFreeItems : List Json → Bool
  | [] => true
  | x :: xs => x.nullFree && nullFreeItems xs
termination_by structural x => x

/-- Whether the values of all members are free of `null`. -/
def nullFreeMembers : List (String × Json) → Bool
  | [] => true
  | (_, x) :: ms => x.nullFree && nullFreeMembers ms
termination_by structural x => x

end

theorem nullFreeItems_iff {xs : List Json} : nullFreeItems xs ↔ ∀ x ∈ xs, x.nullFree := by
  induction xs with
  | nil => simp [nullFreeItems]
  | cons x xs ih => simp [nullFreeItems, ih]

end Json

theorem ScalarKind.nullFree_of_conforms {kind : ScalarKind} {j : Json} (h : kind.conforms j) :
    j.nullFree := by
  cases j with
  | null =>
    rw [kind.not_conforms_null] at h
    cases h
  | array items => cases kind <;> cases h
  | object members => cases kind <;> cases h
  | _ => rfl

theorem ArgKind.nullFree_of_conforms {kind : ArgKind} {j : Json} (h : kind.conforms j) :
    j.nullFree := by
  cases kind with
  | scalar kind => exact ScalarKind.nullFree_of_conforms h
  | list kind =>
    cases j with
    | array items =>
      have hitems : ∀ x ∈ items, kind.conforms x := List.all_eq_true.mp h
      exact Json.nullFreeItems_iff.mpr fun x hx => ScalarKind.nullFree_of_conforms (hitems x hx)
    | _ => cases h

/-! ## Types -/

/-- A type that reads what conforms to its kind. Of that only a name may be refused, and nothing else
is accepted. -/
structure ArgType.Kinded {α : Type} (t : ArgType α) : Prop where
  accepts_eq : ∀ j, t.accepts j = t.kind.conforms j
  decode_cases : ∀ j, t.kind.conforms j → (∃ x, t.decode j = .ok x) ∨
    t.kind.isEnum ∧ ∃ e, t.decode j = .error (.name e)

/-- The same for a type whose values may stand in lists. -/
structure ScalarArg.Kinded {α : Type} (s : ScalarArg α) : Prop where
  accepts_eq : ∀ j, s.accepts j = s.kind.conforms j
  decode_cases : ∀ j, s.kind.conforms j → (∃ x, s.decode j = .ok x) ∨
    s.kind = .enum ∧ ∃ e, s.decode j = .error (.name e)

namespace ScalarArg

theorem string_kinded : string.Kinded where
  accepts_eq j := by cases j <;> rfl
  decode_cases j h := by
    cases j with
    | string s => exact .inl ⟨s, rfl⟩
    | _ => cases h

theorem bool_kinded : bool.Kinded where
  accepts_eq j := by cases j <;> rfl
  decode_cases j h := by
    cases j with
    | boolean b => exact .inl ⟨b, rfl⟩
    | _ => cases h

theorem float_kinded : float.Kinded where
  accepts_eq j := by cases j <;> rfl
  decode_cases j h := by
    cases j with
    | number n => exact .inl ⟨n.toBinary64, rfl⟩
    | _ => cases h

/-- A document is a 64-bit integer exactly if it conforms to the kind of one. -/
theorem isSome_int64? (j : Json) : (int64? j).isSome = ScalarKind.int.conforms j := by
  cases j with
  | number a =>
    cases a with
    | integer n inRange =>
      have hleft : (int64? (.number (.integer n inRange))).isSome ↔ n < 2 ^ (63 : Nat) := by
        unfold int64? Number.int64?
        dsimp only
        split
        · rename_i hlt
          exact iff_of_true rfl hlt
        · rename_i hge
          exact iff_of_false Bool.false_ne_true hge
      have hright : ScalarKind.int.conforms (.number (.integer n inRange))
          ↔ n < 2 ^ (63 : Nat) := by
        unfold ScalarKind.conforms
        rw [decide_eq_true_iff]
        exact and_iff_right inRange.1
      exact Bool.eq_iff_iff.mpr (hleft.trans hright.symm)
    | float x => rfl
  | _ => rfl

theorem time_conforms (j : Json) : ScalarKind.time.conforms j = ScalarKind.int.conforms j := by
  cases j with
  | number a => cases a <;> rfl
  | _ => rfl

theorem int_kinded : int.Kinded where
  accepts_eq := isSome_int64?
  decode_cases j h := by
    obtain ⟨n, hn⟩ := Option.isSome_iff_exists.mp ((isSome_int64? j).trans h)
    refine .inl ⟨n, ?_⟩
    unfold int
    dsimp only
    rw [hn]

theorem time_kinded : time.Kinded where
  accepts_eq j := (isSome_int64? j).trans (time_conforms j).symm
  decode_cases j h := by
    have hint : ScalarKind.int.conforms j := (time_conforms j).symm.trans h
    obtain ⟨n, hn⟩ := Option.isSome_iff_exists.mp ((isSome_int64? j).trans hint)
    refine .inl ⟨⟨n⟩, ?_⟩
    unfold time
    dsimp only
    rw [hn]

theorem enum_kinded {α : Type} [WireEnum α] : (enum : ScalarArg α).Kinded where
  accepts_eq j := by cases j <;> rfl
  decode_cases j h := by
    cases j with
    | string s =>
      unfold enum
      dsimp only
      cases (WireEnum.ofWire? s : Except UnrecognizedName α) with
      | ok a => exact .inl ⟨a, rfl⟩
      | error e => exact .inr ⟨rfl, e, rfl⟩
    | _ => cases h

end ScalarArg

namespace ArgType

variable {α : Type} {s : ScalarArg α}

theorem scalar_kinded (hs : s.Kinded) : (scalar s).Kinded where
  accepts_eq := hs.accepts_eq
  decode_cases j h := (hs.decode_cases j h).imp_right fun ⟨henum, he⟩ => ⟨decide_eq_true henum, he⟩

/-- Of items that all conform, the first name that is refused is reported. -/
theorem mapM_decode_cases (hs : s.Kinded) {items : List Json} (h : ∀ j ∈ items, s.kind.conforms j) :
    (∃ xs, items.mapM s.decode = .ok xs) ∨
      s.kind = .enum ∧ ∃ e, items.mapM s.decode = .error (.name e) := by
  induction items with
  | nil => exact .inl ⟨[], rfl⟩
  | cons j items ih =>
    obtain ⟨hj, hitems⟩ := List.forall_mem_cons.mp h
    rw [List.mapM_cons]
    obtain ⟨x, hx⟩ | ⟨henum, e, he⟩ := hs.decode_cases j hj
    · rw [hx]
      obtain ⟨xs, hxs⟩ | ⟨henum, e, he⟩ := ih hitems
      · exact .inl ⟨x :: xs, by rw [hxs]; rfl⟩
      · exact .inr ⟨henum, e, by rw [he]; rfl⟩
    · exact .inr ⟨henum, e, by rw [he]; rfl⟩

theorem list_kinded (hs : s.Kinded) : (list s).Kinded where
  accepts_eq j := by
    cases j with
    | array items => exact congrArg items.all (funext hs.accepts_eq)
    | _ => rfl
  decode_cases j h := by
    cases j with
    | array items =>
      refine (mapM_decode_cases hs (List.all_eq_true.mp h)).imp_right ?_
      exact fun ⟨henum, he⟩ => ⟨decide_eq_true henum, he⟩
    | _ => cases h

end ArgType

theorem ScalarType.kinded_arg (τ : ScalarType) : τ.arg.Kinded := by
  cases τ with
  | string => exact ScalarArg.string_kinded
  | int => exact ScalarArg.int_kinded
  | float => exact ScalarArg.float_kinded
  | bool => exact ScalarArg.bool_kinded
  | time => exact ScalarArg.time_kinded
  | enum α names => exact ScalarArg.enum_kinded

theorem FieldType.kinded_arg (τ : FieldType) : τ.arg.Kinded := by
  cases τ with
  | scalar τ => exact ArgType.scalar_kinded τ.kinded_arg
  | list τ => exact ArgType.list_kinded τ.kinded_arg

/-- What is written of contents that can be written has the declared form. -/
theorem FieldType.conforms_encode (τ : FieldType) {x : τ.Carrier} (hx : τ.arg.encodable x) :
    τ.arg.kind.conforms (τ.arg.encode x).json :=
  (τ.kinded_arg.accepts_eq _).symm.trans (τ.faithful_arg.accepts_encode x hx)

/-! ## Arguments -/

/-- What is published about an argument tells what comes of reading it. An absent value or `null` is
an error, or stands for the default. Any other value is refused for its kind exactly if it does not
conform, and is read otherwise, unless it names nothing. -/
structure ArgSpec.Governs {β : Type} (a : ArgSpec) (read : Option Value → Except MappingError β) :
    Prop where
  required : a.required → ∀ given, given = none ∨ given = some .null →
    read given = .error (.missingArgument a.name)
  optional : ¬ a.required → ∃ d y, a.default = some d ∧ read (some d) = .ok y ∧
    ∀ given, given = none ∨ given = some .null → read given = .ok y
  mismatch : ∀ v, v ≠ .null →
    (read (some v) = .error (.kindMismatch a.name a.kind v.json.kind) ↔ ¬ a.kind.conforms v.json)
  conforming : ∀ v, a.kind.conforms v.json → (∃ y, read (some v) = .ok y) ∨
    a.kind.isEnum ∧ ∃ e, read (some v) = .error (.unrecognizedName a.name e)

/-- What is done with a value that was read does not matter. -/
theorem ArgSpec.Governs.map {β γ : Type} {a : ArgSpec} {read : Option Value → Except MappingError β}
    (h : a.Governs read) (f : β → γ) : a.Governs fun given => (read given).map f where
  required hrequired given hgiven := by rw [h.required hrequired given hgiven]; rfl
  optional hoptional := by
    obtain ⟨d, y, hd, hy, hgiven⟩ := h.optional hoptional
    refine ⟨d, f y, hd, by rw [hy]; rfl, fun given habsent => ?_⟩
    rw [hgiven given habsent]
    rfl
  mismatch v hv := Except.map_eq_error.trans (h.mismatch v hv)
  conforming v hv := by
    obtain ⟨y, hy⟩ | ⟨henum, e, he⟩ := h.conforming v hv
    · exact .inl ⟨f y, Except.map_eq_ok.mpr ⟨y, hy, rfl⟩⟩
    · exact .inr ⟨henum, e, Except.map_eq_error.mpr he⟩

namespace Arg

variable {α : Type} {a : Arg α}

theorem governs_read (ha : a.type.Kinded) (hf : a.type.Faithful)
    (hdefault : ∀ d, a.default = some d → a.type.encodable d) : a.spec.Governs a.read where
  required hrequired given hgiven := by
    exact (read_absent hgiven).trans (missing_of_none (Option.isNone_iff_eq_none.mp hrequired))
  optional hoptional := by
    obtain ⟨d, hd⟩ := Option.ne_none_iff_exists'.mp (mt Option.isNone_iff_eq_none.mpr hoptional)
    refine ⟨a.type.encode d, d, congrArg (Option.map _) hd, read_encode hf (hdefault d hd), ?_⟩
    exact fun given hgiven => (read_absent hgiven).trans (missing_eq_ok_iff.mpr hd)
  mismatch v hv := by
    rw [read_present hv, readValue, ha.accepts_eq]
    by_cases hconforms : a.type.kind.conforms v.json
    · rw [if_pos hconforms]
      refine iff_of_false (fun herror => ?_) (not_not_intro hconforms)
      obtain ⟨x, hx⟩ | ⟨-, e, he⟩ := ha.decode_cases v.json hconforms
      · rw [hx] at herror
        cases herror
      · rw [he] at herror
        cases herror
    · rw [if_neg hconforms]
      exact iff_of_true rfl hconforms
  conforming v hconforms := by
    have hv : v ≠ .null := ArgKind.ne_null_of_conforms hconforms
    have haccepts : a.type.accepts v.json := (ha.accepts_eq _).trans hconforms
    rw [read_present hv, readValue, if_pos haccepts]
    obtain ⟨x, hx⟩ | ⟨henum, e, he⟩ := ha.decode_cases v.json hconforms
    · exact .inl ⟨x, Except.mapError_eq_ok.mpr hx⟩
    · exact .inr ⟨henum, e, by rw [he]; rfl⟩

end Arg

end AudioScore
