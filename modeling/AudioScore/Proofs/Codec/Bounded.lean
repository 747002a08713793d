import AudioScore.Proofs.Codec.Agreement
import AudioScore.Proofs.Codec.Faithful

/-!
# What was read is not written deeper

A text admits only so many brackets inside each other, and what is written may have another shape
than what was read: a record that came by place is written by name, and an unknown member not at
all. Still no part of what is written stands deeper than the part it was read from, so it fits
wherever that did.

* `Codec.Bounded`: the property.
* `Tree.admits_of_value?`: values of any shape.
* `Codec.Bounded.list`, `Codec.Bounded.dict`, `Codec.Bounded.record`: collections and records.
* `Codec.Bounded.ofText_text`: whole texts.
-/

namespace AudioScore

/-! ## Room for parts -/

namespace Source

variable {src inner : Source}

theorem admits_succ_of_enter (h : src.enter = some inner) (n : Nat) :
    src.Admits (n + 1) ↔ inner.Admits n := by
  obtain ⟨inner', hinner, hadmits⟩ | ⟨hnone, -⟩ := src.enter_cases
  · rw [h, Option.some_inj] at hinner
    rw [hinner]
    exact hadmits n
  · rw [h] at hnone
    cases hnone

theorem admits_succ_of_open? (h : src.open? = .ok inner) (n : Nat) :
    src.Admits (n + 1) ↔ inner.Admits n := by
  refine admits_succ_of_enter ?_ n
  unfold Source.open? at h
  split at h
  · rename_i inner' hinner
    rw [hinner, Except.ok.inj h]
  · cases h

theorem admits_depthItems_iff {xs : List Json} :
    src.Admits (Json.depthItems xs) ↔ ∀ x ∈ xs, src.Admits x.depth := by
  induction xs with
  | nil => simp [Json.depthItems, admits_zero]
  | cons x xs ih => rw [Json.depthItems, admits_max, ih, List.forall_mem_cons]

theorem admits_depthMembers_iff {ms : List (String × Json)} :
    src.Admits (Json.depthMembers ms) ↔ ∀ m ∈ ms, src.Admits m.2.depth := by
  induction ms with
  | nil => simp [Json.depthMembers, admits_zero]
  | cons m ms ih => rw [Json.depthMembers, admits_max, ih, List.forall_mem_cons]

end Source

/-! ## Values -/

namespace Tree

mutual

/-- The value of a tree fits where the tree stands. Members that were replaced by later ones of
the same key only leave room. -/
theorem admits_of_value? {src : Source} {t : Tree} {v : Value} (h : t.value? src = some v) :
    src.Admits v.json.depth := by
  match t with
  | .null | .boolean _ =>
    cases h
    exact src.admits_zero
  | .number n =>
    obtain ⟨n, -, rfl⟩ := Option.map_eq_some_iff.mp h
    exact src.admits_zero
  | .string s =>
    obtain ⟨s, -, rfl⟩ := Option.map_eq_some_iff.mp h
    exact src.admits_zero
  | .array ts =>
    obtain ⟨inner, hinner, h⟩ := Option.bind_eq_some_iff.mp h
    obtain ⟨vs, hvs, h⟩ := Option.bind_eq_some_iff.mp h
    cases h
    have hitems := admits_of_values? hvs
    refine (Source.admits_succ_of_enter hinner _).mpr (Source.admits_depthItems_iff.mpr ?_)
    rwa [List.forall_mem_map]
  | .object ms =>
    obtain ⟨inner, hinner, h⟩ := Option.bind_eq_some_iff.mp h
    obtain ⟨d, hd, h⟩ := Option.bind_eq_some_iff.mp h
    cases h
    have hentries := admits_of_entries? hd fun e he => absurd he List.not_mem_nil
    refine (Source.admits_succ_of_enter hinner _).mpr (Source.admits_depthMembers_iff.mpr ?_)
    intro m hm
    obtain ⟨e, he, rfl⟩ := List.mem_map.mp hm
    exact hentries e he
  | .broken => cases h
termination_by structural t

theorem admits_of_values? {src : Source} {ts : List Tree} {vs : List Value}
    (h : values? src ts = some vs) : ∀ v ∈ vs, src.Admits v.json.depth := by
  match ts with
  | [] =>
    cases h
    exact fun v hv => absurd hv List.not_mem_nil
  | t :: ts =>
    obtain ⟨v, hv, h⟩ := Option.bind_eq_some_iff.mp h
    obtain ⟨rest, hrest, h⟩ := Option.bind_eq_some_iff.mp h
    cases h
    exact List.forall_mem_cons.mpr ⟨admits_of_value? hv, admits_of_values? hrest⟩
termination_by structural ts

theorem admits_of_entries? {src : Source} {d d' : Dict Value} {ms : List (Option String × Tree)}
    (h : entries? src d ms = some d') (hd : ∀ e ∈ d.entries, src.Admits e.2.json.depth) :
    ∀ e ∈ d'.entries, src.Admits e.2.json.depth := by
  match ms with
  | [] =>
    cases h
    exact hd
  | (key, t) :: ms =>
    -- The new entry may replace one, which the bound on all entries so far does not mind.
    obtain ⟨k, v, -, hv, h⟩ := entries?_cons_eq_some_iff.mp h
    refine admits_of_entries? h ?_
    exact Dict.forall_entries_insert (P := fun v : Value => src.Admits v.json.depth) hd k
      (admits_of_value? hv)
termination_by structural ms

end

end Tree

/-! ## Codecs -/

/-- Wherever something is read, there is room for what is written of it. -/
structure Codec.Bounded {α : Type} (c : Codec α) : Prop where
  admits : ∀ {src t a}, c.decode src t = .ok a → src.Admits (c.encode a).depth

namespace Codec.Bounded

variable {α β : Type}

theorem of_flat {c : Codec α} (h : ∀ a, (c.encode a).depth = 0) : c.Bounded where
  admits {src _ a} _ := by
    rw [h a]
    exact src.admits_zero

theorem string : Codec.string.Bounded := of_flat fun _ => rfl

theorem int64 : Codec.int64.Bounded := of_flat fun _ => rfl

theorem wireEnum [WireEnum α] : (Codec.wireEnum : Codec α).Bounded := of_flat fun _ => rfl

theorem value : Codec.value.Bounded where
  admits {src t v} h := by
    rw [value_decode] at h
    split at h
    · rename_i v' hv
      cases h
      exact Tree.admits_of_value? hv
    · cases h

theorem map {c : Codec α} (hc : c.Bounded) {there : α → β} {back : β → α}
    (h : ∀ a, back (there a) = a) : (c.map there back).Bounded where
  admits {src t b} hb := by
    obtain ⟨a, ha, rfl⟩ := Except.map_eq_ok.mp hb
    change src.Admits (c.encode (back (there a))).depth
    rw [h a]
    exact hc.admits ha

theorem optional {c : Codec α} (hc : c.Bounded) : c.optional.Bounded where
  admits {src t a} ha := by
    by_cases hnull : t = .null
    · subst hnull
      cases ha
      exact src.admits_zero
    · rw [Agrees.optional_decode c src hnull] at ha
      obtain ⟨b, hb, rfl⟩ := Except.map_eq_ok.mp ha
      exact hc.admits hb

theorem admits_of_mapM {c : Codec α} (hc : c.Bounded) {src : Source} {ts : List Tree}
    {xs : List α} (h : ts.mapM (c.decode src) = .ok xs) :
    ∀ x ∈ xs, src.Admits (c.encode x).depth := by
  have hitems := Except.mapM_eq_ok.mp h
  induction hitems with
  | nil => exact fun x hx => absurd hx List.not_mem_nil
  | cons hx hxs ih =>
    exact List.forall_mem_cons.mpr ⟨hc.admits hx, ih (Except.mapM_eq_ok.mpr hxs)⟩

theorem list {c : Codec α} (hc : c.Bounded) : c.list.Bounded where
  admits {src t xs} hxs := by
    cases t with
    | array ts =>
      obtain ⟨inner, hopen, h⟩ := Except.bind_eq_ok.mp hxs
      refine (Source.admits_succ_of_open? hopen _).mpr (Source.admits_depthItems_iff.mpr ?_)
      rw [List.forall_mem_map]
      exact hc.admits_of_mapM h
    | _ => cases hxs

theorem admits_of_entries {c : Codec α} (hc : c.Bounded) {src : Source} {d d' : Dict α}
    {ms : List (Option String × Tree)} (h : c.entries src d ms = .ok d')
    (hd : ∀ e ∈ d.entries, src.Admits (c.encode e.2).depth) :
    ∀ e ∈ d'.entries, src.Admits (c.encode e.2).depth := by
  induction ms generalizing d with
  | nil =>
    cases h
    exact hd
  | cons m ms ih =>
    obtain ⟨k, a, -, ha, h⟩ := Agrees.entries_cons_eq_ok_iff.mp h
    refine ih h ?_
    exact Dict.forall_entries_insert (P := fun a => src.Admits (c.encode a).depth) hd k
      (hc.admits ha)

theorem dict {c : Codec α} (hc : c.Bounded) : c.dict.Bounded where
  admits {src t d} hd := by
    cases t with
    | object ms =>
      obtain ⟨inner, hopen, h⟩ := Except.bind_eq_ok.mp hd
      have hentries := hc.admits_of_entries h fun e he => absurd he List.not_mem_nil
      refine (Source.admits_succ_of_open? hopen _).mpr (Source.admits_depthMembers_iff.mpr ?_)
      intro m hm
      obtain ⟨e, he, rfl⟩ := List.mem_map.mp hm
      exact hentries e he
    | _ => cases hd

end Codec.Bounded

/-! ## Records -/

/-- What a field reads is bounded, and what its absence stands for is not written. -/
structure Field.Bounded {α : Type} (f : Field α) : Prop where
  codec : f.codec.Bounded
  omits_of_absent : ∀ a, f.absent = some a → f.omits a

namespace Field.Bounded

variable {α : Type} {c : Codec α} {f : Field α}

theorem required (name : String) (hc : c.Bounded) : (Field.required name c).Bounded where
  codec := hc
  omits_of_absent a h := by cases h

theorem optional (name : String) (hc : c.Bounded) : (Field.optional name c).Bounded where
  codec := hc.optional
  omits_of_absent a h := by
    cases h
    rfl

theorem list (name : String) (hc : c.Bounded) : (Field.list name c).Bounded where
  codec := hc.list
  omits_of_absent a h := by
    cases h
    rfl

theorem dict (name : String) (hc : c.Bounded) : (Field.dict name c).Bounded where
  codec := hc.dict
  omits_of_absent a h := by
    cases h
    rfl

theorem admits_of_takes (hf : f.Bounded) {src : Source} {ts : List Tree} {a : α}
    (h : f.Takes src ts a) (hwritten : ¬ f.omits a) : src.Admits (f.codec.encode a).depth := by
  match ts with
  -- What stands for absence is left out, so a content that is written was read from a tree.
  | [] => exact absurd (hf.omits_of_absent a h) hwritten
  | [t] => exact hf.codec.admits h
  | _ :: _ :: _ => cases h

end Field.Bounded

namespace Fields

variable {types : List Type}

theorem admits_members_cons {α : Type} {src : Source} {f : Field α} {fs : Row Field types} {a : α}
    {rest : Contents types} (ha : ¬ f.omits a → src.Admits (f.codec.encode a).depth)
    (hrest : src.Admits (Json.depthMembers (members fs rest))) :
    src.Admits (Json.depthMembers (members (Row.cons f fs) (Row.cons a rest))) := by
  rw [members_cons]
  split
  · exact hrest
  · rename_i hwritten
    exact Source.admits_max.mpr ⟨ha hwritten, hrest⟩

theorem admits_of_takes {fields : Row Field types} (hfields : Every Field.Bounded fields)
    {src : Source} {ms : List (Option String × Tree)} {contents : Contents types}
    (h : Takes src ms fields contents) :
    src.Admits (Json.depthMembers (members fields contents)) := by
  induction types with
  | nil => exact src.admits_zero
  | cons α types ih =>
    obtain ⟨f, fs, rfl⟩ := fields.exists_cons
    obtain ⟨a, rest, rfl⟩ := contents.exists_cons
    exact admits_members_cons (hfields.1.admits_of_takes h.1) (ih hfields.2 h.2)

theorem admits_of_takesItems {fields : Row Field types} (hfields : Every Field.Bounded fields)
    {src : Source} {ts : List Tree} {contents : Contents types}
    (h : TakesItems src fields ts contents) :
    src.Admits (Json.depthMembers (members fields contents)) := by
  induction types generalizing ts with
  | nil => exact src.admits_zero
  | cons α types ih =>
    obtain ⟨f, fs, rfl⟩ := fields.exists_cons
    obtain ⟨a, rest, rfl⟩ := contents.exists_cons
    exact admits_members_cons (hfields.1.admits_of_takes h.1) (ih hfields.2 h.2)

end Fields

theorem Codec.Bounded.record {ρ : Type} {fmt : RecordFormat ρ}
    (hnames : (Fields.names fmt.fields).Nodup) (hfields : Fields.Every Field.Bounded fmt.fields)
    (hparts : ∀ contents, fmt.parts (fmt.make contents) = contents) :
    (Codec.record fmt).Bounded where
  admits {src t r} hr := by
    -- Whether an object or an array was read, the members that are written hold the same contents.
    have hroom : ∃ inner contents, src.open? = .ok inner ∧ fmt.make contents = r ∧
        inner.Admits (Json.depthMembers (Fields.members fmt.fields contents)) := by
      cases t with
      | array ts =>
        obtain ⟨inner, contents, hopen, htakes, hmake⟩ := record_array_eq_ok_iff.mp hr
        exact ⟨inner, contents, hopen, hmake, Fields.admits_of_takesItems hfields htakes⟩
      | object ms =>
        obtain ⟨inner, contents, hopen, -, htakes, hmake⟩ :=
          (record_object_eq_ok_iff hnames).mp hr
        exact ⟨inner, contents, hopen, hmake, Fields.admits_of_takes hfields htakes⟩
      | _ => cases hr
    obtain ⟨inner, contents, hopen, rfl, hadmits⟩ := hroom
    have hencode : (Codec.record fmt).encode (fmt.make contents)
        = .object (Fields.members fmt.fields (fmt.parts (fmt.make contents))) := rfl
    rw [hencode, hparts]
    exact (Source.admits_succ_of_open? hopen _).mpr hadmits

/-! ## Whole documents -/

/-- What was read from some text is read from its own text, in either layout. -/
theorem Codec.Bounded.ofText_text {α : Type} {c : Codec α} (hc : c.Bounded) (hf : c.Faithful)
    {text : String} {a : α} (h : c.ofText text = .ok a) (layout : Layout) :
    c.ofText (c.text layout a) = .ok a := by
  obtain ⟨-, hread⟩ := Codec.ofText_eq_ok_iff.mp h
  have hdepth : (c.toValue a).json.depth ≤ 127 := by
    rw [Codec.toValue, (hf.distinct a).depth_toValue]
    exact hc.admits hread
  rw [hf.ofText_text, if_pos hdepth]

end AudioScore
