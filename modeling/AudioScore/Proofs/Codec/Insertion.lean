import AudioScore.Proofs.Codec.Agreement
import AudioScore.Proofs.Json.Spelling
import Mathlib.Data.List.Nodup

/-!
# Members that stand for nothing

In the text of a record, a member whose key names no field is passed over. So two texts are read
alike of which one has such a member more, however deep the record stands in the text, and whatever
white space there is before and after the member.

* `Spelling.Respaced`: members that differ in nothing but white space.
* `Outline`: where records stand in texts of a form.
* `Outline.Inserted`: texts of which one has a member more in one of these records.
* `Codec.Alike`: trees that are read alike.
* `Codec.Ignores`: codecs that read such texts alike.
-/

namespace AudioScore

open Spelling

/-! ## White space -/

namespace Spelling

/-- The second member is the first one, with any white space around its key and its value. -/
def Respaced (m m' : Key × Spelling × Blank) : Prop :=
  m.1.strokes = m'.1.strokes ∧ m.2.1 = m'.2.1

theorem Respaced.refl (m : Key × Spelling × Blank) : Respaced m m := ⟨rfl, rfl⟩

/-- White space is no part of what is spelled. -/
theorem tree_object_of_respaced {ms ms' : List (Key × Spelling × Blank)}
    (h : List.Forall₂ Respaced ms ms') (inside : Blank) :
    (object inside ms).tree = (object inside ms').tree := by
  rw [tree, tree, memberTrees_eq_map, memberTrees_eq_map]
  congr 1
  induction h with
  | nil => rfl
  | cons hm _ ih => rw [List.map_cons, List.map_cons, ih, Key.string?, Key.string?, hm.1, hm.2]

end Spelling

/-! ## Outlines -/

/-- Where records stand in texts of a form, and the names of their fields. -/
inductive Outline where
  /-- Nowhere. -/
  | plain
  /-- In the items of an array. -/
  | list (item : Outline)
  /-- In the values of an object with any keys. -/
  | dict (value : Outline)
  /-- The text itself is a record, and its fields may hold more. -/
  | record (fields : List (String × Outline))

/-- The second text is the first one with a member more, at any place in one of its records. The key
of the member names no field of the record. -/
inductive Outline.Inserted : Outline → Spelling → Spelling → Prop where
  /-- The member may stand anywhere in the white space between two others, which it splits, or bring
  white space of its own. -/
  | member {fields : List (String × Outline)}
      {before before' after after' : List (Key × Spelling × Blank)} {key : Key} {name : String}
      (hkey : key.string? = some name) (hname : name ∉ fields.map Prod.fst)
      (hbefore : List.Forall₂ Respaced before before')
      (hafter : List.Forall₂ Respaced after after') (value : Spelling)
      (inside inside' trail : Blank) :
      Inserted (.record fields) (.object inside (before ++ after))
        (.object inside' (before' ++ (key, value, trail) :: after'))
  /-- In a field of a record. -/
  | field {fields : List (String × Outline)} {before after : List (Key × Spelling × Blank)}
      {key : Key} {name : String} {o : Outline} {x x' : Spelling} (hkey : key.string? = some name)
      (hfield : (name, o) ∈ fields) (h : Inserted o x x') (inside trail : Blank) :
      Inserted (.record fields) (.object inside (before ++ (key, x, trail) :: after))
        (.object inside (before ++ (key, x', trail) :: after))
  /-- In a field of a record that is written as an array of its fields. -/
  | place {fields : List (String × Outline)} {before after : List (Blank × Spelling × Blank)}
      {name : String} {o : Outline} {x x' : Spelling}
      (hfield : fields[before.length]? = some (name, o)) (h : Inserted o x x')
      (inside lead trail : Blank) :
      Inserted (.record fields) (.array inside (before ++ (lead, x, trail) :: after))
        (.array inside (before ++ (lead, x', trail) :: after))
  /-- In an item of an array. -/
  | item {o : Outline} {before after : List (Blank × Spelling × Blank)} {x x' : Spelling}
      (h : Inserted o x x') (inside lead trail : Blank) :
      Inserted (.list o) (.array inside (before ++ (lead, x, trail) :: after))
        (.array inside (before ++ (lead, x', trail) :: after))
  /-- In a value of an object with any keys. -/
  | value {o : Outline} {before after : List (Key × Spelling × Blank)} {x x' : Spelling}
      (h : Inserted o x x') (key : Key) (inside trail : Blank) :
      Inserted (.dict o) (.object inside (before ++ (key, x, trail) :: after))
        (.object inside (before ++ (key, x', trail) :: after))

/-! ## Trees that are read alike -/

/-- Whatever is read from the one tree is read from the other. -/
def Codec.Alike {α : Type} (c : Codec α) (t t' : Tree) : Prop :=
  ∀ src a, c.decode src t = .ok a ↔ c.decode src t' = .ok a

/-- Lists that differ in one item. -/
theorem forall₂_append_cons {α : Type} {R : α → α → Prop} (hrefl : ∀ a, R a a) {a b : α} (h : R a b)
    (before after : List α) : List.Forall₂ R (before ++ a :: after) (before ++ b :: after) := by
  induction before with
  | nil => exact .cons h (List.forall₂_same.mpr fun a _ => hrefl a)
  | cons c before ih => exact .cons (hrefl c) ih

namespace Codec.Alike

variable {α : Type} {c : Codec α}

theorem refl (c : Codec α) (t : Tree) : c.Alike t t := fun _ _ => Iff.rfl

theorem array {ts ts' : List Tree} (h : List.Forall₂ c.Alike ts ts') :
    c.list.Alike (.array ts) (.array ts') := by
  intro src as
  have hdecode : ∀ ts, c.list.decode src (.array ts) = src.open? >>= fun inner =>
      ts.mapM (c.decode inner) := fun _ => rfl
  rw [hdecode, hdecode, Except.bind_eq_ok, Except.bind_eq_ok]
  refine exists_congr fun inner => and_congr_right' ?_
  rw [Except.mapM_eq_ok, Except.mapM_eq_ok]
  induction h generalizing as with
  | nil => exact Iff.rfl
  | cons h hs ih => simp only [List.forall₂_cons_left_iff, h inner, ih]

/-- Objects with the same keys, and with values that are read alike. -/
theorem object {ms ms' : List (Option String × Tree)}
    (h : List.Forall₂ (fun m m' => m.1 = m'.1 ∧ c.Alike m.2 m'.2) ms ms') :
    c.dict.Alike (.object ms) (.object ms') := by
  intro src d'
  have hdecode : ∀ ms, c.dict.decode src (.object ms) = src.open? >>= fun inner =>
      c.entries inner .empty ms := fun _ => rfl
  rw [hdecode, hdecode, Except.bind_eq_ok, Except.bind_eq_ok]
  refine exists_congr fun inner => and_congr_right' ?_
  generalize Dict.empty = d
  induction h generalizing d with
  | nil => exact Iff.rfl
  | @cons m m' ms ms' hm hms ih =>
    obtain ⟨key, t⟩ := m
    obtain ⟨key', t'⟩ := m'
    obtain ⟨rfl, ht⟩ : key = key' ∧ c.Alike t t' := hm
    rw [Agrees.entries_cons_eq_ok_iff, Agrees.entries_cons_eq_ok_iff]
    simp only [ht inner, ih]

end Codec.Alike

theorem Field.takes_congr {α : Type} {f : Field α} {ts ts' : List Tree}
    (h : List.Forall₂ f.codec.Alike ts ts') (src : Source) (a : α) :
    f.Takes src ts a ↔ f.Takes src ts' a := by
  cases h with
  | nil => exact Iff.rfl
  | cons ht hts =>
    cases hts with
    | nil => exact ht src a
    | cons => exact Iff.rfl

/-- Trees under one key are read alike if the members are. -/
theorem Tree.forall₂_under {α : Type} {c : Codec α} {key : String}
    {ms ms' : List (Option String × Tree)}
    (h : List.Forall₂ (fun m m' => m.1 = m'.1 ∧ (m.1 = some key → c.Alike m.2 m'.2)) ms ms') :
    List.Forall₂ c.Alike (under key ms) (under key ms') := by
  induction h with
  | nil => exact .nil
  | @cons m m' ms ms' hm hms ih =>
    obtain ⟨k, t⟩ := m
    obtain ⟨k', t'⟩ := m'
    obtain ⟨rfl, ht⟩ : k = k' ∧ (k = some key → c.Alike t t') := hm
    by_cases hkey : k = some key
    · cases hkey
      rw [under_cons_self, under_cons_self]
      exact .cons (ht rfl) ih
    · rw [under_cons_of_ne (m := (k, t)) hkey, under_cons_of_ne (m := (k, t')) hkey]
      exact ih

theorem Fields.takes_congr_under {types : List Type} {fields : Row Field types}
    {ms ms' : List (Option String × Tree)}
    (h : Every (fun f => List.Forall₂ f.codec.Alike (Tree.under f.name ms) (Tree.under f.name ms'))
      fields) (src : Source) (contents : Contents types) :
    Takes src ms fields contents ↔ Takes src ms' fields contents := by
  induction types with
  | nil => exact Iff.rfl
  | cons α types ih =>
    obtain ⟨f, fs, rfl⟩ := fields.exists_cons
    obtain ⟨a, rest, rfl⟩ := contents.exists_cons
    rw [takes_cons, takes_cons, Field.takes_congr h.1, ih h.2]

/-- Of spelled members only the keys decide whether those can be passed over that name no field. -/
theorem passable_memberTrees {names : List String} {ms : List (Key × Spelling × Blank)} :
    Passable names (memberTrees ms) ↔ ∀ m ∈ ms, ∃ name, m.1.string? = some name := by
  rw [memberTrees_eq_map, Passable, List.forall_mem_map]
  refine forall₂_congr fun m _ => exists_congr fun name => and_iff_left fun _ => ?_
  exact m.2.1.intact_tree

/-! ## Codecs that pass members over -/

/-- Texts of which one has a member more in one of the records are read alike. -/
structure Codec.Ignores {α : Type} (c : Codec α) (o : Outline) : Prop where
  alike : ∀ {x x' : Spelling}, o.Inserted x x' → c.Alike x.tree x'.tree

/-- The fields have the names and the records of an outline, and pass members over in them. -/
def Fields.Ignore : {types : List Type} → Row Field types → List (String × Outline) → Prop
  | [], _, [] => True
  | _ :: _, (f, fs), (name, o) :: os => f.name = name ∧ f.codec.Ignores o ∧ Ignore fs os
  | _, _, _ => False

namespace Fields.Ignore

variable {types : List Type} {fields : Row Field types} {os : List (String × Outline)}

theorem names_eq (h : Ignore fields os) : os.map Prod.fst = names fields := by
  induction types generalizing os with
  | nil =>
    cases os with
    | nil => rfl
    | cons o os => cases h
  | cons α types ih =>
    obtain ⟨f, fs, rfl⟩ := fields.exists_cons
    cases os with
    | nil => cases h
    | cons o os =>
      obtain ⟨hname, -, hrest⟩ := h
      rw [List.map_cons, names_cons, ih hrest, ← hname]

theorem every_mem (h : Ignore fields os) :
    Every (fun f => ∃ o, (f.name, o) ∈ os ∧ f.codec.Ignores o) fields := by
  induction types generalizing os with
  | nil => trivial
  | cons α types ih =>
    obtain ⟨f, fs, rfl⟩ := fields.exists_cons
    cases os with
    | nil => cases h
    | cons o os =>
      obtain ⟨name, o⟩ := o
      obtain ⟨rfl, hf, hrest⟩ := h
      refine ⟨⟨o, List.mem_cons_self, hf⟩, (ih hrest).imp ?_⟩
      rintro β g ⟨o', ho', hg⟩
      exact ⟨o', List.mem_cons_of_mem _ ho', hg⟩

/-- Of the items of an array the one in the place of a field may have a member more. -/
theorem takesItems_congr (h : Ignore fields os) {before after : List Tree} {name : String}
    {o : Outline} (ho : os[before.length]? = some (name, o)) {x x' : Spelling} (hx : o.Inserted x x')
    (src : Source) (contents : Contents types) :
    TakesItems src fields (before ++ x.tree :: after) contents
      ↔ TakesItems src fields (before ++ x'.tree :: after) contents := by
  induction types generalizing os before with
  | nil =>
    cases os with
    | nil => cases ho
    | cons o os => cases h
  | cons α types ih =>
    obtain ⟨f, fs, rfl⟩ := fields.exists_cons
    obtain ⟨a, rest, rfl⟩ := contents.exists_cons
    cases os with
    | nil => cases h
    | cons p os =>
      obtain ⟨-, hf, hrest⟩ := h
      rw [takesItems_cons, takesItems_cons]
      cases before with
      | nil =>
        cases ho
        exact and_congr_left' (hf.alike hx src a)
      | cons t before => exact and_congr_right' (ih hrest ho rest)

end Fields.Ignore

namespace Codec.Ignores

variable {α : Type} {c : Codec α} {o : Outline}

/-- Where no records stand, nothing can be inserted. -/
theorem plain (c : Codec α) : c.Ignores .plain := ⟨fun h => nomatch h⟩

theorem list (hc : c.Ignores o) : c.list.Ignores (.list o) := by
  constructor
  intro x x' hx
  cases hx with
  | @item _ before after x x' h inside lead trail =>
    rw [Spelling.tree, Spelling.tree, itemTrees_eq_map, itemTrees_eq_map, List.map_append,
      List.map_append]
    exact .array (forall₂_append_cons (Alike.refl c) (hc.alike h) _ _)

theorem dict (hc : c.Ignores o) : c.dict.Ignores (.dict o) := by
  constructor
  intro x x' hx
  cases hx with
  | @value _ before after x x' h key inside trail =>
    rw [Spelling.tree, Spelling.tree, memberTrees_eq_map, memberTrees_eq_map, List.map_append,
      List.map_append]
    exact .object (forall₂_append_cons (fun m => ⟨rfl, .refl c m.2⟩) ⟨rfl, hc.alike h⟩ _ _)

section Record

variable {ρ : Type} {fmt : RecordFormat ρ} {os : List (String × Outline)}

/-- Objects are read alike as records if all members have keys and the fields take the same from
them. -/
theorem record_object_alike (hnames : (Fields.names fmt.fields).Nodup)
    {ms ms' : List (Key × Spelling × Blank)}
    (hkeys : (∀ m ∈ ms, ∃ name, m.1.string? = some name) ↔
      ∀ m ∈ ms', ∃ name, m.1.string? = some name)
    (hfields : Fields.Every (fun f => List.Forall₂ f.codec.Alike
      (Tree.under f.name (memberTrees ms)) (Tree.under f.name (memberTrees ms'))) fmt.fields)
    (inside inside' : Blank) :
    (record fmt).Alike (Spelling.object inside ms).tree (Spelling.object inside' ms').tree := by
  intro src r
  rw [Spelling.tree, Spelling.tree, record_object_eq_ok_iff hnames, record_object_eq_ok_iff hnames,
    passable_memberTrees, passable_memberTrees, hkeys]
  simp only [Fields.takes_congr_under hfields]

theorem record (hnames : (Fields.names fmt.fields).Nodup) (h : Fields.Ignore fmt.fields os) :
    (record fmt).Ignores (.record os) := by
  constructor
  intro x x' hx
  cases hx with
  | @member _ before before' after after' key name hkey hname hbefore hafter value inside inside'
      trail =>
    have hspaced : List.Forall₂ Respaced (before ++ (key, value, trail) :: after)
        (before' ++ (key, value, trail) :: after') :=
      List.rel_append hbefore (.cons (.refl _) hafter)
    rw [← tree_object_of_respaced hspaced]
    refine record_object_alike hnames ?_ ?_ inside inside'
    · simp only [List.forall_mem_append, List.forall_mem_cons, hkey, Option.some.injEq,
        exists_eq', true_and]
    · refine h.every_mem.imp ?_
      rintro α f ⟨o, ho, -⟩
      -- No field has the name, so that the trees for each of them stay the same.
      have hne : key.string? ≠ some f.name := by
        rw [hkey]
        rintro ⟨⟩
        exact hname (List.mem_map_of_mem ho)
      have hunder : Tree.under f.name (memberTrees (before ++ (key, value, trail) :: after))
          = Tree.under f.name (memberTrees (before ++ after)) := by
        rw [memberTrees_eq_map, memberTrees_eq_map, List.map_append, List.map_append, List.map_cons,
          Tree.under_append, Tree.under_append, Tree.under_cons_of_ne hne]
      rw [hunder]
      exact List.forall₂_same.mpr fun t _ => .refl f.codec t
  | @field _ before after key name o x x' hkey hfield hx inside trail =>
    refine record_object_alike hnames ?_ ?_ inside inside
    · simp only [List.forall_mem_append, List.forall_mem_cons]
    · refine h.every_mem.imp ?_
      rintro α f ⟨o', ho', hf⟩
      refine Tree.forall₂_under ?_
      rw [memberTrees_eq_map, memberTrees_eq_map, List.map_append, List.map_append]
      refine forall₂_append_cons (fun m => ⟨rfl, fun _ => .refl f.codec m.2⟩) ⟨rfl, ?_⟩ _ _
      intro heq
      have hname : name = f.name := Option.some.inj (hkey.symm.trans heq)
      have hnodup : (os.map Prod.fst).Nodup := h.names_eq ▸ hnames
      have hentry : (name, o) = (f.name, o') :=
        List.inj_on_of_nodup_map hnodup hfield ho' hname
      cases hentry
      exact hf.alike hx
  | @place _ before after name o x x' hfield hx inside lead trail =>
    intro src r
    rw [Spelling.tree, Spelling.tree, record_array_eq_ok_iff, record_array_eq_ok_iff,
      itemTrees_eq_map, itemTrees_eq_map, List.map_append, List.map_append, List.map_cons,
      List.map_cons]
    have hplace : os[(before.map fun i => i.2.1.tree).length]? = some (name, o) := by
      rw [List.length_map]
      exact hfield
    simp only [h.takesItems_congr hplace hx]

end Record

end Codec.Ignores

end AudioScore
