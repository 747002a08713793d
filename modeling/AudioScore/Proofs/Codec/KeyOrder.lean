import AudioScore.Proofs.Codec.Record
import AudioScore.Proofs.Json.Text
import AudioScore.Proofs.Text.Utf8

/-!
# Keys in order

A record is written with its fields in the order in which they are declared. Every other object is
the content of a dictionary, and is written with increasing keys. Where the fields of a record hold
no other record, except in a list, every object that is written behind a key has increasing keys.

* `Json.Under`: what stands behind a key, at whatever depth.
* `Json.OrderedWithin`, `Json.Ordered`: which objects have increasing keys.
* `Json.Sorted.ordered`: all those of a value do.
* `Codec.Ordered.dict`, `Codec.OrderedWithin.list`, `Codec.OrderedWithin.record`: what is written.
* `Codec.OrderedWithin.keysInByteOrder`: the keys in a text, by their bytes.
-/

namespace AudioScore

namespace Json

/-- A document that stands in another one behind a key, at whatever depth. -/
inductive Under (key : String) (x : Json) : Json → Prop where
  | here {ms : List (String × Json)} (h : (key, x) ∈ ms) : Under key x (.object ms)
  | member {ms : List (String × Json)} {m : String × Json} (hm : m ∈ ms) (h : Under key x m.2) :
    Under key x (.object ms)
  | item {ys : List Json} {y : Json} (hy : y ∈ ys) (h : Under key x y) : Under key x (.array ys)

/-- Whether every object behind a key has increasing keys. -/
def OrderedWithin (j : Json) : Prop :=
  ∀ key ms, Under key (.object ms) j → Increasing (ms.map Prod.fst)

/-- Whether every object behind a key has increasing keys, and so has the document if it is an
object. -/
def Ordered (j : Json) : Prop :=
  j.OrderedWithin ∧ ∀ ms, j = .object ms → Increasing (ms.map Prod.fst)

theorem OrderedWithin.array {ys : List Json} (h : ∀ y ∈ ys, y.OrderedWithin) :
    (Json.array ys).Ordered := by
  constructor
  · intro key ms hms
    cases hms with
    | item hy hms => exact h _ hy key ms hms
  · intro ms hms
    cases hms

theorem OrderedWithin.object {ms : List (String × Json)} (h : ∀ m ∈ ms, m.2.Ordered) :
    (Json.object ms).OrderedWithin := by
  intro key ns hns
  cases hns with
  | here hmem => exact (h _ hmem).2 ns rfl
  | member hm hns => exact (h _ hm).1 key ns hns

theorem Ordered.object {ms : List (String × Json)} (hkeys : Increasing (ms.map Prod.fst))
    (h : ∀ m ∈ ms, m.2.Ordered) : (Json.object ms).Ordered := by
  refine ⟨.object h, fun ns hns => ?_⟩
  cases hns
  exact hkeys

theorem Under.sorted {key : String} {x j : Json} (h : Under key x j) (hj : j.Sorted) : x.Sorted := by
  induction h with
  | here h => exact sortedMembers_iff.mp hj.2 _ h
  | member hm _ ih => exact ih (sortedMembers_iff.mp hj.2 _ hm)
  | item hy _ ih => exact ih (sortedItems_iff.mp hj _ hy)

/-- A sorted document has increasing keys everywhere. -/
theorem Sorted.ordered {j : Json} (hj : j.Sorted) : j.Ordered := by
  refine ⟨fun key ms h => (h.sorted hj).1, fun ms h => ?_⟩
  rw [h] at hj
  exact hj.1

end Json

/-! ## What is written -/

/-- Everything is written with increasing keys, but for the object that is the whole. -/
def Codec.OrderedWithin {α : Type} (c : Codec α) : Prop := ∀ a, (c.encode a).OrderedWithin

/-- Everything is written with increasing keys. -/
def Codec.Ordered {α : Type} (c : Codec α) : Prop := ∀ a, (c.encode a).Ordered

theorem Fields.ordered_members {types : List Type} {fields : Row Field types}
    (h : Every (fun f => f.codec.Ordered) fields) (contents : Contents types) :
    ∀ m ∈ members fields contents, m.2.Ordered := by
  induction types with
  | nil => exact fun m hm => absurd hm List.not_mem_nil
  | cons α types ih =>
    obtain ⟨f, fs, rfl⟩ := fields.exists_cons
    obtain ⟨a, rest, rfl⟩ := contents.exists_cons
    rw [members_cons]
    split
    · exact ih h.2 rest
    · exact List.forall_mem_cons.mpr ⟨h.1 a, ih h.2 rest⟩

namespace Codec

variable {α β : Type} {c : Codec α}

theorem Ordered.of_sorted (h : ∀ a, (c.encode a).Sorted) : c.Ordered := fun a => (h a).ordered

theorem Ordered.string : Codec.string.Ordered := .of_sorted fun _ => trivial

theorem Ordered.wireEnum [WireEnum α] : (Codec.wireEnum : Codec α).Ordered :=
  .of_sorted fun _ => trivial

theorem Ordered.value : Codec.value.Ordered := .of_sorted Value.sorted

theorem Ordered.optional (hc : c.Ordered) : c.optional.Ordered := fun a => by
  cases a with
  | none => exact Json.Sorted.ordered trivial
  | some a => exact hc a

theorem OrderedWithin.list (hc : c.OrderedWithin) : c.list.Ordered := fun xs => by
  refine Json.OrderedWithin.array ?_
  rw [List.forall_mem_map]
  exact fun x _ => hc x

theorem Ordered.dict (hc : c.Ordered) : c.dict.Ordered := fun d => by
  refine Json.Ordered.object (d.map c.encode).increasing fun m hm => ?_
  obtain ⟨e, -, rfl⟩ := List.mem_map.mp hm
  exact hc e.2

/-- The members of a record stand in the order of its fields, but what stands behind their names is
in order if that is so for every field. -/
theorem OrderedWithin.record {ρ : Type} {fmt : RecordFormat ρ}
    (h : Fields.Every (fun f => f.codec.Ordered) fmt.fields) : (Codec.record fmt).OrderedWithin :=
  fun r => .object (Fields.ordered_members h (fmt.parts r))

end Codec

/-! ## Text -/

/-- Whether a text holds a document in which every object behind a key has its keys in strictly
increasing order of their bytes. -/
def KeysInByteOrder (text : String) : Prop :=
  ∃ j : Json, Tree.ofText text = (j.toTree, true) ∧
    ∀ key ms, Json.Under key (.object ms) j → (ms.map fun m => utf8 m.1).Pairwise (· < ·)

theorem Increasing.utf8 {keys : List String} (h : Increasing keys) :
    (keys.map AudioScore.utf8).Pairwise (· < ·) :=
  List.pairwise_map.mpr (h.imp utf8_lt_utf8)

theorem Codec.OrderedWithin.keysInByteOrder {α : Type} {c : Codec α} (hc : c.OrderedWithin)
    (layout : Layout) (a : α) : KeysInByteOrder (c.text layout a) := by
  refine ⟨c.encode a, Tree.ofText_text layout _, fun key ms hms => ?_⟩
  have h := (hc a key ms hms).utf8
  rwa [List.map_map] at h

end AudioScore
