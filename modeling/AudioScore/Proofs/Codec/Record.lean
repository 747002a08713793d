import AudioScore.Codec.Record
import AudioScore.Proofs.Row

/-!
# Fields of records, one by one

The functions on rows of fields, on a row that is given by its first item and the rest, and what
is true of every row by induction.

* `Fields.names`, `Fields.Every`: the names of the fields, and a property of each of them.
* `Fields.fillAll_of_not_mem`: members that do not name the first field go into the others.
* `Fields.mem_members`, `Fields.nodup_members`: the members of a record name its fields, each once.
-/

namespace AudioScore

namespace Fields

variable {α : Type} {types : List Type}

/-! ## The first field and the others -/

/-- The names of fields in order. -/
def names : {types : List Type} → Row Field types → List String
  | [], _ => []
  | _ :: _, (f, fs) => f.name :: names fs

/-- Whether every field of a row has a property. -/
def Every (P : ∀ {α : Type}, Field α → Prop) {types : List Type} (fields : Row Field types) : Prop :=
  fields.Every fun _ f => P f

/-- The slots of a record before anything is read. -/
def blank (types : List Type) : Slots types := Row.ofFn (fun _ => none) types

theorem names_cons (f : Field α) (fs : Row Field types) :
    names (Row.cons f fs) = f.name :: names fs := rfl

theorem blank_cons : blank (α :: types) = Row.cons none (blank types) := rfl

theorem fillAll_cons (fields : Row Field types) (src : Source) (slots : Slots types) (key : String)
    (t : Tree) (ms : List (Option String × Tree)) :
    fillAll fields src slots ((some key, t) :: ms)
      = fill fields slots key src t >>= fun slots => fillAll fields src slots ms := rfl

theorem fill_first (f : Field α) (fs : Row Field types) (slots : Slots types) (src : Source)
    (t : Tree) :
    fill (Row.cons f fs) (Row.cons none slots) f.name src t
      = (f.codec.decode src t).map fun a => Row.cons (some a) slots := by
  refine (if_pos rfl).trans ?_
  change (f.codec.decode src t >>= fun a => pure (some a, slots)) = _
  cases f.codec.decode src t <;> rfl

theorem fill_twice (f : Field α) (fs : Row Field types) (a : α) (slots : Slots types) (src : Source)
    (t : Tree) :
    fill (Row.cons f fs) (Row.cons (some a) slots) f.name src t
      = .error (.data (.duplicateField f.name)) :=
  if_pos rfl

theorem fill_others {f : Field α} {key : String} (h : key ≠ f.name) (fs : Row Field types)
    (slot : Option α) (slots : Slots types) (src : Source) (t : Tree) :
    fill (Row.cons f fs) (Row.cons slot slots) key src t
      = (fill fs slots key src t).map (Row.cons slot) := by
  refine (if_neg h).trans ?_
  cases fill fs slots key src t <;> rfl

theorem finish_cons (f : Field α) (fs : Row Field types) (slot : Option α) (slots : Slots types) :
    finish (Row.cons f fs) (Row.cons slot slots) =
      match slot.or f.absent with
      | none => .error (.data (.missingField f.name))
      | some a => (finish fs slots).map (Row.cons a) := by
  refine Eq.trans (b := match slot.or f.absent with
    | none => .error (.data (.missingField f.name))
    | some a => finish fs slots >>= fun rest => pure (a, rest)) rfl ?_
  cases slot.or f.absent with
  | none => rfl
  | some a => cases finish fs slots <;> rfl

theorem members_cons (f : Field α) (fs : Row Field types) (a : α) (rest : Contents types) :
    members (Row.cons f fs) (Row.cons a rest)
      = if f.omits a then members fs rest else (f.name, f.codec.encode a) :: members fs rest := rfl

/-! ## Members -/

/-- Members that do not name the first field are read into the other fields. -/
theorem fillAll_of_not_mem (f : Field α) (fs : Row Field types) (src : Source) (slot : Option α)
    (slots : Slots types) {ms : List (Option String × Tree)} (h : ∀ m ∈ ms, m.1 ≠ some f.name) :
    fillAll (Row.cons f fs) src (Row.cons slot slots) ms
      = (fillAll fs src slots ms).map (Row.cons slot) := by
  induction ms generalizing slots with
  | nil => rfl
  | cons m ms ih =>
    obtain ⟨key, t⟩ := m
    cases key with
    | none => rfl
    | some key =>
      have hne : key ≠ f.name := fun heq => h _ (List.mem_cons_self ..) (congrArg some heq)
      rw [fillAll_cons, fillAll_cons, fill_others hne]
      cases fill fs slots key src t with
      | error e => rfl
      | ok slots' => exact ih slots' fun m hm => h m (List.mem_cons_of_mem _ hm)

theorem mem_members {fields : Row Field types} {contents : Contents types} {m : String × Json}
    (h : m ∈ members fields contents) : m.1 ∈ names fields := by
  induction types with
  | nil => cases h
  | cons α types ih =>
    obtain ⟨f, fs, rfl⟩ := fields.exists_cons
    obtain ⟨a, rest, rfl⟩ := contents.exists_cons
    rw [names_cons]
    rw [members_cons] at h
    split at h
    · exact List.mem_cons_of_mem _ (ih h)
    · rcases List.mem_cons.mp h with rfl | h
      · exact List.mem_cons_self ..
      · exact List.mem_cons_of_mem _ (ih h)

theorem nodup_members {fields : Row Field types} (h : (names fields).Nodup)
    (contents : Contents types) : ((members fields contents).map Prod.fst).Nodup := by
  induction types with
  | nil => exact List.nodup_nil
  | cons α types ih =>
    obtain ⟨f, fs, rfl⟩ := fields.exists_cons
    obtain ⟨a, rest, rfl⟩ := contents.exists_cons
    rw [names_cons, List.nodup_cons] at h
    rw [members_cons]
    split
    · exact ih h.2 rest
    · rw [List.map_cons, List.nodup_cons]
      refine ⟨fun hmem => ?_, ih h.2 rest⟩
      obtain ⟨m, hm, hname⟩ := List.mem_map.mp hmem
      have hmem := mem_members hm
      rw [hname] at hmem
      exact h.1 hmem

end Fields

end AudioScore
