import AudioScore.Json.Tree

/-!
# The grammar of documents

A form says which documents are well formed, and what a well-formed document looks like when it is
written in the normal way. It knows nothing of how documents are read.

* `Form`: which documents fit, and their normal form.
* `Form.list`, `Form.dict`, `Form.record`: collections and records.
-/

namespace AudioScore

/-- A form of documents. -/
structure Form where
  /-- Whether a document has the form. -/
  fits : Json → Bool
  /-- A document of the form as it is normally written. -/
  canon : Json → Json

namespace Form

/-! ## Simple data and collections -/

/-- Any document at all. -/
def any : Form := ⟨fun _ => true, id⟩

/-- Strings. -/
def string : Form where
  fits
    | .string _ => true
    | _ => false
  canon := id

/-- Some fixed strings. -/
def oneOf (names : List String) : Form where
  fits
    | .string s => names.contains s
    | _ => false
  canon := id

/-- Arrays of documents of one form. -/
def list (form : Form) : Form where
  fits
    | .array xs => xs.all form.fits
    | _ => false
  canon
    | .array xs => .array (xs.map form.canon)
    | j => j

/-- Objects with any keys, whose values have one form. -/
def dict (form : Form) : Form where
  fits
    | .object ms => ms.all fun m => form.fits m.2
    | _ => false
  canon
    | .object ms => .object (ms.map fun m => (m.1, form.canon m.2))
    | j => j

/-! ## Records -/

/-- How a record may do without one of its entries. -/
inductive Presence where
  /-- It has to be there. -/
  | required
  /-- It may be absent or `null`. -/
  | nullable
  /-- It may be absent, but not `null`, and is an empty collection then. -/
  | collection
deriving DecidableEq

/-- One entry of a record. -/
structure Entry where
  name : String
  presence : Presence
  form : Form

namespace Entry

/-- Whether an entry may have a content, or be absent. -/
def fits (e : Entry) : Option Json → Bool
  | none => e.presence ≠ .required
  | some .null => e.presence = .nullable ∨ e.form.fits .null
  | some j => e.form.fits j

/-- Whether a content says no more than absence does. -/
def redundant (e : Entry) (j : Json) : Bool :=
  match e.presence, j with
  | .nullable, .null => true
  | .collection, .array [] => true
  | .collection, .object [] => true
  | _, _ => false

/-- The content of an entry as it is normally written, or nothing where absence says the same. -/
def canon (e : Entry) : Option Json → Option Json
  | none => none
  | some j => if e.redundant j then none else some (e.form.canon j)

end Entry

/-- The contents of the entries of a record: by name in an object, whatever else it holds, and by
place in an array, which may stop early. -/
def contents? (entries : List Entry) : Json → Option (List (Option Json))
  | .object ms => some (entries.map fun e => ms.lookup e.name)
  | .array xs =>
    if xs.length ≤ entries.length then
      some (xs.map some ++ List.replicate (entries.length - xs.length) none)
    else none
  | _ => none

/-- The object of the contents that are there, with its keys sorted. -/
def keyed (contents : List (String × Option Json)) : Json :=
  .object (Dict.ofList (contents.filterMap fun c => c.2.map fun j => (c.1, j))).entries

/-- Records: objects in which every entry fits, or arrays of the entries in order. The normal form
is the object of those entries that say more than their absence. -/
def record (entries : List Entry) : Form where
  fits j :=
    match contents? entries j with
    | some contents => (entries.zip contents).all fun p => p.1.fits p.2
    | none => false
  canon j :=
    match contents? entries j with
    | some contents => keyed ((entries.zip contents).map fun p => (p.1.name, p.1.canon p.2))
    | none => j

theorem record_fits {entries : List Entry} {j : Json} {contents : List (Option Json)}
    (h : contents? entries j = some contents) :
    (record entries).fits j = (entries.zip contents).all fun p => p.1.fits p.2 := by
  simp only [record, h]

theorem record_not_fits {entries : List Entry} {j : Json} (h : contents? entries j = none) :
    (record entries).fits j = false := by
  simp only [record, h]

theorem record_canon {entries : List Entry} {j : Json} {contents : List (Option Json)}
    (h : contents? entries j = some contents) : (record entries).canon j
      = keyed ((entries.zip contents).map fun p => (p.1.name, p.1.canon p.2)) := by
  simp only [record, h]

end Form

end AudioScore
