/-!
# Tables of TOML

A document defines its tables piece by piece: by key and value, by dotted keys, by headers and
by headers of arrays. Each table remembers which of these made it, because that decides what may
be added later. Only truth values are kept; of any other value it is known that it is there.

* `define`: adds a key, with the tables on its way.
* `openTable`, `openItem`: what headers do.
-/

namespace AudioScore

namespace Toml

/-- What made a table. -/
inductive Origin where
  /-- Its own header. -/
  | header
  /-- The header of a table inside it. -/
  | parent
  /-- A dotted key. -/
  | dotted
deriving DecidableEq

/-- What a key stands for. -/
inductive Item where
  | boolean (b : Bool)
  /-- Any other value. -/
  | other
  | table (origin : Origin) (entries : List (String × Item))
  /-- An array made by headers, of which only the last table can still change. -/
  | tables (last : List (String × Item))

/-- The keys of a table and what they stand for. -/
abbrev Entries := List (String × Item)

/-- What a key stands for. -/
def find? (key : String) (es : Entries) : Option Item := es.lookup key

/-- Lets a key stand for an item, whatever it stood for before. -/
def put (key : String) (item : Item) : Entries → Entries
  | [] => [(key, item)]
  | (k, i) :: rest => if k = key then (key, item) :: rest else (k, i) :: put key item rest

/-- Adds a key, at the end of a path of dotted keys. The key must be new. The tables on the path
must not have headers of their own, and the last of them must be made by dotted keys. -/
def define (item : Item) (key : String) : (path : List String) → Entries → Option Entries
  | [], es =>
    match find? key es with
    | none => some (put key item es)
    | some _ => none
  | p :: path, es =>
    match find? p es with
    | none => (define item key path []).map fun inner => put p (.table .dotted inner) es
    | some (.table origin inner) =>
      if origin = .header ∨ (path = [] ∧ origin ≠ .dotted) then none
      else (define item key path inner).map fun inner => put p (.table origin inner) es
    | some (.tables last) =>
      if path = [] then none
      else (define item key path last).map fun inner => put p (.tables inner) es
    | some _ => none

/-- Changes the table at the end of a path of headers. Missing tables on the way are made. -/
def within (change : Entries → Option Entries) : (path : List String) → Entries → Option Entries
  | [], es => change es
  | p :: path, es =>
    match find? p es with
    | none => (within change path []).map fun inner => put p (.table .parent inner) es
    | some (.table origin inner) =>
      (within change path inner).map fun inner => put p (.table origin inner) es
    | some (.tables last) => (within change path last).map fun inner => put p (.tables inner) es
    | some _ => none

/-- Makes a table by its header. It may exist only as the parent of another one. -/
def openTable (key : String) (es : Entries) : Option Entries :=
  match find? key es with
  | none => some (put key (.table .header []) es)
  | some (.table .parent inner) => some (put key (.table .header inner) es)
  | some _ => none

/-- Starts the next table of an array by its header. -/
def openItem (key : String) (es : Entries) : Option Entries :=
  match find? key es with
  | none => some (put key (.tables []) es)
  | some (.tables _) => some (put key (.tables []) es)
  | some _ => none

end Toml

end AudioScore
