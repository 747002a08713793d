/-!
# Rows

A row over a list of indices holds one item for each of them, of a type that depends on the
index. Rows of fields describe records, and rows of their contents are the records.
-/

namespace AudioScore

universe u v

/-- One item of type `F i` for each index `i` of a list. -/
def Row {ι : Type u} (F : ι → Type v) : List ι → Type v
  | [] => PUnit
  | i :: is => F i × Row F is

namespace Row

variable {ι : Type u} {F G : ι → Type v}

/-- The row whose items are given by a function of the index. -/
def ofFn (f : (i : ι) → F i) : (is : List ι) → Row F is
  | [] => ⟨⟩
  | i :: is => (f i, ofFn f is)

/-- A row made item by item, up to the first failure. -/
def build {ε : Type v} (f : (i : ι) → Except ε (F i)) : (is : List ι) → Except ε (Row F is)
  | [] => .ok ⟨⟩
  | i :: is => do
    let x ← f i
    let xs ← build f is
    return (x, xs)

/-- A row made from another one item by item, up to the first failure. -/
def traverse {ε : Type v} (f : (i : ι) → F i → Except ε (G i)) :
    (is : List ι) → Row F is → Except ε (Row G is)
  | [], _ => .ok ⟨⟩
  | i :: is, (x, xs) => do
    let y ← f i x
    let ys ← traverse f is xs
    return (y, ys)

/-- The list of what a function makes of the items. -/
def toList {α : Type v} (f : (i : ι) → F i → α) : (is : List ι) → Row F is → List α
  | [], _ => []
  | i :: is, (x, xs) => f i x :: toList f is xs

end Row

end AudioScore
