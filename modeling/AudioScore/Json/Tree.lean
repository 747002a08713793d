import AudioScore.Json.Basic

/-!
# What a text spells

A tree is what is found in a text when it is read from left to right: members in the order
written, repeated keys kept, a number or string that cannot be represented left without a value,
and a `broken` leaf at the place where the text stops being JSON. Everything before that leaf is
intact, so a reader that goes through a tree in order meets the first fault of the text first.

* `Json.toTree`: the tree of a document.
* `Tree.value?`: the value of a tree, if it has one.
-/

namespace AudioScore

/-- What a text spells. -/
inductive Tree where
  | null
  | boolean (b : Bool)
  /-- A number, without a value when its magnitude is too large for a double. -/
  | number (n : Option Number)
  /-- A string, without a value when it holds half of a surrogate pair. -/
  | string (s : Option String)
  | array (items : List Tree)
  /-- The members, each with its key, which like a string may lack a value. -/
  | object (members : List (Option String × Tree))
  /-- The place where the text stops being JSON. -/
  | broken
deriving Inhabited

/-- Where a tree comes from. Text may open only so many more brackets; a value has no limit. -/
inductive Source where
  | text (room : Nat)
  | value
deriving DecidableEq

/-- A text may nest at most 127 arrays and objects. -/
def Source.newText : Source := .text 127

/-- Opens a bracket, if there is room for it. -/
def Source.enter : Source → Option Source
  | .text 0 => none
  | .text (n + 1) => some (.text n)
  | .value => some .value

/-! ## Trees of documents -/

namespace Json

mutual

/-- The tree of a document. -/
def toTree : Json → Tree
  | .null => .null
  | .boolean b => .boolean b
  | .number n => .number (some n)
  | .string s => .string (some s)
  | .array items => .array (treesOfItems items)
  | .object members => .object (treesOfMembers members)
termination_by structural x => x

/-- The trees of the items of an array. -/
def treesOfItems : List Json → List Tree
  | [] => []
  | x :: xs => x.toTree :: treesOfItems xs
termination_by structural x => x

/-- The trees of the members of an object. -/
def treesOfMembers : List (String × Json) → List (Option String × Tree)
  | [] => []
  | (k, x) :: ms => (some k, x.toTree) :: treesOfMembers ms
termination_by structural x => x

end

end Json

namespace Tree

/-! ## Reading past a tree -/

mutual

/-- Whether a tree has no broken leaf. Strings and numbers without a value do not matter. -/
def intact : Tree → Bool
  | .array items => intactItems items
  | .object members => intactMembers members
  | .broken => false
  | _ => true
termination_by structural x => x

/-- Whether all items are intact. -/
def intactItems : List Tree → Bool
  | [] => true
  | x :: xs => x.intact && intactItems xs
termination_by structural x => x

/-- Whether all members are intact. -/
def intactMembers : List (Option String × Tree) → Bool
  | [] => true
  | (_, x) :: ms => x.intact && intactMembers ms
termination_by structural x => x

end

/-! ## Values -/

mutual

/-- The value of a tree. Of members with one key the last one stays. There is no value when the
tree is broken, when a number or string lacks one, or when brackets nest too deeply. -/
def value? : Source → Tree → Option Value
  | _, .null => some .null
  | _, .boolean b => some (.boolean b)
  | _, .number n => n.map .number
  | _, .string s => s.map .string
  | src, .array items => do
    let inner ← src.enter
    let values ← values? inner items
    return .array values
  | src, .object members => do
    let inner ← src.enter
    let entries ← entries? inner .empty members
    return .object entries
  | _, .broken => none
termination_by structural _ x => x

/-- The values of the items of an array. -/
def values? : Source → List Tree → Option (List Value)
  | _, [] => some []
  | src, x :: xs => do
    let v ← value? src x
    let vs ← values? src xs
    return v :: vs
termination_by structural _ x => x

/-- The entries of a dictionary, after the members of an object are put into it. -/
def entries? : Source → Dict Value → List (Option String × Tree) → Option (Dict Value)
  | _, d, [] => some d
  | src, d, (key, x) :: ms => do
    let k ← key
    let v ← value? src x
    entries? src (d.insert k v) ms
termination_by structural _ _ x => x

end

end Tree

/-- The value of a document. -/
def Json.toValue (j : Json) : Value := (j.toTree.value? .value).getD .null

end AudioScore
