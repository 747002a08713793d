import AudioScore.Json.Tree

/-!
# From text to trees

The scanner reads JSON text character by character. It accepts the grammar of JSON exactly and
leaves a broken leaf where the text departs from it.

* `Tree.scan`: the tree at the start of some characters, and the characters after it.
* `Tree.ofText`: the tree of a whole text, and whether only white space follows it.
-/

namespace AudioScore

namespace Scan

/-! ## White space -/

/-- White space between tokens. -/
def isBlank (c : Char) : Bool := c == ' ' || c == '\n' || c == '\t' || c == '\r'

/-- The characters after leading white space. -/
def skipBlank (cs : List Char) : List Char := cs.dropWhile isBlank

/-! ## Strings -/

/-- What one step inside quotes stands for: a character, or a 16-bit unit written in hexadecimal
digits. -/
inductive Piece where
  | char (c : Char)
  | unit (u : Nat)
deriving DecidableEq

/-- The value of a hexadecimal digit. -/
def hexDigit? (c : Char) : Option Nat :=
  if '0' ≤ c ∧ c ≤ '9' then some (c.toNat - '0'.toNat)
  else if 'a' ≤ c ∧ c ≤ 'f' then some (c.toNat - 'a'.toNat + 10)
  else if 'A' ≤ c ∧ c ≤ 'F' then some (c.toNat - 'A'.toNat + 10)
  else none

/-- The number that four hexadecimal digits write. -/
def hexUnit? (a b c d : Char) : Option Nat := do
  let a ← hexDigit? a
  let b ← hexDigit? b
  let c ← hexDigit? c
  let d ← hexDigit? d
  return ((a * 16 + b) * 16 + c) * 16 + d

/-- The character that a letter after a backslash stands for. -/
def escaped? : Char → Option Char
  | '"' => some '"'
  | '\\' => some '\\'
  | '/' => some '/'
  | 'b' => some '\x08'
  | 'f' => some '\x0c'
  | 'n' => some '\n'
  | 'r' => some '\r'
  | 't' => some '\t'
  | _ => none

/-- Reads up to the closing quote. There is no result when the quote is missing, an escape is
unknown, or a control character stands for itself. -/
def pieces : List Char → Option (List Piece × List Char)
  | [] => none
  | '"' :: rest => some ([], rest)
  | '\\' :: 'u' :: a :: b :: c :: d :: rest => do
    let u ← hexUnit? a b c d
    let (ps, after) ← pieces rest
    return (.unit u :: ps, after)
  | '\\' :: e :: rest => do
    let c ← escaped? e
    let (ps, after) ← pieces rest
    return (.char c :: ps, after)
  | c :: rest =>
    if c.toNat < 0x20 ∨ c = '\\' then none
    else do
      let (ps, after) ← pieces rest
      return (.char c :: ps, after)

/-- Whether a unit is the first half of a surrogate pair. -/
def isLead (u : Nat) : Bool := 0xD800 ≤ u && u < 0xDC00

/-- Whether a unit is the second half of a surrogate pair. -/
def isTrail (u : Nat) : Bool := 0xDC00 ≤ u && u < 0xE000

/-- The characters that pieces stand for. Two halves of a pair that follow each other make one
character, and a half on its own makes none. -/
def join : List Piece → Option (List Char)
  | [] => some []
  | .char c :: ps => (join ps).map (c :: ·)
  | .unit u :: ps =>
    if isTrail u then none
    else if isLead u then
      match ps with
      | .unit v :: qs =>
        if isTrail v then
          (join qs).map (Char.ofNat (0x10000 + (u - 0xD800) * 0x400 + (v - 0xDC00)) :: ·)
        else none
      | _ => none
    else (join ps).map (Char.ofNat u :: ·)

/-- The string that pieces stand for. -/
def string? (ps : List Piece) : Option String := (join ps).map String.ofList

/-! ## Numbers -/

/-- The digits and signs of a number as written. -/
structure Numeral where
  negative : Bool
  whole : List Char
  /-- The digits after the point, if there is one. -/
  fraction : Option (List Char)
  /-- The sign and digits after the `e`, if there is one. -/
  exponent : Option (Bool × List Char)
deriving DecidableEq

/-- Splits the leading digits off. -/
def digits (cs : List Char) : List Char × List Char :=
  (cs.takeWhile Char.isDigit, cs.dropWhile Char.isDigit)

/-- Splits a leading minus off. -/
def minus : List Char → Bool × List Char
  | '-' :: rest => (true, rest)
  | cs => (false, cs)

/-- Reads the whole part: one zero, or digits that do not start with zero. -/
def whole (cs : List Char) : Option (List Char × List Char) :=
  match digits cs with
  | ([], _) => none
  | ('0' :: _ :: _, _) => none
  | r => some r

/-- Reads the part after a point, if there is a point. At least one digit follows it. -/
def fraction : List Char → Option (Option (List Char) × List Char)
  | '.' :: rest =>
    match digits rest with
    | ([], _) => none
    | (ds, after) => some (some ds, after)
  | cs => some (none, cs)

/-- Splits the sign of an exponent off: whether it is negative, and what follows. -/
def exponentSign : List Char → Bool × List Char
  | '+' :: rest => (false, rest)
  | '-' :: rest => (true, rest)
  | cs => (false, cs)

/-- Reads the exponent, if there is one. At least one digit follows the sign. -/
def exponent : List Char → Option (Option (Bool × List Char) × List Char)
  | c :: rest =>
    if c = 'e' ∨ c = 'E' then
      match digits (exponentSign rest).2 with
      | ([], _) => none
      | (ds, after) => some (some ((exponentSign rest).1, ds), after)
    else some (none, c :: rest)
  | [] => some (none, [])

/-- Reads a number. -/
def numeral (cs : List Char) : Option (Numeral × List Char) := do
  let (negative, cs) := minus cs
  let (w, cs) ← whole cs
  let (f, cs) ← fraction cs
  let (e, cs) ← exponent cs
  return (⟨negative, w, f, e⟩, cs)

/-- The whole number that decimal digits write. -/
def natOfDigits (ds : List Char) : Nat := Nat.ofDigitChars 10 ds 0

/-- The decimal that a numeral writes, without its sign. -/
def Numeral.decimal (n : Numeral) : Decimal :=
  let fraction := n.fraction.getD []
  let exponent : Int := match n.exponent with
    | none => 0
    | some (false, ds) => natOfDigits ds
    | some (true, ds) => -natOfDigits ds
  ⟨natOfDigits (n.whole ++ fraction), exponent - fraction.length⟩

/-- The whole part of a numeral, with its sign. -/
def Numeral.integer (n : Numeral) : Int :=
  if n.negative then -(natOfDigits n.whole : Int) else natOfDigits n.whole

/-- The double that a numeral stands for, unless it is too large. -/
def Numeral.float? (n : Numeral) : Option Number :=
  match n.decimal.toBinary64 n.negative with
  | .finite x => some (.float x)
  | _ => none

/-- The number that a numeral stands for. Without point and exponent it is an integer where it
fits in 64 bits, except for minus zero; anything else is a double, unless it is too large. -/
def Numeral.number? (n : Numeral) : Option Number :=
  if n.fraction.isSome || n.exponent.isSome || (n.negative && n.integer == 0) then n.float?
  else
    match Number.ofInt? n.integer with
    | some k => some k
    | none => n.float?

/-! ## Trees -/

mutual

/-- Reads one tree. The fuel bounds the number of steps. -/
def tree : Nat → List Char → Tree × List Char
  | 0, _ => (.broken, [])
  | fuel + 1, cs =>
    match skipBlank cs with
    | 'n' :: 'u' :: 'l' :: 'l' :: rest => (.null, rest)
    | 't' :: 'r' :: 'u' :: 'e' :: rest => (.boolean true, rest)
    | 'f' :: 'a' :: 'l' :: 's' :: 'e' :: rest => (.boolean false, rest)
    | '"' :: rest =>
      match pieces rest with
      | some (ps, after) => (.string (string? ps), after)
      | none => (.broken, [])
    | '[' :: rest =>
      match skipBlank rest with
      | ']' :: after => (.array [], after)
      | _ =>
        let (items, after) := items fuel rest
        (.array items, after)
    | '{' :: rest =>
      match skipBlank rest with
      | '}' :: after => (.object [], after)
      | _ =>
        let (members, after) := members fuel rest
        (.object members, after)
    | cs =>
      match numeral cs with
      | some (n, after) => (.number n.number?, after)
      | none => (.broken, [])

/-- Reads one or more items of an array, and its closing bracket. -/
def items : Nat → List Char → List Tree × List Char
  | 0, _ => ([.broken], [])
  | fuel + 1, cs =>
    let (item, rest) := tree fuel cs
    match skipBlank rest with
    | ',' :: rest =>
      let (more, after) := items fuel rest
      (item :: more, after)
    | ']' :: after => ([item], after)
    | _ => ([item, .broken], [])

/-- Reads one or more members of an object, and its closing bracket. A key without its value
keeps a broken one. -/
def members : Nat → List Char → List (Option String × Tree) × List Char
  | 0, _ => ([(none, .broken)], [])
  | fuel + 1, cs =>
    match skipBlank cs with
    | '"' :: rest =>
      match pieces rest with
      | none => ([(none, .broken)], [])
      | some (ps, rest) =>
        match skipBlank rest with
        | ':' :: rest =>
          let (value, rest) := tree fuel rest
          match skipBlank rest with
          | ',' :: rest =>
            let (more, after) := members fuel rest
            ((string? ps, value) :: more, after)
          | '}' :: after => ([(string? ps, value)], after)
          | _ => ([(string? ps, value), (none, .broken)], [])
        | _ => ([(string? ps, .broken)], [])
    | _ => ([(none, .broken)], [])

end

end Scan

namespace Tree

/-- Reads one tree from the start of some characters, and gives the characters after it. -/
def scan (cs : List Char) : Tree × List Char := Scan.tree (2 * cs.length + 2) cs

/-- The tree of a text, and whether nothing but white space follows it. -/
def ofText (text : String) : Tree × Bool :=
  let (t, rest) := scan text.toList
  (t, rest.all Scan.isBlank)

end Tree

end AudioScore
