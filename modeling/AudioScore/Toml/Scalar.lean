import AudioScore.Binary64.Decimal

/-!
# Scalars of TOML

Readers for strings, numbers, dates and times. Each takes the characters of one scalar off the
front of a text and leaves the rest. Of numbers, dates and times nothing but their form is kept.

* `quotedKey`, `stringValue`: strings in quotes.
* `numeric`: numbers, dates and times.
-/

namespace AudioScore

namespace Toml

/-- Blanks inside a line. -/
def isBlank (c : Char) : Bool := c == ' ' || c == '\t'

/-- The characters after leading blanks. -/
def skipBlank (cs : List Char) : List Char := cs.dropWhile isBlank

/-- Whether a character may stand for itself in comments and strings: all but controls, with the
tab allowed. -/
def isPlain (c : Char) : Bool := c == '\t' || (0x20 ≤ c.toNat && c.toNat != 0x7f)

/-! ## Strings -/

/-- The value of a hexadecimal digit. -/
def hexDigit? (c : Char) : Option Nat :=
  if '0' ≤ c ∧ c ≤ '9' then some (c.toNat - '0'.toNat)
  else if 'a' ≤ c ∧ c ≤ 'f' then some (c.toNat - 'a'.toNat + 10)
  else if 'A' ≤ c ∧ c ≤ 'F' then some (c.toNat - 'A'.toNat + 10)
  else none

/-- The character that hexadecimal digits stand for. -/
def codePoint? (ds : List Char) : Option Char := do
  let n ← ds.foldlM (fun n c => (hexDigit? c).map (n * 16 + ·)) 0
  if h : n.isValidChar then return Char.ofNatAux n h else none

/-- Reads what follows a backslash: the character it stands for, and the rest. -/
def escape : List Char → Option (Char × List Char)
  | 'b' :: rest => some ('\x08', rest)
  | 't' :: rest => some ('\t', rest)
  | 'n' :: rest => some ('\n', rest)
  | 'f' :: rest => some ('\x0c', rest)
  | 'r' :: rest => some ('\r', rest)
  | '"' :: rest => some ('"', rest)
  | '\\' :: rest => some ('\\', rest)
  | 'u' :: a :: b :: c :: d :: rest => (codePoint? [a, b, c, d]).map (·, rest)
  | 'U' :: a :: b :: c :: d :: e :: f :: g :: h :: rest =>
    (codePoint? [a, b, c, d, e, f, g, h]).map (·, rest)
  | _ => none

/-- Reads a string up to its closing double quote. -/
def basic : (fuel : Nat) → List Char → Option (List Char × List Char)
  | 0, _ => none
  | _, [] => none
  | _, '"' :: rest => some ([], rest)
  | fuel + 1, '\\' :: rest => do
    let (c, rest) ← escape rest
    let (cs, after) ← basic fuel rest
    return (c :: cs, after)
  | fuel + 1, c :: rest =>
    if isPlain c then (basic fuel rest).map fun (cs, after) => (c :: cs, after) else none

/-- Reads a string up to its closing single quote. -/
def literal : List Char → Option (List Char × List Char)
  | [] => none
  | '\'' :: rest => some ([], rest)
  | c :: rest =>
    if isPlain c then (literal rest).map fun (cs, after) => (c :: cs, after) else none

/-- Passes over white space that goes on over line ends. -/
def skipSpace : List Char → List Char
  | ' ' :: rest => skipSpace rest
  | '\t' :: rest => skipSpace rest
  | '\n' :: rest => skipSpace rest
  | '\r' :: '\n' :: rest => skipSpace rest
  | cs => cs

/-- After the three quotes that close a string over several lines, up to two more belong to the
string. -/
def dropQuotes (quote : Char) : List Char → List Char
  | a :: b :: rest =>
    if a = quote ∧ b = quote then rest else if a = quote then b :: rest else a :: b :: rest
  | [a] => if a = quote then [] else [a]
  | [] => []

/-- Passes over a string in three double quotes. A backslash at the end of a line takes the
white space after it away. -/
def longBasic : (fuel : Nat) → List Char → Option (List Char)
  | 0, _ => none
  | _, [] => none
  | _, '"' :: '"' :: '"' :: rest => some (dropQuotes '"' rest)
  | fuel + 1, '\\' :: rest =>
    match skipBlank rest with
    | '\n' :: more => longBasic fuel (skipSpace more)
    | '\r' :: '\n' :: more => longBasic fuel (skipSpace more)
    | _ => do
      let (_, rest) ← escape rest
      longBasic fuel rest
  | fuel + 1, '\n' :: rest => longBasic fuel rest
  | fuel + 1, '\r' :: '\n' :: rest => longBasic fuel rest
  | fuel + 1, c :: rest => if isPlain c then longBasic fuel rest else none

/-- Passes over a string in three single quotes. -/
def longLiteral : List Char → Option (List Char)
  | [] => none
  | '\'' :: '\'' :: '\'' :: rest => some (dropQuotes '\'' rest)
  | '\n' :: rest => longLiteral rest
  | '\r' :: '\n' :: rest => longLiteral rest
  | c :: rest => if isPlain c then longLiteral rest else none

/-- Reads a key in quotes. -/
def quotedKey : List Char → Option (String × List Char)
  | '"' :: rest =>
    (basic (rest.length + 1) rest).map fun (cs, after) => (String.ofList cs, after)
  | '\'' :: rest => (literal rest).map fun (cs, after) => (String.ofList cs, after)
  | _ => none

/-- Passes over a string in quotes. -/
def stringValue : List Char → Option (List Char)
  | '"' :: '"' :: '"' :: rest => longBasic (rest.length + 1) rest
  | '\'' :: '\'' :: '\'' :: rest => longLiteral rest
  | cs => (quotedKey cs).map Prod.snd

/-! ## Numbers -/

/-- Splits a leading sign off: whether there is one, whether it is a minus, and the rest. -/
def sign : List Char → Bool × Bool × List Char
  | '+' :: rest => (true, false, rest)
  | '-' :: rest => (true, true, rest)
  | cs => (false, false, cs)

/-- Reads the digits after the first one. An underscore must stand between two digits. -/
def moreDigits (isDigit : Char → Bool) : List Char → Option (List Char × List Char)
  | [] => some ([], [])
  | ['_'] => none
  | '_' :: c :: rest =>
    if isDigit c then (moreDigits isDigit rest).map fun (ds, after) => (c :: ds, after) else none
  | c :: rest =>
    if isDigit c then (moreDigits isDigit rest).map fun (ds, after) => (c :: ds, after)
    else some ([], c :: rest)

/-- Reads one or more digits. -/
def digitRun (isDigit : Char → Bool) : List Char → Option (List Char × List Char)
  | [] => none
  | c :: rest =>
    if isDigit c then (moreDigits isDigit rest).map fun (ds, after) => (c :: ds, after) else none

/-- Passes over a whole number in a base other than ten, which must fit in 64 bits. -/
def based (base : Nat) (cs : List Char) : Option (List Char) := do
  let isDigit (c : Char) : Bool := match hexDigit? c with
    | some d => d < base
    | none => false
  let (ds, rest) ← digitRun isDigit cs
  let n := ds.foldl (fun n c => n * base + (hexDigit? c).getD 0) 0
  if n < 2 ^ (63 : Nat) then return rest else none

/-- Reads the whole part of a decimal number: one zero, or digits that do not start with zero. -/
def wholePart : List Char → Option (List Char × List Char)
  | '0' :: rest => some (['0'], rest)
  | cs => digitRun Char.isDigit cs

/-- Reads what makes a number a float: a fraction, an exponent or both. The result is empty when
there is neither. -/
def floatPart (cs : List Char) : Option (List Char × Int × List Char) := do
  let (fraction, cs) ← match cs with
    | '.' :: rest => digitRun Char.isDigit rest
    | cs => some ([], cs)
  let (exponent, cs) ← match cs with
    | c :: rest =>
      if c = 'e' ∨ c = 'E' then do
        let (_, isMinus, rest) := sign rest
        let (ds, after) ← digitRun Char.isDigit rest
        let n : Int := Nat.ofDigitChars 10 ds 0
        some (if isMinus then -n else n, after)
      else some ((0 : Int), cs)
    | [] => some ((0 : Int), cs)
  return (fraction, exponent, cs)

/-- Passes over a decimal number. A whole number must fit in 64 bits, and a positive float must
not be too large for a double. -/
def decimalNumber (cs : List Char) : Option (List Char) := do
  let (_, isMinus, cs) := sign cs
  let (whole, rest) ← wholePart cs
  let n := Nat.ofDigitChars 10 whole 0
  let isFloat := match rest with
    | c :: _ => c == '.' || c == 'e' || c == 'E'
    | [] => false
  if isFloat then
    let (fraction, exponent, rest) ← floatPart rest
    let d : Decimal :=
      ⟨Nat.ofDigitChars 10 (whole ++ fraction) 0, exponent - fraction.length⟩
    if d.toBinary64 isMinus = .infinite false then none else return rest
  else if n < 2 ^ (63 : Nat) ∨ (isMinus ∧ n = 2 ^ (63 : Nat)) then return rest
  else none

/-- Passes over the words for what is not a finite number. -/
def specialNumber (cs : List Char) : Option (List Char) :=
  match (sign cs).2.2 with
  | 'i' :: 'n' :: 'f' :: rest => some rest
  | 'n' :: 'a' :: 'n' :: rest => some rest
  | _ => none

/-! ## Dates and times -/

/-- The number of two digits, when it lies between two bounds. -/
def twoDigits? (low high : Nat) (a b : Char) : Option Nat :=
  if a.isDigit ∧ b.isDigit then
    let n := Nat.ofDigitChars 10 [a, b] 0
    if low ≤ n ∧ n ≤ high then some n else none
  else none

/-- The number of days of a month. -/
def daysInMonth (year month : Nat) : Nat :=
  if month = 2 then
    if year % 4 = 0 ∧ (year % 100 ≠ 0 ∨ year % 400 = 0) then 29 else 28
  else if month = 4 ∨ month = 6 ∨ month = 9 ∨ month = 11 then 30
  else 31

/-- Passes over a time of day. -/
def timeOfDay : List Char → Option (List Char)
  | h :: i :: ':' :: m :: n :: ':' :: s :: t :: rest => do
    let _ ← twoDigits? 0 23 h i
    let _ ← twoDigits? 0 59 m n
    let _ ← twoDigits? 0 60 s t
    match rest with
    | '.' :: c :: rest => if c.isDigit then return rest.dropWhile Char.isDigit else none
    | '.' :: [] => none
    | rest => return rest
  | _ => none

/-- Passes over the offset of a time from that of Greenwich, if there is one. -/
def offset : List Char → List Char
  | 'Z' :: rest => rest
  | 'z' :: rest => rest
  | s :: h :: i :: ':' :: m :: n :: rest =>
    if (s = '+' ∨ s = '-') ∧ (twoDigits? 0 23 h i).isSome ∧ (twoDigits? 0 59 m n).isSome then rest
    else s :: h :: i :: ':' :: m :: n :: rest
  | cs => cs

/-- Passes over a date, and over a time after it. -/
def date : List Char → Option (List Char)
  | a :: b :: c :: d :: '-' :: m :: n :: '-' :: e :: f :: rest => do
    let century ← twoDigits? 0 99 a b
    let year ← twoDigits? 0 99 c d
    let month ← twoDigits? 1 12 m n
    let _ ← twoDigits? 1 (daysInMonth (century * 100 + year) month) e f
    match rest with
    | s :: time =>
      if s = 'T' ∨ s = 't' ∨ s = ' ' then
        return match timeOfDay time with
          | some after => offset after
          | none => s :: time
      else return s :: time
    | [] => return []
  | _ => none

/-- Passes over a number, a date or a time. -/
def numeric (cs : List Char) : Option (List Char) :=
  match cs with
  | '0' :: 'x' :: rest => based 16 rest
  | '0' :: 'o' :: rest => based 8 rest
  | '0' :: 'b' :: rest => based 2 rest
  | _ => (date cs).or <| (timeOfDay cs).or <| (specialNumber cs).or (decimalNumber cs)

end Toml

end AudioScore
