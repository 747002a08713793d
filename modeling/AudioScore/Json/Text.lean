import AudioScore.Json.Basic

/-!
# Text of documents

A document is written on one line, or indented by two spaces a level with every item and member
on a line of its own. Inside quotes only quotes, backslashes and control characters are escaped.

* `Json.chars`: the characters of a document at a level of indentation.
* `Json.text`: the text of a document.
-/

namespace AudioScore

/-- How a document is laid out. -/
inductive Layout where
  /-- Everything on one line, without white space. -/
  | compact
  /-- Two spaces a level, and a space after each colon. -/
  | indented
deriving DecidableEq, Inhabited

namespace Layout

/-- What stands before an item, or before a closing bracket, at a level of indentation. -/
def lineBreak : Layout → Nat → List Char
  | .compact, _ => []
  | .indented, level => '\n' :: List.replicate (2 * level) ' '

/-- What stands between a colon and a value. -/
def gap : Layout → List Char
  | .compact => []
  | .indented => [' ']

end Layout

/-! ## Strings and numbers -/

namespace Quote

/-- The hexadecimal digit of a number below sixteen, in lower case. -/
def hexDigit (n : Nat) : Char := Nat.digitChar n

/-- A character as it is written inside quotes. -/
def char (c : Char) : List Char :=
  if c = '"' then ['\\', '"']
  else if c = '\\' then ['\\', '\\']
  else if c = '\x08' then ['\\', 'b']
  else if c = '\x0c' then ['\\', 'f']
  else if c = '\n' then ['\\', 'n']
  else if c = '\r' then ['\\', 'r']
  else if c = '\t' then ['\\', 't']
  else if c.toNat < 0x20 then
    ['\\', 'u', '0', '0', hexDigit (c.toNat / 16), hexDigit (c.toNat % 16)]
  else [c]

/-- A string in quotes. -/
def string (s : String) : List Char := '"' :: s.toList.flatMap char ++ ['"']

end Quote

/-- The text of a whole number. -/
def Number.intChars (n : Int) : List Char :=
  if n < 0 then '-' :: Nat.toDigits 10 n.natAbs else Nat.toDigits 10 n.natAbs

/-- The text of a number. -/
def Number.chars : Number → List Char
  | .integer n _ => intChars n
  | .float x => x.chars

/-! ## Documents -/

namespace Json

mutual

/-- The characters of a document whose brackets stand at a level of indentation. -/
def chars (layout : Layout) (level : Nat) : Json → List Char
  | .null => ['n', 'u', 'l', 'l']
  | .boolean true => ['t', 'r', 'u', 'e']
  | .boolean false => ['f', 'a', 'l', 's', 'e']
  | .number n => n.chars
  | .string s => Quote.string s
  | .array [] => ['[', ']']
  | .array (x :: xs) => '[' :: itemChars layout level (x :: xs)
  | .object [] => ['{', '}']
  | .object (m :: ms) => '{' :: memberChars layout level (m :: ms)
termination_by structural x => x

/-- The characters of the items of an array and of its closing bracket. -/
def itemChars (layout : Layout) (level : Nat) : List Json → List Char
  | [] => []
  | x :: xs =>
    layout.lineBreak (level + 1) ++ x.chars layout (level + 1) ++
      if xs.isEmpty then layout.lineBreak level ++ [']'] else ',' :: itemChars layout level xs
termination_by structural x => x

/-- The characters of the members of an object and of its closing bracket. -/
def memberChars (layout : Layout) (level : Nat) : List (String × Json) → List Char
  | [] => []
  | (k, x) :: ms =>
    layout.lineBreak (level + 1) ++ Quote.string k ++ ':' :: layout.gap ++
      x.chars layout (level + 1) ++
      if ms.isEmpty then layout.lineBreak level ++ ['}'] else ',' :: memberChars layout level ms
termination_by structural x => x

end

/-- The text of a document. -/
def text (layout : Layout) (j : Json) : String := String.ofList (j.chars layout 0)

end Json

/-- The text of a value, on one line. -/
def Value.text (v : Value) : String := v.json.text .compact

end AudioScore
