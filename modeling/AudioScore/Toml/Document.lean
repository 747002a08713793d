import AudioScore.Toml.Scalar
import AudioScore.Toml.Table

/-!
# Documents of TOML

A document is a list of lines: a key with its value, a header of a table, a comment or nothing.

* `Toml.ofText?`: the root table of a text, if the text is well formed.
-/

namespace AudioScore

namespace Toml

/-! ## Keys -/

/-- Whether a character may stand in a key without quotes. -/
def isBare (c : Char) : Bool :=
  ('a' ≤ c && c ≤ 'z') || ('A' ≤ c && c ≤ 'Z') || c.isDigit || c == '_' || c == '-'

/-- Reads one part of a key. -/
def keyPart (cs : List Char) : Option (String × List Char) :=
  match cs with
  | '"' :: _ => quotedKey cs
  | '\'' :: _ => quotedKey cs
  | _ =>
    match cs.takeWhile isBare with
    | [] => none
    | ds => some (String.ofList ds, cs.dropWhile isBare)

/-- How deeply arrays and inline tables may nest, and how many parts a key may have. -/
def maxDepth : Nat := 79

/-- Reads a key with dots between its parts: the parts before the last one, and the last one.
There is `room` for so many parts. -/
def keyParts : (room : Nat) → List Char → Option ((List String × String) × List Char)
  | 0, _ => none
  | room + 1, cs => do
    let (part, rest) ← keyPart (skipBlank cs)
    match skipBlank rest with
    | '.' :: rest =>
      let ((path, last), after) ← keyParts room rest
      return ((part :: path, last), after)
    | after => return (([], part), after)

/-- Reads a key: the path to its table, and its name there. -/
def key (cs : List Char) : Option ((List String × String) × List Char) := keyParts maxDepth cs

/-! ## Values -/

/-- Passes over white space, line ends and comments. -/
def skipLines : (inComment : Bool) → List Char → Option (List Char)
  | _, [] => some []
  | _, '\n' :: rest => skipLines false rest
  | _, '\r' :: '\n' :: rest => skipLines false rest
  | true, c :: rest => if isPlain c then skipLines true rest else none
  | false, '#' :: rest => skipLines true rest
  | false, c :: rest => if isBlank c then skipLines false rest else some (c :: rest)

mutual

/-- Reads a value. The fuel bounds the number of steps, `room` the depth of brackets. -/
def value : (fuel room : Nat) → List Char → Option (Item × List Char)
  | 0, _, _ => none
  | fuel + 1, room, cs =>
    match cs with
    | 't' :: 'r' :: 'u' :: 'e' :: rest => some (.boolean true, rest)
    | 'f' :: 'a' :: 'l' :: 's' :: 'e' :: rest => some (.boolean false, rest)
    | '"' :: _ => (stringValue cs).map (.other, ·)
    | '\'' :: _ => (stringValue cs).map (.other, ·)
    | '[' :: rest =>
      match room with
      | 0 => none
      | room + 1 => (items fuel room rest).map (.other, ·)
    | '{' :: rest =>
      match room with
      | 0 => none
      | room + 1 =>
        match skipBlank rest with
        | '}' :: after => some (.other, after)
        | _ => (pairs fuel room [] rest).map (.other, ·)
    | _ => (numeric cs).map (.other, ·)

/-- Passes over the items of an array and its closing bracket. A comma may follow the last one. -/
def items : (fuel room : Nat) → List Char → Option (List Char)
  | 0, _, _ => none
  | fuel + 1, room, cs => do
    match ← skipLines false cs with
    | ']' :: after => return after
    | cs =>
      let (_, rest) ← value fuel room cs
      match ← skipLines false rest with
      | ',' :: rest => items fuel room rest
      | ']' :: after => return after
      | _ => none

/-- Passes over the keys and values of an inline table and its closing brace. -/
def pairs : (fuel room : Nat) → Entries → List Char → Option (List Char)
  | 0, _, _, _ => none
  | fuel + 1, room, es, cs => do
    let ((path, last), rest) ← key cs
    match rest with
    | '=' :: rest =>
      let (item, rest) ← value fuel room (skipBlank rest)
      let es ← define item last path es
      match skipBlank rest with
      | ',' :: rest => pairs fuel room es rest
      | '}' :: after => return after
      | _ => none
    | _ => none

end

/-! ## Lines -/

/-- Passes over the end of a line, with a comment before it. -/
def lineEnd (cs : List Char) : Option (List Char) :=
  let rest := match skipBlank cs with
    | '#' :: comment => comment.dropWhile isPlain
    | rest => rest
  match rest with
  | [] => some []
  | '\n' :: after => some after
  | '\r' :: '\n' :: after => some after
  | _ => none

/-- Reads lines. `header` is the path of the table that keys are added to. -/
def lines : (fuel : Nat) → (header : List String) → Entries → List Char → Option Entries
  | 0, _, _, _ => none
  | fuel + 1, header, root, cs =>
    match skipBlank cs with
    | [] => some root
    | '\n' :: _ | '\r' :: _ | '#' :: _ => do
      let rest ← lineEnd cs
      lines fuel header root rest
    | '[' :: '[' :: rest => do
      let ((path, last), rest) ← key rest
      match rest with
      | ']' :: ']' :: rest =>
        let root ← within (openItem last) path root
        let rest ← lineEnd rest
        lines fuel (path ++ [last]) root rest
      | _ => none
    | '[' :: rest => do
      let ((path, last), rest) ← key rest
      match rest with
      | ']' :: rest =>
        let root ← within (openTable last) path root
        let rest ← lineEnd rest
        lines fuel (path ++ [last]) root rest
      | _ => none
    | cs => do
      let ((path, last), rest) ← key cs
      match rest with
      | '=' :: rest =>
        let (item, rest) ← value fuel maxDepth (skipBlank rest)
        let root ← within (define item last path) header root
        let rest ← lineEnd rest
        lines fuel header root rest
      | _ => none

/-- The root table of a text, if the text is well formed. A byte order mark is passed over. -/
def ofText? (text : String) : Option Entries :=
  let cs := match text.toList with
    | '\ufeff' :: rest => rest
    | cs => cs
  lines (2 * cs.length + 2) [] [] cs

end Toml

end AudioScore
