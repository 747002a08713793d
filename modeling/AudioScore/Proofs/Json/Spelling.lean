import AudioScore.Proofs.Json.Numeral

/-!
# The grammar of JSON text

A spelling is a text that follows the grammar of JSON. It says how everything is written that the
grammar leaves open: white space, the characters of strings, and the digits of numbers. The scanner
reads a spelling to its end and no further. Its fuel is never used up, since each of its steps passes
a character.

* `Spelling`: the texts that follow the grammar, and `Spelling.tree` what they spell.
* `pieces_strokes`: a quoted string is found again, with whatever escapes it is written.
* `Scan.tree_spelling`: a spelling, in front of anything that cannot go on a number, is scanned as its
  tree.
* `Tree.ofText_spelling`: so is a spelling with white space around it.
-/

namespace AudioScore

namespace Spelling

/-! ## Tokens -/

/-- The characters of white space. -/
def blanks : List Char := [' ', '\n', '\t', '\r']

/-- The letters that stand for a character after a backslash. -/
def escapes : List Char := ['"', '\\', '/', 'b', 'f', 'n', 'r', 't']

/-- The hexadecimal digits, in either case. -/
def hexDigits : List Char :=
  ['0', '1', '2', '3', '4', '5', '6', '7', '8', '9', 'a', 'b', 'c', 'd', 'e', 'f',
    'A', 'B', 'C', 'D', 'E', 'F']

/-- Whether a character may stand for itself inside quotes. -/
def isPlain (c : Char) : Bool := 0x20 ≤ c.toNat && c != '"' && c != '\\'

/-- White space between tokens. -/
structure Blank where
  chars : List Char
  blank : ∀ c ∈ chars, c ∈ blanks

def Blank.none : Blank := ⟨[], fun _ h => absurd h List.not_mem_nil⟩

abbrev HexDigit : Type := { c : Char // c ∈ hexDigits }

/-- What stands for a character inside quotes, or for half of one. -/
inductive Stroke where
  /-- The character itself. -/
  | plain (c : Char) (h : isPlain c)
  /-- A backslash and a letter for the character. -/
  | escape (e : Char) (h : e ∈ escapes)
  /-- A 16-bit unit in hexadecimal digits. -/
  | unit (a b c d : HexDigit)

namespace Stroke

def chars : Stroke → List Char
  | plain c _ => [c]
  | escape e _ => ['\\', e]
  | unit a b c d => ['\\', 'u', a, b, c, d]

/-- What a stroke stands for. -/
def piece : Stroke → Scan.Piece
  | plain c _ => .char c
  | escape e _ => .char ((Scan.escaped? e).getD e)
  | unit a b c d => .unit ((Scan.hexUnit? a b c d).getD 0)

/-- The string that strokes stand for, unless they hold half of a surrogate pair. -/
def string? (ss : List Stroke) : Option String := Scan.string? (ss.map piece)

/-- A string in quotes. -/
def quoted (ss : List Stroke) : List Char := '"' :: (ss.flatMap chars ++ ['"'])

end Stroke

/-- The digits of a number, and how its exponent is introduced. -/
structure Literal where
  numeral : Scan.Numeral
  wellFormed : numeral.WellFormed
  mark : Scan.Mark

def Literal.chars (l : Literal) : List Char := l.numeral.chars l.mark

/-- The key of a member, with its colon and the white space around both. -/
structure Key where
  before : Blank
  strokes : List Stroke
  beforeColon : Blank
  afterColon : Blank

namespace Key

def chars (k : Key) : List Char :=
  k.before.chars ++ (Stroke.quoted k.strokes ++ (k.beforeColon.chars ++ ':' :: k.afterColon.chars))

def string? (k : Key) : Option String := Stroke.string? k.strokes

end Key

end Spelling

open Spelling in
/-- A text that follows the grammar of JSON, without white space around it. -/
inductive Spelling where
  | null
  | boolean (b : Bool)
  | number (l : Literal)
  | string (ss : List Stroke)
  /-- Items with the white space around them, or white space alone. -/
  | array (inside : Blank) (items : List (Blank × Spelling × Blank))
  /-- Members with the white space around them, or white space alone. -/
  | object (inside : Blank) (members : List (Key × Spelling × Blank))

namespace Spelling

/-! ## Characters -/

mutual

/-- The characters of a spelling. -/
def chars : Spelling → List Char
  | .null => ['n', 'u', 'l', 'l']
  | .boolean true => ['t', 'r', 'u', 'e']
  | .boolean false => ['f', 'a', 'l', 's', 'e']
  | .number l => l.chars
  | .string ss => Stroke.quoted ss
  | .array inside [] => '[' :: (inside.chars ++ [']'])
  | .array _ (x :: xs) => '[' :: itemChars (x :: xs)
  | .object inside [] => '{' :: (inside.chars ++ ['}'])
  | .object _ (m :: ms) => '{' :: memberChars (m :: ms)
termination_by structural x => x

/-- The characters of the items of an array and of its closing bracket. -/
def itemChars : List (Blank × Spelling × Blank) → List Char
  | [] => []
  | (before, x, after) :: xs =>
    before.chars ++ (x.chars ++ (after.chars ++
      if xs.isEmpty then [']'] else ',' :: itemChars xs))
termination_by structural xs => xs

/-- The characters of the members of an object and of its closing bracket. -/
def memberChars : List (Key × Spelling × Blank) → List Char
  | [] => []
  | (key, x, after) :: ms =>
    key.chars ++ (x.chars ++ (after.chars ++
      if ms.isEmpty then ['}'] else ',' :: memberChars ms))
termination_by structural ms => ms

end

/-- The text of a spelling with white space around it. -/
def text (lead : Blank) (x : Spelling) (trail : Blank) : String :=
  String.ofList (lead.chars ++ (x.chars ++ trail.chars))

/-! ## Trees -/

mutual

/-- What is spelled. -/
def tree : Spelling → Tree
  | .null => .null
  | .boolean b => .boolean b
  | .number l => .number l.numeral.number?
  | .string ss => .string (Stroke.string? ss)
  | .array _ items => .array (itemTrees items)
  | .object _ members => .object (memberTrees members)
termination_by structural x => x

def itemTrees : List (Blank × Spelling × Blank) → List Tree
  | [] => []
  | (_, x, _) :: xs => x.tree :: itemTrees xs
termination_by structural xs => xs

def memberTrees : List (Key × Spelling × Blank) → List (Option String × Tree)
  | [] => []
  | (key, x, _) :: ms => (key.string?, x.tree) :: memberTrees ms
termination_by structural ms => ms

end

theorem itemTrees_eq_map (xs : List (Blank × Spelling × Blank)) :
    itemTrees xs = xs.map fun i => i.2.1.tree := by
  induction xs with
  | nil => rfl
  | cons i xs ih => rw [itemTrees, ih, List.map_cons]

theorem memberTrees_eq_map (ms : List (Key × Spelling × Blank)) :
    memberTrees ms = ms.map fun m => (m.1.string?, m.2.1.tree) := by
  induction ms with
  | nil => rfl
  | cons m ms ih => rw [memberTrees, ih, List.map_cons]

mutual

/-- What is spelled has no broken leaf. -/
theorem intact_tree (x : Spelling) : x.tree.intact := by
  match x with
  | .null | .boolean _ | .number _ | .string _ => rfl
  | .array _ items => exact intact_itemTrees items
  | .object _ members => exact intact_memberTrees members
termination_by structural x

theorem intact_itemTrees (xs : List (Blank × Spelling × Blank)) :
    Tree.intactItems (itemTrees xs) := by
  match xs with
  | [] => rfl
  | (_, x, _) :: xs =>
    rw [itemTrees, Tree.intactItems, intact_tree x, intact_itemTrees xs]
    rfl
termination_by structural xs

theorem intact_memberTrees (ms : List (Key × Spelling × Blank)) :
    Tree.intactMembers (memberTrees ms) := by
  match ms with
  | [] => rfl
  | (_, x, _) :: ms =>
    rw [memberTrees, Tree.intactMembers, intact_tree x, intact_memberTrees ms]
    rfl
termination_by structural ms

end

end Spelling

namespace Scan

open Spelling

/-! ## White space -/

theorem skipBlank_cons {c : Char} (h : isBlank c = false) (cs : List Char) :
    skipBlank (c :: cs) = c :: cs := by
  unfold skipBlank
  rw [List.dropWhile_cons_of_neg (by simp [h])]

theorem isBlank_of_mem {b : Blank} {c : Char} (h : c ∈ b.chars) : isBlank c := by
  have hall : ∀ c ∈ blanks, isBlank c := by simp [blanks, isBlank]
  exact hall c (b.blank c h)

theorem skipBlank_append (b : Blank) (cs : List Char) :
    skipBlank (b.chars ++ cs) = skipBlank cs := by
  unfold skipBlank
  rw [List.dropWhile_append_of_pos fun c => isBlank_of_mem]

theorem skipBlank_append_cons (b : Blank) {c : Char} (h : isBlank c = false) (cs : List Char) :
    skipBlank (b.chars ++ c :: cs) = c :: cs := by
  rw [skipBlank_append, skipBlank_cons h]

theorem tree_append (b : Blank) (fuel : Nat) (cs : List Char) :
    tree fuel (b.chars ++ cs) = tree fuel cs := by
  cases fuel with
  | zero => rfl
  | succ fuel => rw [tree, tree, skipBlank_append]

/-- White space ends a number, as does the character after it. -/
theorem endsNumber_append (b : Blank) {cs : List Char} (h : EndsNumber cs) :
    EndsNumber (b.chars ++ cs) := by
  obtain ⟨bs, hbs⟩ := b
  cases bs with
  | nil => exact h
  | cons c bs =>
    have hall : ∀ c ∈ blanks, c.isDigit = false ∧ c ≠ '.' ∧ c ≠ 'e' ∧ c ≠ 'E' := by simp [blanks]
    exact endsNumber_cons (hall c (hbs c List.mem_cons_self)) _

/-! ## Strings -/

theorem isPlain_iff {c : Char} : isPlain c ↔ (0x20 ≤ c.toNat ∧ c ≠ '"') ∧ c ≠ '\\' := by
  simp [isPlain]

theorem pieces_plain {c : Char} (hquote : c ≠ '"') (hslash : c ≠ '\\') (hcontrol : ¬ c.toNat < 0x20)
    (rest : List Char) :
    pieces (c :: rest) = (pieces rest).map fun r => (.char c :: r.1, r.2) := by
  rw [pieces.eq_def]
  split
  · rename_i heq
    cases heq
  · rename_i heq
    exact absurd (List.cons.inj heq).1 hquote
  · rename_i heq
    exact absurd (List.cons.inj heq).1 hslash
  · rename_i heq
    exact absurd (List.cons.inj heq).1 hslash
  · rename_i heq
    cases heq
    rw [if_neg (by simp [hcontrol, hslash])]
    cases pieces rest <;> rfl

theorem pieces_escaped {e c : Char} (hu : e ≠ 'u') (he : escaped? e = some c) (rest : List Char) :
    pieces ('\\' :: e :: rest) = (pieces rest).map fun r => (.char c :: r.1, r.2) := by
  rw [pieces.eq_def]
  split
  · rename_i heq
    cases heq
  · rename_i heq
    cases heq
  · rename_i heq
    exact absurd (List.cons.inj (List.cons.inj heq).2).1 hu
  · rename_i heq
    cases heq
    rw [he]
    cases pieces rest <;> rfl
  · rename_i h heq
    cases heq
    exact (h e rest rfl rfl).elim

theorem pieces_unit {a b c d : Char} {u : Nat} (h : hexUnit? a b c d = some u)
    (rest : List Char) :
    pieces ('\\' :: 'u' :: a :: b :: c :: d :: rest)
      = (pieces rest).map fun r => (.unit u :: r.1, r.2) := by
  rw [pieces, h]
  cases pieces rest <;> rfl

theorem exists_hexDigit (d : HexDigit) : ∃ n, hexDigit? d = some n := by
  obtain ⟨d, hd⟩ := d
  have hall : ∀ d ∈ hexDigits, (hexDigit? d).isSome := by simp [hexDigits, hexDigit?]
  exact Option.isSome_iff_exists.mp (hall d hd)

theorem exists_hexUnit (a b c d : HexDigit) : ∃ u, hexUnit? a b c d = some u := by
  obtain ⟨a', ha⟩ := exists_hexDigit a
  obtain ⟨b', hb⟩ := exists_hexDigit b
  obtain ⟨c', hc⟩ := exists_hexDigit c
  obtain ⟨d', hd⟩ := exists_hexDigit d
  simp only [hexUnit?, ha, hb, hc, hd]
  exact ⟨_, rfl⟩

theorem pieces_stroke (s : Stroke) (rest : List Char) :
    pieces (s.chars ++ rest) = (pieces rest).map fun r => (s.piece :: r.1, r.2) := by
  cases s with
  | plain c h =>
    obtain ⟨⟨hcontrol, hquote⟩, hslash⟩ := isPlain_iff.mp h
    exact pieces_plain hquote hslash (Nat.not_lt.mpr hcontrol) rest
  | escape e h =>
    have hall : ∀ e ∈ escapes, e ≠ 'u' ∧ (escaped? e).isSome := by simp [escapes, escaped?]
    obtain ⟨hu, hsome⟩ := hall e h
    obtain ⟨c, hc⟩ := Option.isSome_iff_exists.mp hsome
    rw [Stroke.piece, hc]
    exact pieces_escaped hu hc rest
  | unit a b c d =>
    obtain ⟨u, hu⟩ := exists_hexUnit a b c d
    rw [Stroke.piece, hu]
    exact pieces_unit hu rest

/-- A quoted string, from after its opening quote, is found again. -/
theorem pieces_strokes (ss : List Stroke) (rest : List Char) :
    pieces (ss.flatMap Stroke.chars ++ '"' :: rest) = some (ss.map Stroke.piece, rest) := by
  induction ss with
  | nil => simp [pieces]
  | cons s ss ih =>
    rw [List.flatMap_cons, List.append_assoc, pieces_stroke, ih]
    rfl

theorem quoted_append (ss : List Stroke) (rest : List Char) :
    Stroke.quoted ss ++ rest = '"' :: (ss.flatMap Stroke.chars ++ '"' :: rest) := by
  simp [Stroke.quoted]

/-! ## Leaves -/

theorem ne_of_startsNumber {c : Char} (hc : c = '-' ∨ c.isDigit) {d : Char}
    (hd : d.isDigit = false ∧ d ≠ '-') : c ≠ d := by
  rintro rfl
  rcases hc with h | h
  · exact hd.2 h
  · rw [hd.1] at h
    cases h

theorem isBlank_of_startsNumber {c : Char} (hc : c = '-' ∨ c.isDigit) : isBlank c = false := by
  have hspace : c ≠ ' ' := ne_of_startsNumber hc (by decide)
  have hline : c ≠ '\n' := ne_of_startsNumber hc (by decide)
  have htab : c ≠ '\t' := ne_of_startsNumber hc (by decide)
  have hreturn : c ≠ '\r' := ne_of_startsNumber hc (by decide)
  simp [isBlank, hspace, hline, htab, hreturn]

theorem tree_literal (l : Literal) {rest : List Char} (hr : EndsNumber rest) (fuel : Nat) :
    tree (fuel + 1) (l.chars ++ rest) = (.number l.numeral.number?, rest) := by
  have hn : numeral (l.chars ++ rest) = some (l.numeral, rest) :=
    numeral_chars l.mark hr l.wellFormed
  obtain ⟨c, cs, hchars, hc⟩ := Numeral.chars_head l.wellFormed l.mark
  rw [Literal.chars] at hn ⊢
  rw [hchars, List.cons_append] at hn ⊢
  have hne : ∀ {d : Char}, d.isDigit = false ∧ d ≠ '-' → c ≠ d := ne_of_startsNumber hc
  rw [tree, skipBlank_cons (isBlank_of_startsNumber hc)]
  -- No other token starts like a number.
  split
  · exact absurd (List.cons.inj ‹_›).1 (hne (by decide))
  · exact absurd (List.cons.inj ‹_›).1 (hne (by decide))
  · exact absurd (List.cons.inj ‹_›).1 (hne (by decide))
  · exact absurd (List.cons.inj ‹_›).1 (hne (by decide))
  · exact absurd (List.cons.inj ‹_›).1 (hne (by decide))
  · exact absurd (List.cons.inj ‹_›).1 (hne (by decide))
  · rw [hn]

theorem tree_quote (fuel : Nat) (cs : List Char) :
    tree (fuel + 1) ('"' :: cs) =
      match pieces cs with
      | some (ps, after) => (.string (string? ps), after)
      | none => (.broken, []) := by
  rw [tree, skipBlank_cons (by decide)]
  rfl

theorem tree_quoted (ss : List Stroke) (fuel : Nat) (rest : List Char) :
    tree (fuel + 1) (Stroke.quoted ss ++ rest) = (.string (Stroke.string? ss), rest) := by
  rw [quoted_append, tree_quote, pieces_strokes]
  rfl

/-! ## Brackets

What follows an opening bracket closes it at once, or is read by items or members. -/

theorem tree_bracket (fuel : Nat) (cs : List Char) :
    tree (fuel + 1) ('[' :: cs) =
      match skipBlank cs with
      | ']' :: after => (.array [], after)
      | _ => (.array (items fuel cs).1, (items fuel cs).2) := by
  rw [tree, skipBlank_cons (by decide)]
  rfl

theorem tree_brace (fuel : Nat) (cs : List Char) :
    tree (fuel + 1) ('{' :: cs) =
      match skipBlank cs with
      | '}' :: after => (.object [], after)
      | _ => (.object (members fuel cs).1, (members fuel cs).2) := by
  rw [tree, skipBlank_cons (by decide)]
  rfl

theorem tree_array {cs : List Char} {c : Char} {tail : List Char} (hskip : skipBlank cs = c :: tail)
    (hc : c ≠ ']') (fuel : Nat) :
    tree (fuel + 1) ('[' :: cs) = (.array (items fuel cs).1, (items fuel cs).2) := by
  rw [tree_bracket]
  split
  · rename_i heq
    rw [hskip] at heq
    exact absurd (List.cons.inj heq).1 hc
  · rfl

theorem tree_object {cs : List Char} {c : Char} {tail : List Char} (hskip : skipBlank cs = c :: tail)
    (hc : c ≠ '}') (fuel : Nat) :
    tree (fuel + 1) ('{' :: cs) = (.object (members fuel cs).1, (members fuel cs).2) := by
  rw [tree_brace]
  split
  · rename_i heq
    rw [hskip] at heq
    exact absurd (List.cons.inj heq).1 hc
  · rfl

theorem items_last {cs rest after : List Char} {fuel : Nat} {t : Tree}
    (h : tree fuel cs = (t, rest)) (hrest : skipBlank rest = ']' :: after) :
    items (fuel + 1) cs = ([t], after) := by
  rw [items, h]
  dsimp only
  rw [hrest]
  rfl

theorem items_more {cs rest after : List Char} {fuel : Nat} {t : Tree}
    (h : tree fuel cs = (t, rest)) (hrest : skipBlank rest = ',' :: after) :
    items (fuel + 1) cs = (t :: (items fuel after).1, (items fuel after).2) := by
  rw [items, h]
  dsimp only
  rw [hrest]
  rfl

theorem members_key (k : Key) (cs : List Char) (fuel : Nat) :
    members (fuel + 1) (k.chars ++ cs) =
      match skipBlank (tree fuel cs).2 with
      | ',' :: rest =>
        ((k.string?, (tree fuel cs).1) :: (members fuel rest).1, (members fuel rest).2)
      | '}' :: after => ([(k.string?, (tree fuel cs).1)], after)
      | _ => ([(k.string?, (tree fuel cs).1), (none, .broken)], []) := by
  have hskip : skipBlank (k.chars ++ cs) = '"' :: (k.strokes.flatMap Stroke.chars ++
      '"' :: (k.beforeColon.chars ++ ':' :: (k.afterColon.chars ++ cs))) := by
    rw [Key.chars, List.append_assoc, List.append_assoc, quoted_append,
      skipBlank_append_cons k.before (by decide), List.append_assoc, List.cons_append]
  rw [members, hskip]
  simp only [pieces_strokes]
  rw [skipBlank_append_cons k.beforeColon (by decide)]
  simp only [tree_append]
  rfl

theorem members_last (k : Key) {cs rest after : List Char} {fuel : Nat} {t : Tree}
    (h : tree fuel cs = (t, rest)) (hrest : skipBlank rest = '}' :: after) :
    members (fuel + 1) (k.chars ++ cs) = ([(k.string?, t)], after) := by
  rw [members_key, h]
  dsimp only
  rw [hrest]
  rfl

theorem members_more (k : Key) {cs rest after : List Char} {fuel : Nat} {t : Tree}
    (h : tree fuel cs = (t, rest)) (hrest : skipBlank rest = ',' :: after) :
    members (fuel + 1) (k.chars ++ cs)
      = ((k.string?, t) :: (members fuel after).1, (members fuel after).2) := by
  rw [members_key, h]
  dsimp only
  rw [hrest]
  rfl

/-! ## Spellings -/

/-- A spelling starts with a character that is neither blank nor a closing bracket. -/
theorem chars_head (x : Spelling) :
    ∃ c cs, x.chars = c :: cs ∧ isBlank c = false ∧ c ≠ ']' := by
  cases x with
  | null => exact ⟨_, _, rfl, by decide⟩
  | boolean b => cases b <;> exact ⟨_, _, rfl, by decide⟩
  | number l =>
    obtain ⟨c, cs, hchars, hc⟩ := Numeral.chars_head l.wellFormed l.mark
    exact ⟨c, cs, hchars, isBlank_of_startsNumber hc, ne_of_startsNumber hc (by decide)⟩
  | string ss => exact ⟨_, _, rfl, by decide⟩
  | array inside items => cases items <;> exact ⟨_, _, by rw [Spelling.chars], by decide⟩
  | object inside members => cases members <;> exact ⟨_, _, by rw [Spelling.chars], by decide⟩

theorem itemChars_append (before after : Blank) (x : Spelling) (xs : List (Blank × Spelling × Blank))
    (rest : List Char) :
    itemChars ((before, x, after) :: xs) ++ rest = before.chars ++ (x.chars ++ (after.chars ++
      if xs.isEmpty then ']' :: rest else ',' :: (itemChars xs ++ rest))) := by
  rw [itemChars]
  split <;> simp

theorem memberChars_append (key : Key) (after : Blank) (x : Spelling)
    (ms : List (Key × Spelling × Blank)) (rest : List Char) :
    memberChars ((key, x, after) :: ms) ++ rest = key.chars ++ (x.chars ++ (after.chars ++
      if ms.isEmpty then '}' :: rest else ',' :: (memberChars ms ++ rest))) := by
  rw [memberChars]
  split <;> simp

mutual

/-- A spelling is scanned as its tree. Its characters are fuel enough. -/
theorem tree_spelling (x : Spelling) (fuel : Nat) (rest : List Char)
    (hfuel : x.chars.length ≤ fuel) (hr : EndsNumber rest) :
    tree fuel (x.chars ++ rest) = (x.tree, rest) := by
  -- A spelling has a first character, and one unit of fuel is for that.
  obtain ⟨fuel, rfl⟩ : ∃ n, fuel = n + 1 := by
    obtain ⟨c, cs, hc, -⟩ := chars_head x
    rw [hc, List.length_cons] at hfuel
    exact ⟨fuel - 1, by omega⟩
  match x with
  | .null => rfl
  | .boolean true => rfl
  | .boolean false => rfl
  | .number l => exact tree_literal l hr fuel
  | .string ss => exact tree_quoted ss fuel rest
  | .array inside [] =>
    rw [Spelling.chars, List.cons_append, List.append_assoc, tree_bracket, List.cons_append,
      skipBlank_append_cons inside (by decide)]
    rfl
  | .array _ ((before, x, after) :: xs) =>
    rw [Spelling.chars, List.length_cons] at hfuel
    obtain ⟨c, cs, hc, hblank, hclose⟩ := chars_head x
    have hitems := items_spelling ((before, x, after) :: xs) (List.cons_ne_nil _ _) fuel rest
      (by omega)
    have hskip : ∃ tail, skipBlank (itemChars ((before, x, after) :: xs) ++ rest) = c :: tail := by
      rw [itemChars_append, hc, List.cons_append, skipBlank_append_cons before hblank]
      exact ⟨_, rfl⟩
    obtain ⟨tail, hskip⟩ := hskip
    rw [Spelling.chars, List.cons_append, tree_array hskip hclose, hitems]
    rfl
  | .object inside [] =>
    rw [Spelling.chars, List.cons_append, List.append_assoc, tree_brace, List.cons_append,
      skipBlank_append_cons inside (by decide)]
    rfl
  | .object _ ((key, x, after) :: ms) =>
    rw [Spelling.chars, List.length_cons] at hfuel
    have hmembers := members_spelling ((key, x, after) :: ms) (List.cons_ne_nil _ _) fuel rest
      (by omega)
    have hskip : ∃ tail, skipBlank (memberChars ((key, x, after) :: ms) ++ rest) = '"' :: tail := by
      rw [memberChars_append, Key.chars, List.append_assoc, List.append_assoc, quoted_append,
        skipBlank_append_cons key.before (by decide)]
      exact ⟨_, rfl⟩
    obtain ⟨tail, hskip⟩ := hskip
    rw [Spelling.chars, List.cons_append, tree_object hskip (by decide), hmembers]
    rfl
termination_by structural x

theorem items_spelling (xs : List (Blank × Spelling × Blank)) (hxs : xs ≠ []) (fuel : Nat)
    (rest : List Char) (hfuel : (itemChars xs).length ≤ fuel) :
    items fuel (itemChars xs ++ rest) = (itemTrees xs, rest) := by
  match xs with
  | (before, x, after) :: xs =>
    rw [itemChars] at hfuel
    simp only [List.length_append] at hfuel
    rw [itemChars_append]
    by_cases hlast : xs = []
    · subst hlast
      simp only [List.isEmpty_nil, if_true, List.length_singleton] at hfuel ⊢
      obtain ⟨fuel, rfl⟩ : ∃ n, fuel = n + 1 := ⟨fuel - 1, by omega⟩
      have hx := tree_spelling x fuel (after.chars ++ ']' :: rest) (by omega)
        (endsNumber_append after (endsNumber_cons (by decide) rest))
      rw [← tree_append before] at hx
      exact items_last hx (skipBlank_append_cons after (by decide) rest)
    · have hempty : xs.isEmpty = false := by simpa using hlast
      simp only [hempty, Bool.false_eq_true, if_false, List.length_cons] at hfuel ⊢
      obtain ⟨fuel, rfl⟩ : ∃ n, fuel = n + 1 := ⟨fuel - 1, by omega⟩
      have hx := tree_spelling x fuel (after.chars ++ ',' :: (itemChars xs ++ rest)) (by omega)
        (endsNumber_append after (endsNumber_cons (by decide) _))
      rw [← tree_append before] at hx
      rw [items_more hx (skipBlank_append_cons after (by decide) _),
        items_spelling xs hlast fuel rest (by omega), itemTrees]
termination_by structural xs

theorem members_spelling (ms : List (Key × Spelling × Blank)) (hms : ms ≠ []) (fuel : Nat)
    (rest : List Char) (hfuel : (memberChars ms).length ≤ fuel) :
    members fuel (memberChars ms ++ rest) = (memberTrees ms, rest) := by
  match ms with
  | (key, x, after) :: ms =>
    rw [memberChars] at hfuel
    simp only [List.length_append] at hfuel
    rw [memberChars_append]
    by_cases hlast : ms = []
    · subst hlast
      simp only [List.isEmpty_nil, if_true, List.length_singleton] at hfuel ⊢
      obtain ⟨fuel, rfl⟩ : ∃ n, fuel = n + 1 := ⟨fuel - 1, by omega⟩
      have hx := tree_spelling x fuel (after.chars ++ '}' :: rest) (by omega)
        (endsNumber_append after (endsNumber_cons (by decide) rest))
      exact members_last key hx (skipBlank_append_cons after (by decide) rest)
    · have hempty : ms.isEmpty = false := by simpa using hlast
      simp only [hempty, Bool.false_eq_true, if_false, List.length_cons] at hfuel ⊢
      obtain ⟨fuel, rfl⟩ : ∃ n, fuel = n + 1 := ⟨fuel - 1, by omega⟩
      have hx := tree_spelling x fuel (after.chars ++ ',' :: (memberChars ms ++ rest)) (by omega)
        (endsNumber_append after (endsNumber_cons (by decide) _))
      rw [members_more key hx (skipBlank_append_cons after (by decide) _),
        members_spelling ms hlast fuel rest (by omega), memberTrees]
termination_by structural ms

end

end Scan

/-- A text that follows the grammar spells its tree, and nothing follows it. -/
theorem Tree.ofText_spelling (lead : Spelling.Blank) (x : Spelling) (trail : Spelling.Blank) :
    Tree.ofText (x.text lead trail) = (x.tree, true) := by
  have hnil : Scan.EndsNumber [] := fun c hc => absurd hc (by simp)
  have hend : Scan.EndsNumber trail.chars := by
    rw [← List.append_nil trail.chars]
    exact Scan.endsNumber_append trail hnil
  have hblank : trail.chars.all Scan.isBlank := List.all_eq_true.mpr fun c => Scan.isBlank_of_mem
  have h := Scan.tree_spelling x (2 * (lead.chars ++ (x.chars ++ trail.chars)).length + 2)
    trail.chars (by simp only [List.length_append]; omega) hend
  rw [← Scan.tree_append lead] at h
  simp only [Tree.ofText, Tree.scan, Spelling.text, String.toList_ofList, h, hblank]

end AudioScore
