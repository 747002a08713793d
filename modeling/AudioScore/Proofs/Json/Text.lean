import AudioScore.Proofs.Json.Spelling

/-!
# Text reads back

The text of a document, in either layout, follows the grammar of JSON and spells the tree of the
document.

* `Quote.exists_strokes`: a quoted string stands for the string.
* `Json.exists_spelling`: the characters of a document are those of a spelling of its tree.
* `Tree.ofText_text`: the text of a document spells its tree, and nothing follows it.
-/

namespace AudioScore

open Spelling

/-! ## White space -/

/-- A line break as white space. -/
def Layout.lineBlank (layout : Layout) (level : Nat) : Blank where
  chars := layout.lineBreak level
  blank c hc := by
    cases layout with
    | compact => cases hc
    | indented =>
      rcases List.mem_cons.mp hc with rfl | hc
      · decide
      · rw [List.eq_of_mem_replicate hc]
        decide

/-- The gap after a colon as white space. -/
def Layout.gapBlank (layout : Layout) : Blank where
  chars := layout.gap
  blank c hc := by
    cases layout with
    | compact => cases hc
    | indented =>
      rw [List.mem_singleton.mp hc]
      decide

/-! ## Strings -/

namespace Quote

open Scan

theorem join_char (c : Char) (ps : List Piece) : join (.char c :: ps) = (join ps).map (c :: ·) := by
  rw [join]

/-- A unit below the surrogates stands for its character. -/
theorem join_unit {u : Nat} (h : u < 0x20) (ps : List Piece) :
    join (.unit u :: ps) = (join ps).map (Char.ofNat u :: ·) := by
  have htrail : isTrail u = false := by simp [isTrail]; omega
  have hlead : isLead u = false := by simp [isLead]; omega
  rw [join.eq_def]
  simp only [htrail, hlead, Bool.false_eq_true, if_false]

theorem hexDigit?_hexDigit : ∀ n < 16, hexDigit? (hexDigit n) = some n := by decide

/-- A number below sixteen as a digit. -/
def digit (n : Nat) (h : n < 16) : HexDigit := by
  refine ⟨hexDigit n, ?_⟩
  have hall : ∀ n < 16, hexDigit n ∈ hexDigits := by decide
  exact hall n h

theorem hexUnit?_hexDigit {n : Nat} (h : n < 0x20) :
    hexUnit? '0' '0' (hexDigit (n / 16)) (hexDigit (n % 16)) = some n := by
  have hzero : hexDigit? '0' = some 0 := rfl
  simp only [hexUnit?, hzero, hexDigit?_hexDigit _ (show n / 16 < 16 by omega),
    hexDigit?_hexDigit _ (show n % 16 < 16 by omega), Option.bind_eq_bind, Option.bind_some]
  congr 1
  omega

/-- A character inside quotes is one stroke, which stands for that character. -/
theorem exists_stroke (c : Char) : ∃ s : Stroke, s.chars = char c ∧
    ∀ ps, join (s.piece :: ps) = (join ps).map (c :: ·) := by
  unfold char
  -- The seven characters that are escaped by a letter of their own.
  iterate 7
    split
    · rename_i h
      subst h
      exact ⟨.escape _ (by decide), rfl, join_char _⟩
  split
  · rename_i hcontrol
    refine ⟨.unit (digit 0 (by omega)) (digit 0 (by omega)) (digit (c.toNat / 16) (by omega))
      (digit (c.toNat % 16) (by omega)), rfl, fun ps => ?_⟩
    have hunit : hexUnit? (digit 0 (by omega)) (digit 0 (by omega)) (digit (c.toNat / 16) (by omega))
        (digit (c.toNat % 16) (by omega)) = some c.toNat := hexUnit?_hexDigit hcontrol
    rw [Stroke.piece, hunit, Option.getD_some, join_unit hcontrol, Char.ofNat_toNat]
  · rename_i hquote hslash _ _ _ _ _ hcontrol
    have hplain : isPlain c := isPlain_iff.mpr ⟨⟨Nat.le_of_not_lt hcontrol, hquote⟩, hslash⟩
    exact ⟨.plain c hplain, rfl, join_char _⟩

theorem exists_strokes_chars (cs : List Char) : ∃ ss : List Stroke,
    ss.flatMap Stroke.chars = cs.flatMap char ∧ join (ss.map Stroke.piece) = some cs := by
  induction cs with
  | nil => exact ⟨[], rfl, by simp [join]⟩
  | cons c cs ih =>
    obtain ⟨ss, hchars, hjoin⟩ := ih
    obtain ⟨s, hs, hsjoin⟩ := exists_stroke c
    refine ⟨s :: ss, ?_, ?_⟩
    · rw [List.flatMap_cons, List.flatMap_cons, hs, hchars]
    · rw [List.map_cons, hsjoin, hjoin]
      rfl

/-- A quoted string stands for the string. -/
theorem exists_strokes (s : String) :
    ∃ ss, Stroke.quoted ss = string s ∧ Stroke.string? ss = some s := by
  obtain ⟨ss, hchars, hjoin⟩ := exists_strokes_chars s.toList
  refine ⟨ss, ?_, ?_⟩
  · rw [Stroke.quoted, hchars]
    rfl
  · rw [Stroke.string?, string?, hjoin, Option.map_some, String.ofList_toList]

end Quote

/-! ## Documents -/

namespace Json

mutual

/-- The characters of a document are those of a spelling of its tree. -/
theorem exists_spelling (layout : Layout) (level : Nat) (j : Json) :
    ∃ x : Spelling, x.chars = j.chars layout level ∧ x.tree = j.toTree := by
  match j with
  | .null => exact ⟨.null, rfl, rfl⟩
  | .boolean true => exact ⟨.boolean true, rfl, rfl⟩
  | .boolean false => exact ⟨.boolean false, rfl, rfl⟩
  | .number k =>
    obtain ⟨n, hn, hchars, hk⟩ := k.exists_numeral
    exact ⟨.number ⟨n, hn, .usual⟩, hchars, congrArg Tree.number hk⟩
  | .string s =>
    obtain ⟨ss, hchars, hs⟩ := Quote.exists_strokes s
    exact ⟨.string ss, hchars, congrArg Tree.string hs⟩
  | .array [] => exact ⟨.array .none [], rfl, rfl⟩
  | .array (x :: xs) =>
    obtain ⟨ys, hchars, htrees⟩ := exists_spelling_items layout level (x :: xs)
    cases ys with
    | nil => cases htrees
    | cons y ys => exact ⟨.array .none (y :: ys), congrArg _ hchars, congrArg Tree.array htrees⟩
  | .object [] => exact ⟨.object .none [], rfl, rfl⟩
  | .object (m :: ms) =>
    obtain ⟨ns, hchars, htrees⟩ := exists_spelling_members layout level (m :: ms)
    cases ns with
    | nil => cases htrees
    | cons n ns => exact ⟨.object .none (n :: ns), congrArg _ hchars, congrArg Tree.object htrees⟩
termination_by structural j

theorem exists_spelling_items (layout : Layout) (level : Nat) (xs : List Json) :
    ∃ ys, Spelling.itemChars ys = itemChars layout level xs ∧
      Spelling.itemTrees ys = treesOfItems xs := by
  match xs with
  | [] => exact ⟨[], rfl, rfl⟩
  | x :: xs =>
    obtain ⟨y, hy, hytree⟩ := exists_spelling layout (level + 1) x
    obtain ⟨ys, hys, htrees⟩ := exists_spelling_items layout level xs
    have hempty : ys.isEmpty = xs.isEmpty := by
      cases ys <;> cases xs <;> first | rfl | cases htrees
    refine ⟨(layout.lineBlank (level + 1), y,
      if xs.isEmpty then layout.lineBlank level else .none) :: ys, ?_, ?_⟩
    · rw [Spelling.itemChars, itemChars, hempty, hys, hy]
      split <;> simp [Layout.lineBlank, Blank.none]
    · rw [Spelling.itemTrees, treesOfItems, hytree, htrees]
termination_by structural xs

theorem exists_spelling_members (layout : Layout) (level : Nat) (ms : List (String × Json)) :
    ∃ ns, Spelling.memberChars ns = memberChars layout level ms ∧
      Spelling.memberTrees ns = treesOfMembers ms := by
  match ms with
  | [] => exact ⟨[], rfl, rfl⟩
  | (k, x) :: ms =>
    obtain ⟨ss, hchars, hs⟩ := Quote.exists_strokes k
    obtain ⟨y, hy, hytree⟩ := exists_spelling layout (level + 1) x
    obtain ⟨ns, hns, htrees⟩ := exists_spelling_members layout level ms
    -- The key, with all white space that is written around it.
    let key : Key := ⟨layout.lineBlank (level + 1), ss, .none, layout.gapBlank⟩
    have hkey : key.string? = some k := hs
    have hkeyChars : key.chars
        = layout.lineBreak (level + 1) ++ (Quote.string k ++ ':' :: layout.gap) := by
      rw [← hchars]
      rfl
    have hempty : ns.isEmpty = ms.isEmpty := by
      cases ns <;> cases ms <;> first | rfl | cases htrees
    refine ⟨(key, y, if ms.isEmpty then layout.lineBlank level else .none) :: ns, ?_, ?_⟩
    · rw [Spelling.memberChars, memberChars, hempty, hns, hy, hkeyChars]
      split <;> simp [Layout.lineBlank, Blank.none]
    · rw [Spelling.memberTrees, treesOfMembers, hkey, hytree, htrees]
termination_by structural ms

end

end Json

/-- The text of a document spells its tree, and nothing follows it. -/
theorem Tree.ofText_text (layout : Layout) (j : Json) :
    Tree.ofText (j.text layout) = (j.toTree, true) := by
  obtain ⟨x, hchars, htree⟩ := j.exists_spelling layout 0
  have htext : j.text layout = x.text .none .none := by
    rw [Json.text, Spelling.text, hchars]
    simp [Blank.none]
  rw [htext, Tree.ofText_spelling, htree]

end AudioScore
