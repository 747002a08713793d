import AudioScore.Proofs.Json.Spelling
import Mathlib.Data.List.TakeWhile

/-!
# What the scanner accepts

Where the scanner finds no fault, the text follows the grammar of JSON. So the texts that are scanned
to their end without a fault are exactly those that follow the grammar.

* `Scan.exists_blank`, `Scan.exists_strokes`, `Scan.exists_literal`: tokens.
* `Scan.exists_spelling`: the characters that were passed in finding a tree spell it.
* `Tree.ofText_eq_iff`: whole texts.
-/

namespace AudioScore

namespace Scan

open Spelling

/-! ## White space and strings -/

theorem mem_blanks {c : Char} (h : isBlank c) : c ∈ blanks := by
  simpa [isBlank, blanks, or_assoc] using h

theorem exists_blank (cs : List Char) : ∃ b : Blank, cs = b.chars ++ skipBlank cs :=
  ⟨⟨cs.takeWhile isBlank, fun _ hc => mem_blanks (List.mem_takeWhile_imp hc)⟩,
    List.takeWhile_append_dropWhile.symm⟩

theorem mem_hexDigits {c : Char} {n : Nat} (h : hexDigit? c = some n) : c ∈ hexDigits := by
  have hall : ∀ n < 128, (hexDigit? (Char.ofNat n)).isSome → Char.ofNat n ∈ hexDigits := by decide
  have hlt : c.toNat < 128 := by
    unfold hexDigit? at h
    split at h
    · rename_i hc
      exact Nat.lt_of_le_of_lt (show c.toNat ≤ '9'.toNat from hc.2) (by decide)
    · split at h
      · rename_i hc
        exact Nat.lt_of_le_of_lt (show c.toNat ≤ 'f'.toNat from hc.2) (by decide)
      · split at h
        · rename_i hc
          exact Nat.lt_of_le_of_lt (show c.toNat ≤ 'F'.toNat from hc.2) (by decide)
        · cases h
  rw [← Char.ofNat_toNat c] at h ⊢
  exact hall c.toNat hlt (Option.isSome_of_eq_some h)

theorem mem_escapes {e c : Char} (h : escaped? e = some c) : e ∈ escapes := by
  unfold escaped? at h
  split at h
  case h_9 => cases h
  all_goals decide

theorem exists_unit {a b c d : Char} {u : Nat} (h : hexUnit? a b c d = some u) :
    ∃ s : Stroke, s.chars = ['\\', 'u', a, b, c, d] ∧ s.piece = .unit u := by
  have hu := h
  obtain ⟨a', ha, h⟩ := Option.bind_eq_some_iff.mp h
  obtain ⟨b', hb, h⟩ := Option.bind_eq_some_iff.mp h
  obtain ⟨c', hc, h⟩ := Option.bind_eq_some_iff.mp h
  obtain ⟨d', hd, -⟩ := Option.bind_eq_some_iff.mp h
  refine ⟨.unit ⟨a, mem_hexDigits ha⟩ ⟨b, mem_hexDigits hb⟩ ⟨c, mem_hexDigits hc⟩
    ⟨d, mem_hexDigits hd⟩, rfl, ?_⟩
  rw [Stroke.piece, hu]
  rfl

/-- A string that is found, from after its opening quote, was written in strokes. -/
theorem exists_strokes {cs rest : List Char} {ps : List Piece} (h : pieces cs = some (ps, rest)) :
    ∃ ss : List Stroke, cs = ss.flatMap Stroke.chars ++ '"' :: rest ∧ ss.map Stroke.piece = ps := by
  -- One more stroke in front of strokes.
  have hcons : ∀ (s : Stroke) {cs : List Char} {ss : List Stroke},
      cs = ss.flatMap Stroke.chars ++ '"' :: rest →
      s.chars ++ cs = (s :: ss).flatMap Stroke.chars ++ '"' :: rest := by
    rintro s cs ss rfl
    rw [List.flatMap_cons, List.append_assoc]
  fun_induction pieces cs generalizing ps with
  | case1 | case5 => cases h
  | case2 rest =>
    cases h
    exact ⟨[], rfl, rfl⟩
  | case3 a b c d cs ih =>
    obtain ⟨u, hu, h⟩ := Option.bind_eq_some_iff.mp h
    obtain ⟨⟨qs, after⟩, hqs, h⟩ := Option.bind_eq_some_iff.mp h
    cases h
    obtain ⟨ss, hss, rfl⟩ := ih hqs
    obtain ⟨s, hs, hpiece⟩ := exists_unit hu
    refine ⟨s :: ss, ?_, ?_⟩
    · rw [← hcons s hss, hs]
      rfl
    · rw [List.map_cons, hpiece]
  | case4 e cs hunit ih =>
    obtain ⟨c, hc, h⟩ := Option.bind_eq_some_iff.mp h
    obtain ⟨⟨qs, after⟩, hqs, h⟩ := Option.bind_eq_some_iff.mp h
    cases h
    obtain ⟨ss, hss, rfl⟩ := ih hqs
    refine ⟨.escape e (mem_escapes hc) :: ss, hcons (.escape e (mem_escapes hc)) hss, ?_⟩
    rw [List.map_cons, Stroke.piece, hc]
    rfl
  | case6 c cs hquote hunit hescape hplain ih =>
    obtain ⟨⟨qs, after⟩, hqs, h⟩ := Option.bind_eq_some_iff.mp h
    cases h
    obtain ⟨ss, hss, rfl⟩ := ih hqs
    obtain ⟨hcontrol, hslash⟩ := not_or.mp hplain
    have hc : isPlain c := isPlain_iff.mpr ⟨⟨Nat.le_of_not_lt hcontrol, hquote⟩, hslash⟩
    exact ⟨.plain c hc :: ss, hcons (.plain c hc) hss, rfl⟩

/-! ## Numbers -/

theorem digits_eq {cs ds rest : List Char} (h : digits cs = (ds, rest)) :
    cs = ds ++ rest ∧ ∀ c ∈ ds, c.isDigit := by
  cases h
  exact ⟨List.takeWhile_append_dropWhile.symm, fun c hc => List.mem_takeWhile_imp hc⟩

theorem minus_eq {cs rest : List Char} {negative : Bool} (h : minus cs = (negative, rest)) :
    cs = (if negative then ['-'] else []) ++ rest := by
  unfold minus at h
  split at h <;> cases h <;> rfl

theorem isWhole_of_whole {cs ds rest : List Char} (h : whole cs = some (ds, rest)) :
    IsWhole ds ∧ cs = ds ++ rest := by
  unfold whole at h
  obtain ⟨ds', rest', hdigits⟩ : ∃ ds' rest', digits cs = (ds', rest') := ⟨_, _, rfl⟩
  obtain ⟨hcs, hdigit⟩ := digits_eq hdigits
  rw [hdigits] at h
  split at h
  · cases h
  · cases h
  · rename_i hnil hzero
    cases h
    refine ⟨⟨?_, hdigit, ?_⟩, hcs⟩
    · rintro rfl
      exact hnil rest rfl
    · intro hhead
      cases ds with
      | nil => cases hhead
      | cons d ds =>
        cases hhead
        cases ds with
        | nil => rfl
        | cons d ds => exact (hzero d ds rest rfl).elim

/-- The digits after a point or after the sign of an exponent. -/
theorem digits_of_match {β : Type} {cs : List Char} {f : List Char → List Char → β} {b : β}
    (h : (match digits cs with
      | ([], _) => none
      | (ds, after) => some (f ds after)) = some b) :
    ∃ ds after, b = f ds after ∧ cs = ds ++ after ∧ ds ≠ [] ∧ ∀ c ∈ ds, c.isDigit := by
  obtain ⟨ds, after, hdigits⟩ : ∃ ds after, digits cs = (ds, after) := ⟨_, _, rfl⟩
  obtain ⟨hcs, hdigit⟩ := digits_eq hdigits
  rw [hdigits] at h
  cases ds with
  | nil => cases h
  | cons d ds =>
    cases h
    exact ⟨d :: ds, after, rfl, hcs, List.cons_ne_nil d ds, hdigit⟩

theorem fraction_eq {cs rest : List Char} {n : Numeral} (h : fraction cs = some (n.fraction, rest)) :
    cs = n.fractionChars ++ rest ∧ ∀ ds ∈ n.fraction, ds ≠ [] ∧ ∀ c ∈ ds, c.isDigit := by
  unfold Numeral.fractionChars
  generalize n.fraction = f at h ⊢
  unfold fraction at h
  split at h
  · obtain ⟨ds, after, heq, rfl, hne, hdigit⟩ := digits_of_match h
    cases heq
    refine ⟨rfl, ?_⟩
    rintro ds ⟨⟩
    exact ⟨hne, hdigit⟩
  · cases h
    exact ⟨rfl, fun ds hds => nomatch hds⟩

theorem exponentSign_eq (capital : Bool) (cs : List Char) : ∃ m : Mark, m.capital = capital ∧
    cs = m.sign (exponentSign cs).1 ++ (exponentSign cs).2 := by
  unfold exponentSign
  split
  · exact ⟨⟨capital, true⟩, rfl, rfl⟩
  · exact ⟨⟨capital, true⟩, rfl, rfl⟩
  · exact ⟨⟨capital, false⟩, rfl, rfl⟩

theorem exponent_eq {cs rest : List Char} {n : Numeral}
    (h : exponent cs = some (n.exponent, rest)) : ∃ m : Mark,
    cs = n.exponentChars m ++ rest ∧ ∀ p ∈ n.exponent, p.2 ≠ [] ∧ ∀ c ∈ p.2, c.isDigit := by
  unfold Numeral.exponentChars
  generalize n.exponent = e at h ⊢
  cases cs with
  | nil =>
    cases h
    exact ⟨.usual, rfl, fun p hp => nomatch hp⟩
  | cons c cs =>
    by_cases hletter : c = 'e' ∨ c = 'E'
    · rw [exponent, if_pos hletter] at h
      obtain ⟨m, hcapital, hsign⟩ := exponentSign_eq (decide (c = 'E')) cs
      obtain ⟨ds, after, heq, hdigits, hne, hdigit⟩ := digits_of_match h
      cases heq
      have hm : m.letter = c := by
        unfold Mark.letter
        rw [hcapital]
        rcases hletter with rfl | rfl <;> rfl
      refine ⟨m, ?_, ?_⟩
      · rw [List.cons_append, List.append_assoc, hm, ← hdigits, ← hsign]
      · rintro p ⟨⟩
        exact ⟨hne, hdigit⟩
    · rw [exponent, if_neg hletter] at h
      cases h
      exact ⟨.usual, rfl, fun p hp => nomatch hp⟩

/-- A number that is found was written as a literal. -/
theorem exists_literal {cs rest : List Char} {n : Numeral} (h : numeral cs = some (n, rest)) :
    ∃ l : Literal, l.numeral = n ∧ cs = l.chars ++ rest := by
  unfold numeral at h
  obtain ⟨negative, cs₀, hminus⟩ : ∃ negative cs₀, minus cs = (negative, cs₀) := ⟨_, _, rfl⟩
  rw [hminus] at h
  obtain ⟨⟨w, cs₁⟩, hw, h⟩ := Option.bind_eq_some_iff.mp h
  obtain ⟨⟨f, cs₂⟩, hf, h⟩ := Option.bind_eq_some_iff.mp h
  obtain ⟨⟨e, cs₃⟩, he, h⟩ := Option.bind_eq_some_iff.mp h
  cases h
  obtain ⟨hwhole, hcs₁⟩ := isWhole_of_whole hw
  obtain ⟨hcs₂, hfraction⟩ := fraction_eq (n := ⟨negative, w, f, e⟩) hf
  obtain ⟨m, hcs₃, hexponent⟩ := exponent_eq (n := ⟨negative, w, f, e⟩) he
  refine ⟨⟨_, ⟨hwhole, hfraction, hexponent⟩, m⟩, rfl, ?_⟩
  rw [minus_eq hminus, hcs₁, hcs₂, hcs₃]
  simp only [Literal.chars, Numeral.chars, List.append_assoc]

/-! ## Steps of the scanner -/

/-- The key of a member that is found, with its colon and all white space around both. -/
theorem exists_key {cs cs₁ cs₂ cs₃ rest : List Char} {ps : List Piece}
    (hquote : skipBlank cs = '"' :: cs₁) (hpieces : pieces cs₁ = some (ps, cs₂))
    (hcolon : skipBlank cs₂ = ':' :: cs₃) {b : Blank} (hrest : cs₃ = b.chars ++ rest) :
    ∃ k : Key, k.string? = string? ps ∧ cs = k.chars ++ rest := by
  obtain ⟨before, hbefore⟩ := exists_blank cs
  obtain ⟨ss, hss, rfl⟩ := exists_strokes hpieces
  obtain ⟨beforeColon, hbeforeColon⟩ := exists_blank cs₂
  refine ⟨⟨before, ss, beforeColon, b⟩, rfl, ?_⟩
  rw [hbefore, hquote, hss, hbeforeColon, hcolon, hrest]
  simp [Key.chars, Stroke.quoted]

/-- Items without a fault are an item and a comma with more of them, or an item and the bracket. -/
theorem items_cases {fuel : Nat} {cs rest : List Char} {ts : List Tree}
    (h : items (fuel + 1) cs = (ts, rest)) (hts : Tree.intactItems ts) :
    ∃ t cs₁, tree fuel cs = (t, cs₁) ∧ t.intact ∧
      ((∃ cs₂ more, skipBlank cs₁ = ',' :: cs₂ ∧ items fuel cs₂ = (more, rest) ∧
        Tree.intactItems more ∧ ts = t :: more) ∨ (skipBlank cs₁ = ']' :: rest ∧ ts = [t])) := by
  obtain ⟨t, cs₁, htree⟩ : ∃ t cs₁, tree fuel cs = (t, cs₁) := ⟨_, _, rfl⟩
  refine ⟨t, cs₁, htree, ?_⟩
  rw [items, htree] at h
  dsimp only at h
  split at h
  · rename_i cs₂ hcomma
    obtain ⟨rfl, rfl⟩ := Prod.mk.inj h
    obtain ⟨ht, hmore⟩ := Bool.and_eq_true_iff.mp hts
    exact ⟨ht, .inl ⟨cs₂, _, hcomma, rfl, hmore, rfl⟩⟩
  · rename_i hbracket
    cases h
    exact ⟨(Bool.and_eq_true_iff.mp hts).1, .inr ⟨hbracket, rfl⟩⟩
  · cases h
    cases (Bool.and_eq_true_iff.mp hts).2

/-- Members without a fault are a member and a comma with more of them, or a member and the
brace. -/
theorem members_cases {fuel : Nat} {cs rest : List Char} {ts : List (Option String × Tree)}
    (h : members (fuel + 1) cs = (ts, rest)) (hts : Tree.intactMembers ts) :
    ∃ cs₁ ps cs₂ cs₃ t cs₄, skipBlank cs = '"' :: cs₁ ∧ pieces cs₁ = some (ps, cs₂) ∧
      skipBlank cs₂ = ':' :: cs₃ ∧ tree fuel cs₃ = (t, cs₄) ∧ t.intact ∧
      ((∃ cs₅ more, skipBlank cs₄ = ',' :: cs₅ ∧ members fuel cs₅ = (more, rest) ∧
        Tree.intactMembers more ∧ ts = (string? ps, t) :: more) ∨
        (skipBlank cs₄ = '}' :: rest ∧ ts = [(string? ps, t)])) := by
  rw [members] at h
  -- A fault in the key or at the colon leaves a broken leaf.
  split at h
  case h_2 => cases h; cases hts
  rename_i cs₁ hquote
  split at h
  case h_1 => cases h; cases hts
  rename_i ps cs₂ hpieces
  split at h
  case h_2 => cases h; cases hts
  rename_i cs₃ hcolon
  obtain ⟨t, cs₄, htree⟩ : ∃ t cs₄, tree fuel cs₃ = (t, cs₄) := ⟨_, _, rfl⟩
  refine ⟨cs₁, ps, cs₂, cs₃, t, cs₄, hquote, hpieces, hcolon, htree, ?_⟩
  rw [htree] at h
  dsimp only at h
  split at h
  · rename_i cs₅ hcomma
    obtain ⟨rfl, rfl⟩ := Prod.mk.inj h
    obtain ⟨ht, hmore⟩ := Bool.and_eq_true_iff.mp hts
    exact ⟨ht, .inl ⟨cs₅, _, hcomma, rfl, hmore, rfl⟩⟩
  · rename_i hbrace
    cases h
    exact ⟨(Bool.and_eq_true_iff.mp hts).1, .inr ⟨hbrace, rfl⟩⟩
  · cases h
    cases (Bool.and_eq_true_iff.mp hts).2

/-! ## Trees -/

mutual

/-- The characters that were passed in finding a tree without a broken leaf spell it, after white
space. -/
theorem exists_spelling (fuel : Nat) {cs rest : List Char} {t : Tree}
    (h : tree fuel cs = (t, rest)) (ht : t.intact) :
    ∃ (b : Blank) (x : Spelling), cs = b.chars ++ (x.chars ++ rest) ∧ x.tree = t := by
  match fuel with
  | 0 =>
    cases h
    cases ht
  | fuel + 1 =>
    obtain ⟨b, hb⟩ := exists_blank cs
    refine ⟨b, ?_⟩
    rw [hb]
    rw [tree] at h
    split at h
    · rename_i hword
      cases h
      exact ⟨.null, congrArg _ hword, rfl⟩
    · rename_i hword
      cases h
      exact ⟨.boolean true, congrArg _ hword, rfl⟩
    · rename_i hword
      cases h
      exact ⟨.boolean false, congrArg _ hword, rfl⟩
    · rename_i hquote
      split at h
      · rename_i ps after hpieces
        cases h
        obtain ⟨ss, hss, rfl⟩ := exists_strokes hpieces
        refine ⟨.string ss, ?_, rfl⟩
        rw [Spelling.chars, quoted_append, hquote, hss]
      · cases h
        cases ht
    · rename_i cs₁ hopen
      rw [hopen]
      split at h
      · rename_i hclose
        cases h
        obtain ⟨inside, hinside⟩ := exists_blank cs₁
        refine ⟨.array inside [], ?_, rfl⟩
        rw [hinside, hclose, Spelling.chars]
        simp
      · obtain ⟨rfl, rfl⟩ := Prod.mk.inj h
        obtain ⟨x, xs, hxs, htrees⟩ := exists_spelling_items fuel (Prod.eta _).symm ht
        refine ⟨.array .none (x :: xs), ?_, congrArg Tree.array htrees⟩
        rw [Spelling.chars, List.cons_append, ← hxs]
    · rename_i cs₁ hopen
      rw [hopen]
      split at h
      · rename_i hclose
        cases h
        obtain ⟨inside, hinside⟩ := exists_blank cs₁
        refine ⟨.object inside [], ?_, rfl⟩
        rw [hinside, hclose, Spelling.chars]
        simp
      · obtain ⟨rfl, rfl⟩ := Prod.mk.inj h
        obtain ⟨m, ms, hms, htrees⟩ := exists_spelling_members fuel (Prod.eta _).symm ht
        refine ⟨.object .none (m :: ms), ?_, congrArg Tree.object htrees⟩
        rw [Spelling.chars, List.cons_append, ← hms]
    · split at h
      · rename_i n after hnumeral
        cases h
        obtain ⟨l, rfl, hl⟩ := exists_literal hnumeral
        exact ⟨.number l, congrArg _ hl, rfl⟩
      · cases h
        cases ht
termination_by structural fuel

theorem exists_spelling_items (fuel : Nat) {cs rest : List Char} {ts : List Tree}
    (h : items fuel cs = (ts, rest)) (hts : Tree.intactItems ts) :
    ∃ x xs, cs = itemChars (x :: xs) ++ rest ∧ itemTrees (x :: xs) = ts := by
  match fuel with
  | 0 =>
    cases h
    cases hts
  | fuel + 1 =>
    obtain ⟨t, cs₁, htree, ht, hnext⟩ := items_cases h hts
    obtain ⟨before, x, hcs, rfl⟩ := exists_spelling fuel htree ht
    obtain ⟨after, hafter⟩ := exists_blank cs₁
    obtain ⟨cs₂, more, hcomma, hitems, hmore, rfl⟩ | ⟨hbracket, rfl⟩ := hnext
    · obtain ⟨y, ys, hys, rfl⟩ := exists_spelling_items fuel hitems hmore
      refine ⟨(before, x, after), y :: ys, ?_, rfl⟩
      rw [itemChars_append, hcs, hafter, hcomma, hys]
      rfl
    · refine ⟨(before, x, after), [], ?_, rfl⟩
      rw [itemChars_append, hcs, hafter, hbracket]
      rfl
termination_by structural fuel

theorem exists_spelling_members (fuel : Nat) {cs rest : List Char}
    {ts : List (Option String × Tree)} (h : members fuel cs = (ts, rest))
    (hts : Tree.intactMembers ts) :
    ∃ m ms, cs = memberChars (m :: ms) ++ rest ∧ memberTrees (m :: ms) = ts := by
  match fuel with
  | 0 =>
    cases h
    cases hts
  | fuel + 1 =>
    obtain ⟨cs₁, ps, cs₂, cs₃, t, cs₄, hquote, hpieces, hcolon, htree, ht, hnext⟩ :=
      members_cases h hts
    obtain ⟨b, x, hcs, rfl⟩ := exists_spelling fuel htree ht
    obtain ⟨key, hstring, hkey⟩ := exists_key hquote hpieces hcolon hcs
    obtain ⟨after, hafter⟩ := exists_blank cs₄
    obtain ⟨cs₅, more, hcomma, hmembers, hmore, rfl⟩ | ⟨hbrace, rfl⟩ := hnext
    · obtain ⟨n, ns, hns, rfl⟩ := exists_spelling_members fuel hmembers hmore
      refine ⟨(key, x, after), n :: ns, ?_, ?_⟩
      · rw [memberChars_append, hkey, hafter, hcomma, hns]
        rfl
      · rw [memberTrees, hstring]
    · refine ⟨(key, x, after), [], ?_, ?_⟩
      · rw [memberChars_append, hkey, hafter, hbrace]
        rfl
      · rw [memberTrees, hstring, memberTrees]
termination_by structural fuel

end

end Scan

/-- The texts that are scanned to their end without a fault are those that follow the grammar of JSON,
and they spell what is found. -/
theorem Tree.ofText_eq_iff {text : String} {t : Tree} :
    (Tree.ofText text = (t, true) ∧ t.intact) ↔
      ∃ (lead : Spelling.Blank) (x : Spelling) (trail : Spelling.Blank),
        text = x.text lead trail ∧ x.tree = t := by
  constructor
  · rintro ⟨htext, ht⟩
    obtain ⟨t', rest, hscan⟩ : ∃ t' rest, Tree.scan text.toList = (t', rest) := ⟨_, _, rfl⟩
    rw [Tree.ofText, hscan] at htext
    obtain ⟨rfl, hrest⟩ := Prod.mk.inj htext
    obtain ⟨lead, x, hchars, hx⟩ := Scan.exists_spelling _ hscan ht
    have htrail : ∀ c ∈ rest, c ∈ Spelling.blanks := fun c hc =>
      Scan.mem_blanks (List.all_eq_true.mp hrest c hc)
    refine ⟨lead, x, ⟨rest, htrail⟩, ?_, hx⟩
    rw [Spelling.text, ← hchars, String.ofList_toList]
  · rintro ⟨lead, x, trail, rfl, rfl⟩
    exact ⟨Tree.ofText_spelling lead x trail, x.intact_tree⟩

end AudioScore
