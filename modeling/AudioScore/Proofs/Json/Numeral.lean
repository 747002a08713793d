import AudioScore.Json.Scan
import AudioScore.Json.Text
import AudioScore.Proofs.Binary64.Decimal
import Mathlib.Data.List.Basic

/-!
# Numbers read back

The text of a number is the text of a numeral: a sign, a whole part, and perhaps a fraction and
an exponent. The scanner finds that numeral again in front of anything that cannot go on a
number, however its exponent is introduced.

* `numeral_chars`: a well-formed numeral is found again.
* `Decimal.exists_numeral`: the text of a decimal is that of a numeral of the same value.
* `Number.exists_numeral`: the text of a number is that of a numeral which stands for it.
-/

namespace AudioScore

namespace Scan

/-! ## What can follow a number -/

/-- The characters do not start with a digit. -/
def NoDigit (cs : List Char) : Prop := ∀ c ∈ cs.head?, c.isDigit = false

/-- The characters do not start with anything that goes on a number. -/
def EndsNumber (cs : List Char) : Prop :=
  ∀ c ∈ cs.head?, c.isDigit = false ∧ c ≠ '.' ∧ c ≠ 'e' ∧ c ≠ 'E'

theorem EndsNumber.noDigit {cs : List Char} (h : EndsNumber cs) : NoDigit cs :=
  fun c hc => (h c hc).1

theorem noDigit_cons {c : Char} (h : c.isDigit = false) (cs : List Char) : NoDigit (c :: cs) := by
  intro d hd
  cases hd
  exact h

theorem endsNumber_cons {c : Char} (h : c.isDigit = false ∧ c ≠ '.' ∧ c ≠ 'e' ∧ c ≠ 'E')
    (cs : List Char) : EndsNumber (c :: cs) := by
  intro d hd
  cases hd
  exact h

/-! ## Digits -/

theorem digits_append {ds rest : List Char} (hds : ∀ c ∈ ds, c.isDigit) (hr : NoDigit rest) :
    digits (ds ++ rest) = (ds, rest) := by
  unfold digits
  rw [List.takeWhile_append_of_pos hds, List.dropWhile_append_of_pos hds]
  cases rest with
  | nil => simp
  | cons c cs =>
    have hc : c.isDigit = false := hr c rfl
    simp [hc]

/-- The digits of a whole number: at least one, and no zero in front of others. -/
structure IsWhole (ds : List Char) : Prop where
  ne_nil : ds ≠ []
  isDigit : ∀ c ∈ ds, c.isDigit
  leading : ds.head? = some '0' → ds = ['0']

theorem toDigits_head {n : Nat} (h : n ≠ 0) : (Nat.toDigits 10 n).head? ≠ some '0' := by
  induction n using Nat.strongRecOn with
  | ind n ih =>
    by_cases hlt : n < 10
    · rw [Nat.toDigits_of_lt_base hlt]
      have hall : ∀ m < 10, m ≠ 0 → [m.digitChar].head? ≠ some '0' := by decide
      exact hall n hlt h
    · rw [Nat.toDigits_of_base_le (by omega) (Nat.le_of_not_lt hlt),
        List.head?_append_of_ne_nil _ Nat.toDigits_ne_nil]
      exact ih (n / 10) (by omega) (by omega)

theorem isWhole_toDigits (n : Nat) : IsWhole (Nat.toDigits 10 n) where
  ne_nil := Nat.toDigits_ne_nil
  isDigit _ hc := Nat.isDigit_of_mem_toDigits (by omega) (by omega) hc
  leading h0 := by
    by_cases h : n = 0
    · subst h
      rfl
    · exact absurd h0 (toDigits_head h)

theorem natOfDigits_toDigits (n : Nat) : natOfDigits (Nat.toDigits 10 n) = n :=
  Nat.ofDigitChars_ten_toDigits

theorem natOfDigits_leading_zeros (n : Nat) (ds : List Char) :
    natOfDigits (List.replicate n '0' ++ ds) = natOfDigits ds := by
  unfold natOfDigits
  rw [Nat.ofDigitChars_append, Nat.ofDigitChars_replicate_zero, Nat.mul_zero]

theorem natOfDigits_trailing_zeros (ds : List Char) (n : Nat) :
    natOfDigits (ds ++ List.replicate n '0') = natOfDigits ds * 10 ^ n := by
  unfold natOfDigits
  rw [Nat.ofDigitChars_append, Nat.ofDigitChars_replicate_zero, Nat.mul_comm]

/-! ## The parts of a numeral -/

theorem whole_append {ds rest : List Char} (h : IsWhole ds) (hr : NoDigit rest) :
    whole (ds ++ rest) = some (ds, rest) := by
  unfold whole
  rw [digits_append h.isDigit hr]
  split
  · rename_i heq
    exact absurd (Prod.mk.inj heq).1 h.ne_nil
  · rename_i heq
    have hds := (Prod.mk.inj heq).1
    have hone := h.leading (by rw [hds]; rfl)
    rw [hds] at hone
    cases hone
  · rfl

theorem fraction_none {rest : List Char} (hr : ∀ c ∈ rest.head?, c ≠ '.') :
    fraction rest = some (none, rest) := by
  unfold fraction
  split
  · exact absurd rfl (hr '.' rfl)
  · rfl

theorem fraction_point {ds rest : List Char} (hne : ds ≠ []) (hds : ∀ c ∈ ds, c.isDigit)
    (hr : NoDigit rest) : fraction ('.' :: (ds ++ rest)) = some (some ds, rest) := by
  simp only [fraction]
  rw [digits_append hds hr]
  split
  · rename_i heq
    exact absurd (Prod.mk.inj heq).1 hne
  · rename_i heq
    cases heq
    rfl

theorem exponent_none {rest : List Char} (hr : EndsNumber rest) :
    exponent rest = some (none, rest) := by
  unfold exponent
  split
  · rename_i c cs
    have hc := hr c rfl
    rw [if_neg (by simp [hc.2.2])]
  · rfl

/-- How an exponent is introduced: by which letter, and whether its plus sign is written. -/
structure Mark where
  capital : Bool
  plus : Bool

namespace Mark

/-- How the exponents of numbers are introduced in text that is written. -/
def usual : Mark := ⟨false, true⟩

/-- The letter in front of an exponent. -/
def letter (m : Mark) : Char := if m.capital then 'E' else 'e'

/-- The sign of an exponent as it is written. -/
def sign (m : Mark) (negative : Bool) : List Char :=
  if negative then ['-'] else if m.plus then ['+'] else []

theorem letter_usual : usual.letter = 'e' := rfl

theorem sign_usual (negative : Bool) : usual.sign negative = [if negative then '-' else '+'] := by
  cases negative <;> rfl

end Mark

/-- Without a sign the digits are those of a positive exponent. -/
theorem exponentSign_append (m : Mark) (negative : Bool) {cs : List Char}
    (h : ∀ c ∈ cs.head?, c.isDigit) : exponentSign (m.sign negative ++ cs) = (negative, cs) := by
  unfold Mark.sign
  cases negative with
  | true => rfl
  | false =>
    cases m.plus with
    | true => rfl
    | false =>
      simp only [Bool.false_eq_true, if_false, List.nil_append]
      unfold exponentSign
      split
      · exact absurd (h '+' rfl) (by decide)
      · exact absurd (h '-' rfl) (by decide)
      · rfl

theorem exponent_some (m : Mark) {negative : Bool} {ds rest : List Char} (hne : ds ≠ [])
    (hds : ∀ c ∈ ds, c.isDigit) (hr : NoDigit rest) :
    exponent (m.letter :: (m.sign negative ++ (ds ++ rest))) = some (some (negative, ds), rest) := by
  have hletter : m.letter = 'e' ∨ m.letter = 'E' := by
    unfold Mark.letter
    cases m.capital <;> simp
  have hsign : exponentSign (m.sign negative ++ (ds ++ rest)) = (negative, ds ++ rest) := by
    refine exponentSign_append m negative fun c hc => ?_
    rw [List.head?_append_of_ne_nil _ hne] at hc
    exact hds c (List.mem_of_mem_head? hc)
  simp only [exponent, hletter, if_true, hsign]
  rw [digits_append hds hr]
  split
  · rename_i heq
    exact absurd (Prod.mk.inj heq).1 hne
  · rename_i heq
    cases heq
    rfl

theorem minus_append (negative : Bool) {cs : List Char} (h : ∀ c ∈ cs.head?, c ≠ '-') :
    minus ((if negative then ['-'] else []) ++ cs) = (negative, cs) := by
  cases negative with
  | true => rfl
  | false =>
    cases cs with
    | nil => rfl
    | cons c cs =>
      have hc : c ≠ '-' := h c rfl
      simp only [Bool.false_eq_true, if_false, List.nil_append]
      unfold minus
      split
      · rename_i heq
        exact absurd (List.cons.inj heq).1 hc
      · rfl

/-! ## Numerals -/

namespace Numeral

/-- The fraction as it is written. -/
def fractionChars (n : Numeral) : List Char :=
  match n.fraction with
  | none => []
  | some ds => '.' :: ds

/-- The exponent as it is written. -/
def exponentChars (n : Numeral) (m : Mark) : List Char :=
  match n.exponent with
  | none => []
  | some (negative, ds) => m.letter :: (m.sign negative ++ ds)

/-- A numeral as it is written. -/
def chars (n : Numeral) (m : Mark) : List Char :=
  (if n.negative then ['-'] else []) ++ (n.whole ++ (n.fractionChars ++ n.exponentChars m))

/-- Every part that is there has digits, and the whole part does not start with a needless zero. -/
structure WellFormed (n : Numeral) : Prop where
  whole : IsWhole n.whole
  fraction : ∀ ds ∈ n.fraction, ds ≠ [] ∧ ∀ c ∈ ds, c.isDigit
  exponent : ∀ e ∈ n.exponent, e.2 ≠ [] ∧ ∀ c ∈ e.2, c.isDigit

end Numeral

theorem Mark.letter_ends (m : Mark) : m.letter.isDigit = false ∧ m.letter ≠ '.' := by
  unfold Mark.letter
  cases m.capital <;> decide

section Chars

variable {n : Numeral} (m : Mark) {rest : List Char} (hr : EndsNumber rest)

include hr

theorem exponent_chars (h : n.WellFormed) :
    exponent (n.exponentChars m ++ rest) = some (n.exponent, rest) := by
  unfold Numeral.exponentChars
  cases he : n.exponent with
  | none => exact exponent_none hr
  | some e =>
    obtain ⟨hne, hds⟩ := h.exponent e he
    rw [List.cons_append, List.append_assoc]
    exact exponent_some m hne hds hr.noDigit

theorem noDigit_exponentChars : NoDigit (n.exponentChars m ++ rest) := by
  unfold Numeral.exponentChars
  cases n.exponent with
  | none => exact hr.noDigit
  | some e => exact noDigit_cons m.letter_ends.1 _

theorem fraction_chars (h : n.WellFormed) :
    fraction (n.fractionChars ++ (n.exponentChars m ++ rest))
      = some (n.fraction, n.exponentChars m ++ rest) := by
  unfold Numeral.fractionChars
  cases hf : n.fraction with
  | none =>
    refine fraction_none ?_
    unfold Numeral.exponentChars
    cases n.exponent with
    | none => exact fun c hc => (hr c hc).2.1
    | some e =>
      intro c hc
      cases hc
      exact m.letter_ends.2
  | some ds =>
    obtain ⟨hne, hds⟩ := h.fraction ds hf
    exact fraction_point hne hds (noDigit_exponentChars m hr)

theorem noDigit_fractionChars : NoDigit (n.fractionChars ++ (n.exponentChars m ++ rest)) := by
  unfold Numeral.fractionChars
  cases n.fraction with
  | none => exact noDigit_exponentChars m hr
  | some ds => exact noDigit_cons (by decide) _

/-- A numeral is found again in front of anything that does not go on a number. -/
theorem numeral_chars (h : n.WellFormed) : numeral (n.chars m ++ rest) = some (n, rest) := by
  have hhead : ∀ c ∈ (n.whole ++ (n.fractionChars ++ (n.exponentChars m ++ rest))).head?,
      c ≠ '-' := by
    intro c hc
    rw [List.head?_append_of_ne_nil _ h.whole.ne_nil] at hc
    have hdigit := h.whole.isDigit c (List.mem_of_mem_head? hc)
    rintro rfl
    exact absurd hdigit (by decide)
  unfold numeral Numeral.chars
  simp only [List.append_assoc, minus_append _ hhead]
  rw [whole_append h.whole (noDigit_fractionChars m hr)]
  simp only [Option.bind_eq_bind, Option.bind_some, fraction_chars m hr h, exponent_chars m hr h]
  rfl

end Chars

/-- The text of a numeral starts with a minus or a digit. -/
theorem Numeral.chars_head {n : Numeral} (h : n.WellFormed) (m : Mark) :
    ∃ c cs, n.chars m = c :: cs ∧ (c = '-' ∨ c.isDigit) := by
  unfold Numeral.chars
  cases n.negative with
  | true => exact ⟨'-', _, rfl, Or.inl rfl⟩
  | false =>
    obtain ⟨c, cs, hw⟩ := List.exists_cons_of_ne_nil h.whole.ne_nil
    refine ⟨c, cs ++ (n.fractionChars ++ n.exponentChars m), by simp [hw], Or.inr ?_⟩
    exact h.whole.isDigit c (by simp [hw])

/-! ## The four layouts of a decimal -/

section Layouts

variable {ds : List Char} (hds : IsWhole ds) (negative : Bool)

include hds

theorem wellFormed_small (k : Nat) :
    Numeral.WellFormed ⟨negative, ['0'], some (List.replicate k '0' ++ ds), none⟩ := by
  refine ⟨⟨by simp, by simp, by simp⟩, fun f hf => ?_, fun e he => by cases he⟩
  cases hf
  refine ⟨by simp [hds.ne_nil], fun c hc => ?_⟩
  rcases List.mem_append.mp hc with hc | hc
  · rw [List.eq_of_mem_replicate hc]
    rfl
  · exact hds.isDigit c hc

theorem wellFormed_split {k : Nat} (hk : 0 < k) (hlt : k < ds.length) :
    Numeral.WellFormed ⟨negative, ds.take k, some (ds.drop k), none⟩ := by
  have hhead : (ds.take k).head? = ds.head? := by
    rw [List.head?_take, if_neg (Nat.ne_of_gt hk)]
  refine ⟨⟨?_, fun c hc => hds.isDigit c (List.mem_of_mem_take hc), fun h0 => ?_⟩,
    fun f hf => ?_, fun e he => by cases he⟩
  · rw [ne_eq, List.take_eq_nil_iff]
    rintro (h0 | hnil)
    · omega
    · exact hds.ne_nil hnil
  · have hone := congrArg List.length (hds.leading (hhead ▸ h0))
    simp only [List.length_singleton] at hone
    omega
  · cases hf
    refine ⟨?_, fun c hc => hds.isDigit c (List.mem_of_mem_drop hc)⟩
    rw [ne_eq, List.drop_eq_nil_iff]
    omega

theorem wellFormed_large {k : Nat} (hk : ds = ['0'] → k = 0) :
    Numeral.WellFormed ⟨negative, ds ++ List.replicate k '0', some ['0'], none⟩ := by
  refine ⟨⟨by simp [hds.ne_nil], fun c hc => ?_, fun h0 => ?_⟩, fun f hf => ?_,
    fun e he => by cases he⟩
  · rcases List.mem_append.mp hc with hc | hc
    · exact hds.isDigit c hc
    · rw [List.eq_of_mem_replicate hc]
      rfl
  · rw [List.head?_append_of_ne_nil _ hds.ne_nil] at h0
    have hone := hds.leading h0
    simp [hone, hk hone]
  · cases hf
    exact ⟨by simp, by simp⟩

theorem wellFormed_power (e : Int) :
    Numeral.WellFormed ⟨negative, ds.take 1, if ds.length = 1 then none else some (ds.drop 1),
      some (decide (e < 0), Nat.toDigits 10 e.natAbs)⟩ := by
  obtain ⟨c, cs, rfl⟩ := List.exists_cons_of_ne_nil hds.ne_nil
  refine ⟨⟨by simp, ?_, by simp⟩, fun f hf => ?_, fun x hx => ?_⟩
  · intro d hd
    exact hds.isDigit d (List.mem_of_mem_take hd)
  · split at hf
    · cases hf
    · rename_i hlen
      cases hf
      refine ⟨?_, fun d hd => hds.isDigit d (List.mem_of_mem_drop hd)⟩
      rintro hnil
      simp_all
  · cases hx
    exact ⟨Nat.toDigits_ne_nil, (isWhole_toDigits _).isDigit⟩

omit hds

theorem decimal_small (k : Nat) :
    (Numeral.mk negative ['0'] (some (List.replicate k '0' ++ ds)) none).decimal
      = ⟨natOfDigits ds, -(k + ds.length : Int)⟩ := by
  have hzero : natOfDigits (List.replicate (k + 1) '0' ++ ds) = natOfDigits ds :=
    natOfDigits_leading_zeros (k + 1) ds
  simp only [Numeral.decimal, Option.getD_some, List.length_append, List.length_replicate]
  congr 1
  omega

theorem decimal_split {k : Nat} (hlt : k < ds.length) :
    (Numeral.mk negative (ds.take k) (some (ds.drop k)) none).decimal
      = ⟨natOfDigits ds, k - ds.length⟩ := by
  simp only [Numeral.decimal, Option.getD_some, List.take_append_drop, List.length_drop]
  congr 1
  omega

theorem decimal_large (k : Nat) :
    (Numeral.mk negative (ds ++ List.replicate k '0') (some ['0']) none).decimal
      = ⟨natOfDigits ds * 10 ^ (k + 1), -1⟩ := by
  have hzeros : ds ++ List.replicate k '0' ++ ['0'] = ds ++ List.replicate (k + 1) '0' := by
    rw [List.append_assoc, List.replicate_succ']
  simp only [Numeral.decimal, Option.getD_some, hzeros, natOfDigits_trailing_zeros]
  congr 1

theorem decimal_power (hne : ds ≠ []) (e : Int) :
    (Numeral.mk negative (ds.take 1) (if ds.length = 1 then none else some (ds.drop 1))
      (some (decide (e < 0), Nat.toDigits 10 e.natAbs))).decimal
      = ⟨natOfDigits ds, e - (ds.length - 1)⟩ := by
  have hpos : 0 < ds.length := List.length_pos_iff.mpr hne
  have hdrop : (if ds.length = 1 then none else some (ds.drop 1)).getD [] = ds.drop 1 := by
    split
    · rename_i hone
      rw [List.drop_of_length_le (Nat.le_of_eq hone)]
      rfl
    · rfl
  simp only [Numeral.decimal, hdrop, List.take_append_drop, List.length_drop]
  congr 1
  by_cases he : e < 0
  · simp only [he, decide_true, natOfDigits_toDigits]
    omega
  · simp only [he, decide_false, natOfDigits_toDigits]
    omega

end Layouts

end Scan

namespace Decimal

open Scan

/-- The text of a decimal, after its sign, is that of a numeral which is not an integer and rounds
to the same double. -/
theorem exists_numeral (d : Decimal) (negative : Bool) (hd : d.digits = 0 → d.exponent = 0) :
    ∃ n : Numeral, n.WellFormed ∧ n.negative = negative ∧
      n.chars .usual = (if negative then ['-'] else []) ++ d.chars ∧
      (n.fraction.isSome || n.exponent.isSome) = true ∧
      n.decimal.toBinary64 negative = d.toBinary64 negative := by
  obtain ⟨digits, exponent⟩ := d
  dsimp only at hd
  have hds := isWhole_toDigits digits
  have hvalue := natOfDigits_toDigits digits
  have hzero : Nat.toDigits 10 digits = ['0'] → exponent = 0 := by
    intro h0
    refine hd ?_
    rw [← hvalue, h0]
    rfl
  unfold chars
  dsimp only
  generalize Nat.toDigits 10 digits = ds at hds hvalue hzero ⊢
  obtain ⟨point, hpoint⟩ : ∃ point : Int, ds.length + exponent = point := ⟨_, rfl⟩
  rw [hpoint]
  by_cases hplain : -5 < point ∧ point ≤ 16
  · rw [if_pos hplain]
    by_cases hsmall : point ≤ 0
    · refine ⟨_, wellFormed_small hds negative (-point).toNat, rfl, ?_, rfl, ?_⟩
      · simp [Numeral.chars, Numeral.fractionChars, Numeral.exponentChars, hsmall]
      · rw [decimal_small, hvalue]
        congr 2
        omega
    · rw [if_neg hsmall]
      by_cases hsplit : point < ds.length
      · refine ⟨_, wellFormed_split (k := point.toNat) hds negative (by omega) (by omega), rfl, ?_,
          rfl, ?_⟩
        · simp [Numeral.chars, Numeral.fractionChars, Numeral.exponentChars, hsplit]
        · rw [decimal_split negative (by omega), hvalue]
          congr 2
          omega
      · refine ⟨_, wellFormed_large (k := point.toNat - ds.length) hds negative (fun h0 => ?_), rfl,
          ?_, rfl, ?_⟩
        · have := hzero h0
          omega
        · simp [Numeral.chars, Numeral.fractionChars, Numeral.exponentChars, hsplit]
        · rw [decimal_large, hvalue, toBinary64_trailing_zeros negative digits (by omega)]
          congr 2
          omega
  · rw [if_neg hplain]
    refine ⟨_, wellFormed_power hds negative (point - 1), rfl, ?_, ?_, ?_⟩
    · by_cases hone : ds.length = 1
      · simp [Numeral.chars, Numeral.fractionChars, Numeral.exponentChars, hone, Mark.letter_usual,
          Mark.sign_usual]
      · simp [Numeral.chars, Numeral.fractionChars, Numeral.exponentChars, hone, Mark.letter_usual,
          Mark.sign_usual]
    · simp
    · rw [decimal_power negative hds.ne_nil, hvalue]
      congr 2
      omega

end Decimal

namespace Number

open Scan

theorem exists_numeral_integer (i : Int) (h) :
    ∃ n : Numeral, n.WellFormed ∧ n.chars .usual = intChars i ∧
      n.number? = some (.integer i h) := by
  refine ⟨⟨decide (i < 0), Nat.toDigits 10 i.natAbs, none, none⟩,
    ⟨isWhole_toDigits _, fun f hf => (by cases hf), fun e he => by cases he⟩, ?_, ?_⟩
  · unfold intChars Numeral.chars
    by_cases hi : i < 0 <;> simp [hi, Numeral.fractionChars, Numeral.exponentChars]
  · have hinteger : Numeral.integer ⟨decide (i < 0), Nat.toDigits 10 i.natAbs, none, none⟩ = i := by
      unfold Numeral.integer
      simp only [natOfDigits_toDigits]
      by_cases hi : i < 0
      · simp only [hi, decide_true, if_true]
        omega
      · simp only [hi, decide_false, Bool.false_eq_true, if_false]
        omega
    have hzero : (decide (i < 0) && i == 0) = false := by
      by_cases hi : i < 0
      · simp [Int.ne_of_lt hi]
      · simp [hi]
    unfold Numeral.number?
    simp only [hinteger, hzero, Option.isSome_none, Bool.or_false, Bool.false_eq_true, if_false]
    rw [ofInt?, dif_pos h]

theorem exists_numeral_float (x : Binary64.Finite) :
    ∃ n : Numeral, n.WellFormed ∧ n.chars .usual = x.chars ∧ n.number? = some (.float x) := by
  have hzero : x.toDecimal.digits = 0 → x.toDecimal.exponent = 0 := by
    intro h0
    by_cases hu : x.units = 0
    · rw [Binary64.Finite.toDecimal, if_pos hu]
    · exact absurd h0 (Binary64.Finite.toDecimal_digits_ne_zero hu)
  obtain ⟨n, hn, hneg, hchars, hfloat, hvalue⟩ := x.toDecimal.exists_numeral x.negative hzero
  refine ⟨n, hn, hchars, ?_⟩
  unfold Numeral.number? Numeral.float?
  rw [hneg, hvalue, x.toBinary64_toDecimal, hfloat, Bool.true_or, if_pos rfl]

/-- The text of a number is that of a numeral which stands for it. -/
theorem exists_numeral (k : Number) :
    ∃ n : Numeral, n.WellFormed ∧ n.chars .usual = k.chars ∧ n.number? = some k := by
  cases k with
  | integer i h => exact exists_numeral_integer i h
  | float x => exact exists_numeral_float x

end Number

end AudioScore
