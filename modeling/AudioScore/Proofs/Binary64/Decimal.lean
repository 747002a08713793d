import AudioScore.Binary64.Decimal

/-!
# Decimals of doubles read back

Rounding looks at a ratio and not at the two numbers that write it. So a decimal may be written
with more zeros, and the decimal of a double, whether it was found among the short ones or is the
exact one, is read as that double again.

* `ofRatio_mul_right`: rounding does not see a common factor.
* `toBinary64_trailing_zeros`: nor do zeros at the end of a decimal matter.
* `toBinary64_toDecimal`: the decimal of a double reads back to it.
-/

namespace AudioScore

namespace Binary64

/-! ## Common factors -/

theorem nearestEven_mul_right (num den : Nat) {k : Nat} (hk : 0 < k) :
    nearestEven (num * k) (den * k) = nearestEven num den := by
  unfold nearestEven
  dsimp only
  rw [Nat.mul_div_mul_right num den hk, Nat.mul_mod_mul_right]
  have hbelow : 2 * (num % den * k) < den * k ↔ 2 * (num % den) < den := by
    rw [← Nat.mul_assoc]
    exact Nat.mul_lt_mul_right hk
  have habove : den * k < 2 * (num % den * k) ↔ den < 2 * (num % den) := by
    rw [← Nat.mul_assoc]
    exact Nat.mul_lt_mul_right hk
  simp only [hbelow, habove]

theorem roundUnits_mul_right (num den : Nat) {k : Nat} (hk : 0 < k) :
    roundUnits (num * k) (den * k) = roundUnits num den := by
  unfold roundUnits
  dsimp only
  rw [Nat.mul_div_mul_right num den hk, Nat.mul_right_comm den k, nearestEven_mul_right _ _ hk]

theorem ofUnits_mul_right (negative : Bool) (num den : Nat) {k : Nat} (hk : 0 < k) :
    ofUnits negative (num * k) (den * k) = ofUnits negative num den := by
  unfold ofUnits
  simp only [roundUnits_mul_right num den hk]

/-- Rounding a ratio does not see a common factor of its terms. -/
theorem ofRatio_mul_right (negative : Bool) (num den : Nat) {k : Nat} (hk : 0 < k) :
    ofRatio negative (num * k) (den * k) = ofRatio negative num den := by
  unfold ofRatio
  rw [Nat.mul_right_comm num k, ofUnits_mul_right _ _ _ hk]

end Binary64

namespace Decimal

/-! ## Reading decimals -/

theorem toBinary64_natCast (negative : Bool) {digits e : Nat} (h0 : digits ≠ 0) (he : e ≤ 400) :
    toBinary64 negative ⟨digits, e⟩ = Binary64.ofRatio negative (digits * 10 ^ e) 1 := by
  unfold toBinary64
  rw [if_neg h0, if_neg (by dsimp only; omega), if_neg (by dsimp only; omega)]

theorem toBinary64_negSucc (negative : Bool) {digits e : Nat} (h0 : digits ≠ 0)
    (he : e < length digits + 400) :
    toBinary64 negative ⟨digits, .negSucc e⟩ = Binary64.ofRatio negative digits (10 ^ (e + 1)) := by
  have hlow : ¬ (Int.negSucc e + length digits < -400) := by omega
  unfold toBinary64
  rw [if_neg h0, if_neg (by dsimp only; omega), if_neg hlow]

theorem lt_length {n k : Nat} (h : 10 ^ k ≤ n) : k < length n := by
  cases k with
  | zero => exact Nat.length_toDigits_pos
  | succ k =>
    refine Nat.lt_of_not_le fun hle => ?_
    have hlt := (Nat.length_toDigits_le_iff (by omega) (Nat.succ_pos k)).mp hle
    exact absurd h (Nat.not_le.mpr hlt)

/-- Zeros up to the point and one after it change nothing. -/
theorem toBinary64_trailing_zeros (negative : Bool) (digits : Nat) {e : Nat} (he : e ≤ 400) :
    toBinary64 negative ⟨digits * 10 ^ (e + 1), -1⟩ = toBinary64 negative ⟨digits, e⟩ := by
  by_cases h0 : digits = 0
  · simp [toBinary64, h0]
  have hne : digits * 10 ^ (e + 1) ≠ 0 :=
    Nat.mul_ne_zero h0 (Nat.ne_of_gt (Nat.pow_pos (by omega)))
  have hneg : (-1 : Int) = .negSucc 0 := rfl
  calc toBinary64 negative ⟨digits * 10 ^ (e + 1), -1⟩
      = Binary64.ofRatio negative (digits * 10 ^ e * 10) (1 * 10) := by
        rw [hneg, toBinary64_negSucc negative hne (by omega), Nat.pow_succ, ← Nat.mul_assoc]
    _ = Binary64.ofRatio negative (digits * 10 ^ e) 1 :=
        Binary64.ofRatio_mul_right _ _ _ (by omega)
    _ = toBinary64 negative ⟨digits, e⟩ := (toBinary64_natCast negative h0 he).symm

end Decimal

namespace Binary64.Finite

/-! ## The decimal of a double -/

theorem eq_zero_of_units {x : Finite} (h : x.units = 0) : zero x.negative = x := by
  obtain ⟨negative, units, hr⟩ := x
  subst h
  rfl

theorem ten_pow_le_five_pow (k : Nat) : 10 ^ (2 * k) ≤ 5 ^ (3 * k) := by
  rw [Nat.pow_mul, Nat.pow_mul]
  exact Nat.pow_le_pow_left (by omega) k

theorem lt_length_mul_five_pow {u k n : Nat} (hu : u ≠ 0) (h : 3 * k ≤ n) :
    2 * k < Decimal.length (u * 5 ^ n) := by
  refine Decimal.lt_length ?_
  calc 10 ^ (2 * k) ≤ 5 ^ (3 * k) := ten_pow_le_five_pow k
    _ ≤ 5 ^ n := Nat.pow_le_pow_right (by omega) h
    _ ≤ u * 5 ^ n := Nat.le_mul_of_pos_left _ (Nat.pos_of_ne_zero hu)

theorem ofRatio_mul_five_pow (x : Finite) {n : Nat} (hone : one = 2 ^ n) :
    ofRatio x.negative (x.units * 5 ^ n) (10 ^ n) = .finite x := by
  have hten : 5 ^ n * 2 ^ n = 10 ^ n := (Nat.mul_pow 5 2 n).symm
  calc ofRatio x.negative (x.units * 5 ^ n) (10 ^ n)
      = ofUnits x.negative (x.units * 10 ^ n) (1 * 10 ^ n) := by
        rw [ofRatio, hone, Nat.mul_assoc, hten, Nat.one_mul]
    _ = ofUnits x.negative x.units 1 := ofUnits_mul_right _ _ _ (Nat.pow_pos (by omega))
    _ = .finite x := ofUnits_units x

/-- The first digit of a double stands in the 324th place or before it, so the exact decimal of a
double does not count as nearest to zero. -/
theorem toBinary64_mul_five_pow {x : Finite} (h : x.units ≠ 0) {m n : Nat} (hm : m + 1 = n)
    (hn : n = unitBits) (hone : one = 2 ^ n) :
    Decimal.toBinary64 x.negative ⟨x.units * 5 ^ n, .negSucc m⟩ = .finite x := by
  have hbits : unitBits = 1074 := rfl
  have hne : x.units * 5 ^ n ≠ 0 := Nat.mul_ne_zero h (Nat.ne_of_gt (Nat.pow_pos (by omega)))
  have hlen : 2 * 337 < Decimal.length (x.units * 5 ^ n) := lt_length_mul_five_pow h (by omega)
  rw [Decimal.toBinary64_negSucc _ hne (by omega), hm, ofRatio_mul_five_pow x hone]

theorem toBinary64_exactDecimal {x : Finite} (h : x.units ≠ 0) :
    x.exactDecimal.toBinary64 x.negative = .finite x := by
  have hexponent : (-1074 : Int) = .negSucc 1073 := rfl
  have hone : one = 2 ^ (1074 : Nat) := by rw [one, unitBits]
  rw [exactDecimal, hexponent]
  -- The exponent gets a name, so that no power of this size is multiplied out.
  generalize hn : 1074 = n at hone ⊢
  exact toBinary64_mul_five_pow h hn hn.symm hone

/-- The decimal of a double reads back to it, with the sign of the double. -/
theorem toBinary64_toDecimal (x : Finite) : x.toDecimal.toBinary64 x.negative = .finite x := by
  unfold toDecimal
  split
  · rename_i h0
    exact congrArg Binary64.finite (eq_zero_of_units h0)
  · rename_i hne
    dsimp only
    cases hs : (List.range 17).findSome? fun n =>
        (neighbours x.units (n + 1)).find? fun d => d.toBinary64 x.negative = .finite x with
    | none => exact toBinary64_exactDecimal hne
    | some d =>
      obtain ⟨n, -, hn⟩ := List.exists_of_findSome?_eq_some hs
      simpa using List.find?_some hn

/-- Only zero has a decimal without digits that matter. -/
theorem toDecimal_digits_ne_zero {x : Finite} (h : x.units ≠ 0) : x.toDecimal.digits ≠ 0 := by
  intro h0
  have hback := toBinary64_toDecimal x
  rw [Decimal.toBinary64, if_pos h0] at hback
  have hzero : zero x.negative = x := Binary64.finite.inj hback
  exact h (congrArg Finite.units hzero.symm)

end Binary64.Finite

end AudioScore
