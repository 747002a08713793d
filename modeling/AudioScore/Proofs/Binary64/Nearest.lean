import AudioScore.Binary64.Basic

/-!
# Whole numbers become the nearest double

Rounding keeps a multiple of the last place that is left. No double lies nearer to the number, and
where another one lies as near, the one that is taken has the even last place.

* `Binary64.distance_nearestEven_le`, `Binary64.even_of_tie`: rounding to multiples.
* `Binary64.distance_roundUnits_le`, `Binary64.dvd_of_tie`: rounding to doubles.
* `Binary64.Finite.IsNearest`, `Binary64.Finite.IsNearest.eq`: the double nearest to a whole number.
* `Binary64.ofInt_isNearest`: it is what the number becomes.
-/

namespace AudioScore

namespace Binary64

/-! ## Multiples -/

/-- How far two numbers of units are from each other. -/
def distance (a b : Nat) : Nat := (a - b) + (b - a)

theorem nearestEven_cases (num den : Nat) :
    (nearestEven num den = num / den ∧ 2 * (num % den) ≤ den ∧
      (2 * (num % den) = den → nearestEven num den % 2 = 0)) ∨
    (nearestEven num den = num / den + 1 ∧ den ≤ 2 * (num % den) ∧
      (2 * (num % den) = den → nearestEven num den % 2 = 0)) := by
  unfold nearestEven
  dsimp only
  split
  · exact .inl ⟨rfl, by omega, by omega⟩
  · split
    · exact .inr ⟨rfl, by omega, by omega⟩
    · rcases Nat.mod_two_eq_zero_or_one (num / den) with heven | hodd
      · exact .inl ⟨by omega, by omega, by omega⟩
      · exact .inr ⟨by omega, by omega, by omega⟩

/-- A multiple is one of two that follow each other, or lies a whole step outside of them. -/
theorem mul_cases (k q d : Nat) :
    k * d + d ≤ q * d ∨ k = q ∨ k = q + 1 ∨ q * d + 2 * d ≤ k * d := by
  rcases Nat.lt_or_ge k q with hlt | hge
  · have hstep := Nat.mul_le_mul_right d hlt
    rw [Nat.succ_mul] at hstep
    exact .inl hstep
  · rcases Nat.lt_or_ge (q + 1) k with hgt | hle
    · have hstep := Nat.mul_le_mul_right d hgt
      rw [Nat.succ_mul, Nat.succ_mul] at hstep
      exact .inr (.inr (.inr (by omega)))
    · omega

theorem distance_nearestEven_le (num k : Nat) {den : Nat} (hden : 0 < den) :
    distance (nearestEven num den * den) num ≤ distance (k * den) num := by
  have hsplit := Nat.div_add_mod num den
  have hrest := Nat.mod_lt num hden
  have hnext : (num / den + 1) * den = num / den * den + den := Nat.succ_mul _ _
  rw [Nat.mul_comm] at hsplit
  unfold distance
  rcases nearestEven_cases num den with ⟨heq, hle, -⟩ | ⟨heq, hle, -⟩ <;> rw [heq]
  · rcases mul_cases k (num / den) den with hk | rfl | rfl | hk <;> omega
  · rcases mul_cases k (num / den) den with hk | rfl | rfl | hk <;> omega

/-- Of two multiples that are equally near the even one is taken. -/
theorem even_of_tie {num k den : Nat} (hden : 0 < den) (hne : k ≠ nearestEven num den)
    (htie : distance (k * den) num = distance (nearestEven num den * den) num) :
    nearestEven num den % 2 = 0 ∧ k % 2 = 1 := by
  have hsplit := Nat.div_add_mod num den
  have hrest := Nat.mod_lt num hden
  have hnext : (num / den + 1) * den = num / den * den + den := Nat.succ_mul _ _
  rw [Nat.mul_comm] at hsplit
  unfold distance at htie
  rcases nearestEven_cases num den with ⟨heq, hle, heven⟩ | ⟨heq, hle, heven⟩ <;>
    rw [heq] at htie hne heven ⊢
  · rcases mul_cases k (num / den) den with hk | rfl | rfl | hk <;> omega
  · rcases mul_cases k (num / den) den with hk | rfl | rfl | hk <;> omega

/-! ## Doubles -/

/-- A number of which 53 bits matter is a multiple of the last place of another number, or has
fewer places than that. -/
theorem multiple_or_lt {m t : Nat} (hm : m < 2 ^ (53 : Nat)) (s : Nat) :
    (∃ k, m * 2 ^ t = k * 2 ^ s) ∨ (0 < s ∧ m * 2 ^ t < 2 ^ (52 + s)) := by
  rcases Nat.lt_or_ge t s with hlt | hge
  · right
    refine ⟨by omega, ?_⟩
    calc m * 2 ^ t < 2 ^ (53 : Nat) * 2 ^ t := Nat.mul_lt_mul_of_pos_right hm (Nat.two_pow_pos t)
      _ = 2 ^ (53 + t) := (Nat.pow_add 2 53 t).symm
      _ ≤ 2 ^ (52 + s) := Nat.pow_le_pow_right (by omega) (by omega)
  · left
    refine ⟨m * 2 ^ (t - s), ?_⟩
    rw [Nat.mul_assoc, ← Nat.pow_add, Nat.sub_add_cancel hge]

theorem two_pow_le_of_droppedBits {u : Nat} (h : 0 < droppedBits u) :
    2 ^ (52 + droppedBits u) ≤ u := by
  unfold droppedBits at h ⊢
  have hne : u ≠ 0 := by
    rintro rfl
    rw [Nat.log2_zero] at h
    omega
  have hlog : 52 + (u.log2 - 52) = u.log2 := by omega
  rw [hlog]
  exact Nat.log2_self_le hne

theorem roundUnits_one (u : Nat) :
    roundUnits u 1 = nearestEven u (2 ^ droppedBits u) * 2 ^ droppedBits u := by
  simp only [roundUnits, Nat.div_one, Nat.one_mul]

/-- A number that has fewer places is farther away than what is rounded to. -/
theorem distance_roundUnits_lt {u y : Nat} (hs : 0 < droppedBits u)
    (hy : y < 2 ^ (52 + droppedBits u)) : distance (roundUnits u 1) u < distance y u := by
  -- The least number with all 53 places is a multiple of the last place, and lies between the two.
  have hu := two_pow_le_of_droppedBits hs
  have hle := distance_nearestEven_le u (2 ^ (52 : Nat)) (Nat.two_pow_pos (droppedBits u))
  rw [← roundUnits_one, ← Nat.pow_add] at hle
  unfold distance at hle ⊢
  omega

/-- No double is nearer to a number of units than the one that is rounded to. -/
theorem distance_roundUnits_le (u : Nat) {y : Nat} (hy : Representable y) :
    distance (roundUnits u 1) u ≤ distance y u := by
  obtain ⟨-, m, t, hm, rfl⟩ := hy
  rcases multiple_or_lt hm (droppedBits u) with ⟨k, hk⟩ | ⟨hs, hlt⟩
  · rw [hk, roundUnits_one]
    exact distance_nearestEven_le u k (Nat.two_pow_pos _)
  · exact Nat.le_of_lt (distance_roundUnits_lt hs hlt)

/-- Of two doubles that are equally near the one whose last place is even is taken. -/
theorem dvd_of_tie {u y : Nat} (hy : Representable y) (hne : y ≠ roundUnits u 1)
    (htie : distance y u = distance (roundUnits u 1) u) :
    ∃ p : Nat, 2 ^ p ∣ roundUnits u 1 ∧ ¬ 2 ^ p ∣ y := by
  obtain ⟨-, m, t, hm, rfl⟩ := hy
  rcases multiple_or_lt hm (droppedBits u) with ⟨k, hk⟩ | ⟨hs, hlt⟩
  · rw [roundUnits_one] at hne htie ⊢
    rw [hk] at hne htie ⊢
    have hpos : 0 < 2 ^ droppedBits u := Nat.two_pow_pos _
    obtain ⟨heven, hodd⟩ := even_of_tie hpos (fun heq => hne (by rw [heq])) htie
    refine ⟨droppedBits u + 1, ?_, fun hdvd => ?_⟩
    · rw [Nat.pow_succ, Nat.mul_comm]
      exact Nat.mul_dvd_mul (Nat.dvd_of_mod_eq_zero heven) (Nat.dvd_refl _)
    · rw [Nat.pow_succ, Nat.mul_comm k] at hdvd
      have htwo := Nat.dvd_of_mul_dvd_mul_left hpos hdvd
      omega
  · have hfar := distance_roundUnits_lt hs hlt
    omega

theorem roundUnits_le_double (u : Nat) : roundUnits u 1 ≤ 2 * u := by
  have hle := distance_nearestEven_le u 0 (Nat.two_pow_pos (droppedBits u))
  rw [← roundUnits_one] at hle
  unfold distance at hle
  omega

/-! ## Whole numbers -/

namespace Finite

/-- A double in units, with its sign. -/
def toUnits (x : Finite) : Int := if x.negative then -(x.units : Int) else x.units

/-- How far a double is from a whole number, in units. -/
def gap (x : Finite) (n : Int) : Nat := (x.toUnits - n * one).natAbs

/-- No double is nearer to a whole number. Where another one is as near, this is the one with the
even last place: some power of two divides this one and not the other. -/
structure IsNearest (x : Finite) (n : Int) : Prop where
  negative_eq : x.negative = decide (n < 0)
  gap_le : ∀ y : Finite, x.gap n ≤ y.gap n
  even : ∀ y : Finite, y.gap n = x.gap n →
    y.toUnits = x.toUnits ∨ ∃ p : Nat, 2 ^ p ∣ x.units ∧ ¬ 2 ^ p ∣ y.units

theorem IsNearest.eq {x y : Finite} {n : Int} (hx : x.IsNearest n) (hy : y.IsNearest n) :
    x = y := by
  have hgap : x.gap n = y.gap n := Nat.le_antisymm (hx.gap_le y) (hy.gap_le x)
  have hsign : x.negative = y.negative := hx.negative_eq.trans hy.negative_eq.symm
  have htoUnits : x.toUnits = y.toUnits := by
    obtain heq | ⟨p, hpy, hpx⟩ := hy.even x hgap
    · exact heq
    obtain heq | ⟨q, hqx, hqy⟩ := hx.even y hgap.symm
    · exact heq.symm
    -- Of two powers of two one divides the other, so neither double can be the more even one.
    rcases Nat.le_total p q with hpq | hqp
    · exact absurd (Nat.dvd_trans (Nat.pow_dvd_pow 2 hpq) hqx) hpx
    · exact absurd (Nat.dvd_trans (Nat.pow_dvd_pow 2 hqp) hpy) hqy
  have hunits : x.units = y.units := by
    unfold toUnits at htoUnits
    rw [hsign] at htoUnits
    split at htoUnits <;> omega
  obtain ⟨negative, units, hrepresentable⟩ := x
  obtain ⟨negative', units', hrepresentable'⟩ := y
  cases hsign
  cases hunits
  rfl

theorem natAbs_mul_one (n : Int) :
    ((n.natAbs * one : Nat) : Int) = if n < 0 then -(n * one) else n * one := by
  split
  · rw [Int.natCast_mul, Int.ofNat_natAbs_of_nonpos (by omega), Int.neg_mul]
  · rw [Int.natCast_mul, Int.natAbs_of_nonneg (by omega)]

theorem gap_of_negative_eq {x : Finite} {n : Int} (h : x.negative = decide (n < 0)) :
    x.gap n = distance x.units (n.natAbs * one) := by
  have habs := natAbs_mul_one n
  unfold gap toUnits distance
  rw [h]
  by_cases hn : n < 0
  · rw [if_pos hn] at habs
    rw [if_pos (decide_eq_true hn)]
    omega
  · rw [if_neg hn] at habs
    rw [if_neg (by simpa using hn)]
    omega

/-- On the other side of zero a double is as far away as zero and itself together. -/
theorem gap_of_negative_ne {x : Finite} {n : Int} (h : x.negative ≠ decide (n < 0)) :
    x.gap n = n.natAbs * one + x.units := by
  have habs := natAbs_mul_one n
  unfold gap toUnits
  by_cases hn : n < 0
  · rw [if_pos hn] at habs
    rw [if_neg (by simpa [hn] using h)]
    omega
  · rw [if_neg hn] at habs
    rw [if_pos (by simpa [hn] using h)]
    omega

theorem toUnits_eq {x y : Finite} (hunits : x.units = y.units)
    (hsign : x.negative = y.negative ∨ y.units = 0) : x.toUnits = y.toUnits := by
  unfold toUnits
  rcases hsign with hsign | hzero
  · rw [hsign, hunits]
  · rw [hunits, hzero]
    split <;> split <;> rfl

/-- What the magnitude of a whole number is rounded to is nearest to it, on its side of zero. -/
theorem isNearest_of_units_eq {x : Finite} {n : Int} (hnegative : x.negative = decide (n < 0))
    (hunits : x.units = roundUnits (n.natAbs * one) 1) : x.IsNearest n := by
  have hgap := gap_of_negative_eq hnegative
  have hdistance : distance 0 (n.natAbs * one) = n.natAbs * one := by
    unfold distance
    omega
  have hle : distance x.units (n.natAbs * one) ≤ n.natAbs * one := by
    have hzero := distance_roundUnits_le (n.natAbs * one) (zero false).representable
    rw [hunits]
    exact Nat.le_trans hzero (Nat.le_of_eq hdistance)
  refine ⟨hnegative, fun y => ?_, fun y htie => ?_⟩
  · by_cases hy : y.negative = decide (n < 0)
    · rw [hgap, gap_of_negative_eq hy, hunits]
      exact distance_roundUnits_le _ y.representable
    · rw [hgap, gap_of_negative_ne hy]
      omega
  · by_cases hy : y.negative = decide (n < 0)
    · rw [hgap, gap_of_negative_eq hy, hunits] at htie
      by_cases heq : y.units = x.units
      · exact .inl (toUnits_eq heq (.inl (hy.trans hnegative.symm)))
      · rw [hunits] at heq ⊢
        exact .inr (dvd_of_tie y.representable heq htie)
    · -- Across zero only zero itself can be as near, which counts on either side.
      rw [hgap, gap_of_negative_ne hy] at htie
      have hy0 : y.units = 0 := by omega
      by_cases heq : y.units = x.units
      · exact .inl (toUnits_eq heq (.inr (heq.symm.trans hy0)))
      · have htie' : distance y.units (n.natAbs * one)
            = distance (roundUnits (n.natAbs * one) 1) (n.natAbs * one) := by
          rw [← hunits, hy0, hdistance]
          omega
        rw [hunits] at heq ⊢
        exact .inr (dvd_of_tie y.representable heq htie')

end Finite

/-- A whole number of 64 bits becomes the double nearest to it. -/
theorem ofInt_isNearest {n : Int} (h : n.natAbs ≤ 2 ^ (64 : Nat)) :
    ∃ x, ofInt n = .finite x ∧ x.IsNearest n := by
  have hlimit : roundUnits (n.natAbs * one) 1 < limit := by
    calc roundUnits (n.natAbs * one) 1 ≤ 2 * (n.natAbs * one) := roundUnits_le_double _
      _ ≤ 2 * (2 ^ (64 : Nat) * one) := Nat.mul_le_mul_left 2 (Nat.mul_le_mul_right one h)
      _ = 2 ^ (unitBits + 65) := by
        rw [one, ← Nat.mul_assoc, ← Nat.pow_succ', ← Nat.pow_add, Nat.add_comm]
      _ < limit := Nat.pow_lt_pow_right (by omega) (by omega)
  refine ⟨⟨decide (n < 0), roundUnits (n.natAbs * one) 1, representable_roundUnits hlimit⟩, ?_,
    Finite.isNearest_of_units_eq rfl rfl⟩
  unfold ofInt ofRatio ofUnits
  rw [dif_pos hlimit]

/-- Half way between two doubles. -/
example : ofInt (2 ^ 53 + 1) = ofInt (2 ^ 53) ∧ ofInt (2 ^ 53 + 3) = ofInt (2 ^ 53 + 4) := by
  decide +kernel

end Binary64

end AudioScore
