/-!
# Double-precision numbers

A finite double is a sign and a whole number of *units* of `2^-1074`, the smallest positive
double, of which at most 53 bits matter. All arithmetic is exact on whole numbers, with one
rounding at the end.

* `representable_roundUnits`: rounding gives a double, or a number past the largest one.
* `ofUnits_units`: rounding a double changes nothing.
-/

namespace AudioScore

-- Here powers of whole numbers are those of the core library, whatever else a module imports. An
-- exponent that is a literal says its type, so that this instance is looked for and no default.
attribute [scoped instance (2000)] instPowNat

namespace Binary64

/-- The power of two that divides one into units. -/
def unitBits : Nat := 1074

/-- The number of units in one. -/
def one : Nat := 2 ^ unitBits

/-- Every finite double is below this number of units, which make `2 ^ 1024`. -/
def limit : Nat := 2 ^ (unitBits + 1024)

theorem limit_pos : 0 < limit := Nat.two_pow_pos _

/-- A number of units is a double when it is below the limit and at most 53 of its bits matter. -/
def Representable (units : Nat) : Prop :=
  units < limit ∧ ∃ m s : Nat, m < 2 ^ (53 : Nat) ∧ units = m * 2 ^ s

/-- A finite double. Zero has both signs. -/
structure Finite where
  /-- Whether the sign is minus. -/
  negative : Bool
  /-- The magnitude, in units of `2^-1074`. -/
  units : Nat
  representable : Representable units
deriving DecidableEq

end Binary64

/-- A double: a finite number, an infinity or not a number. -/
inductive Binary64 where
  | finite (x : Binary64.Finite)
  | infinite (negative : Bool)
  | nan
deriving DecidableEq

namespace Binary64

/-! ## Rounding -/

/-- The whole number nearest to `num / den`; of two equally near ones, the even one. -/
def nearestEven (num den : Nat) : Nat :=
  let q := num / den
  let r := num % den
  if 2 * r < den then q
  else if den < 2 * r then q + 1
  else q + q % 2

/-- How many low bits are rounded away from a number whose whole part is `q`, to leave 53. -/
def droppedBits (q : Nat) : Nat := q.log2 - 52

/-- `num / den` rounded to 53 significant bits, with no more than whole units kept. -/
def roundUnits (num den : Nat) : Nat :=
  let s := droppedBits (num / den)
  nearestEven num (den * 2 ^ s) * 2 ^ s

theorem nearestEven_le (num den : Nat) : nearestEven num den ≤ num / den + 1 := by
  unfold nearestEven
  dsimp only
  split
  · omega
  · split
    · omega
    · have := Nat.mod_lt (num / den) (show 0 < 2 by decide)
      omega

theorem nearestEven_mul (m d : Nat) (hd : 0 < d) : nearestEven (m * d) d = m := by
  simp [nearestEven, Nat.mul_div_cancel m hd, hd]

theorem div_droppedBits_lt (q : Nat) : q / 2 ^ droppedBits q < 2 ^ (53 : Nat) := by
  rw [Nat.div_lt_iff_lt_mul (Nat.two_pow_pos _), ← Nat.pow_add]
  refine Nat.lt_of_lt_of_le Nat.lt_log2_self (Nat.pow_le_pow_right (by decide) ?_)
  unfold droppedBits
  omega

theorem nearestEven_droppedBits_le (num den : Nat) :
    nearestEven num (den * 2 ^ droppedBits (num / den)) ≤ 2 ^ (53 : Nat) := by
  refine Nat.le_trans (nearestEven_le _ _) ?_
  rw [← Nat.div_div_eq_div_mul]
  exact div_droppedBits_lt _

/-- A rounded number below the limit is a double. -/
theorem representable_roundUnits {num den : Nat} (h : roundUnits num den < limit) :
    Representable (roundUnits num den) := by
  refine ⟨h, ?_⟩
  have hle := nearestEven_droppedBits_le num den
  unfold roundUnits
  dsimp only
  generalize nearestEven num (den * 2 ^ droppedBits (num / den)) = m at hle
  rcases Nat.lt_or_eq_of_le hle with hlt | heq
  · exact ⟨m, _, hlt, rfl⟩
  · refine ⟨2 ^ (52 : Nat), droppedBits (num / den) + 1, by decide, ?_⟩
    rw [heq, ← Nat.pow_add, ← Nat.pow_add]
    congr 1
    omega

/-- The double nearest to `num / den` units. Past the largest double lies infinity. -/
def ofUnits (negative : Bool) (num den : Nat) : Binary64 :=
  if h : roundUnits num den < limit then
    .finite ⟨negative, roundUnits num den, representable_roundUnits h⟩
  else .infinite negative

/-- The double nearest to `num / den`. -/
def ofRatio (negative : Bool) (num den : Nat) : Binary64 :=
  ofUnits negative (num * one) den

/-- Rounding a number of which 53 bits matter changes nothing. -/
theorem roundUnits_of_bits {m s : Nat} (hm : m < 2 ^ (53 : Nat)) :
    roundUnits (m * 2 ^ s) 1 = m * 2 ^ s := by
  unfold roundUnits
  simp only [Nat.div_one, Nat.one_mul]
  by_cases h0 : m = 0
  · simp [h0, nearestEven]
  have hpos : m * 2 ^ s ≠ 0 := Nat.mul_ne_zero h0 (Nat.ne_of_gt (Nat.two_pow_pos s))
  have hs : droppedBits (m * 2 ^ s) ≤ s := by
    have hlt : m * 2 ^ s < 2 ^ (53 + s) := by
      rw [Nat.pow_add]
      exact Nat.mul_lt_mul_of_pos_right hm (Nat.two_pow_pos s)
    have := (Nat.log2_lt hpos).mpr hlt
    unfold droppedBits
    omega
  have hsplit : m * 2 ^ s = m * 2 ^ (s - droppedBits (m * 2 ^ s)) * 2 ^ droppedBits (m * 2 ^ s) := by
    rw [Nat.mul_assoc, ← Nat.pow_add, Nat.sub_add_cancel hs]
  generalize droppedBits (m * 2 ^ s) = d at hs hsplit ⊢
  rw [hsplit, nearestEven_mul _ _ (Nat.two_pow_pos d)]

theorem roundUnits_of_representable {u : Nat} (h : Representable u) : roundUnits u 1 = u := by
  obtain ⟨-, m, s, hm, rfl⟩ := h
  exact roundUnits_of_bits hm

/-- Rounding a double gives it back. -/
theorem ofUnits_units (x : Finite) : ofUnits x.negative x.units 1 = .finite x := by
  have h := roundUnits_of_representable x.representable
  unfold ofUnits
  rw [dif_pos (Nat.lt_of_le_of_lt (Nat.le_of_eq h) x.representable.1)]
  simp only [h]

/-! ## Constants and conversions -/

/-- Zero of either sign. -/
def Finite.zero (negative : Bool) : Finite :=
  ⟨negative, 0, limit_pos, 0, 0, by decide, by decide⟩

/-- Zero of either sign. -/
def zero (negative : Bool) : Binary64 := .finite (Finite.zero negative)

/-- The double nearest to a whole number. -/
def ofInt (n : Int) : Binary64 := ofRatio (decide (n < 0)) n.natAbs 1

/-- Whether a double is neither infinite nor not a number. -/
def isFinite : Binary64 → Bool
  | .finite _ => true
  | _ => false

/-- The product with a whole number, rounded once. -/
def mulNat : Binary64 → Nat → Binary64
  | .finite x, k => ofUnits x.negative (x.units * k) 1
  | x, _ => x

/-- The quotient by a positive whole number, rounded once. -/
def divNat : Binary64 → Nat → Binary64
  | .finite x, k => ofUnits x.negative x.units k
  | x, _ => x

/-- The whole part of a finite double, with its sign. -/
def Finite.truncate (x : Finite) : Int :=
  if x.negative then -((x.units / one : Nat) : Int) else ((x.units / one : Nat) : Int)

/-- The whole part as a 64-bit integer. Numbers out of range go to the nearer end, and what is
not a number goes to zero. -/
def toInt64 : Binary64 → Int64
  | .finite x => Int64.ofIntClamp x.truncate
  | .infinite true => Int64.minValue
  | .infinite false => Int64.maxValue
  | .nan => 0

/-! ## Comparison -/

/-- Numeric equality: the two zeros are equal. -/
def Finite.same (x y : Finite) : Bool :=
  x.units == y.units && (x.negative == y.negative || x.units == 0)

/-- Numeric equality: the two zeros are equal, and what is not a number equals nothing. -/
def same : Binary64 → Binary64 → Bool
  | .finite x, .finite y => x.same y
  | .infinite s, .infinite t => s == t
  | _, _ => false

end Binary64

end AudioScore
