import AudioScore.Time
import Mathlib.Algebra.Order.BigOperators.Group.List
import Mathlib.Algebra.Order.Ring.Int
import Mathlib.Data.List.Infix

/-!
# Times that are shifted again and again

A time is shifted by spans one after another, of which each is added or subtracted. What goes beyond
an end of the range is lost at once, so the outcome may depend on the order of the shifts. It is the
exact one where no sum on the way is out of range. Shifts that all go one way lose no more than what
the exact outcome would have beyond the end, in whatever order they come.

* `Time.Shift`, `Time.shiftAll`: a shift, and several.
* `Time.toInt_shiftAll_of_keepsRange`: shifts of which no sum is out of range.
* `Time.shiftAll_of_oneWay`: shifts that all go one way.
* `Time.shiftAll_le_shiftAll`: the same shifts from two times.
* `Time.shiftAll_saturates`: all of it together.
-/

namespace AudioScore

namespace Time

/-! ## Clamping -/

/-- Whether a time can have `n` nanoseconds. -/
def InRange (n : Int) : Prop := -2 ^ (63 : Nat) ≤ n ∧ n ≤ 2 ^ (63 : Nat) - 1

instance (n : Int) : Decidable (InRange n) :=
  inferInstanceAs (Decidable (-2 ^ (63 : Nat) ≤ n ∧ n ≤ 2 ^ (63 : Nat) - 1))

theorem inRange_toInt (x : Int64) : InRange x.toInt := by
  have hlow := x.le_toInt
  have hhigh := x.toInt_lt
  exact ⟨hlow, by omega⟩

theorem toInt_clamp_of_inRange {n : Int} (h : InRange n) : (clamp n).toInt = n := by
  obtain ⟨hlow, hhigh⟩ := h
  rw [toInt_clamp]
  omega

theorem clamp_toInt (x : Int64) : clamp x.toInt = x :=
  Int64.toInt_inj.mp (toInt_clamp_of_inRange (inRange_toInt x))

theorem toInt_clamp_le_toInt_clamp {m n : Int} (h : m ≤ n) : (clamp m).toInt ≤ (clamp n).toInt := by
  rw [toInt_clamp, toInt_clamp]
  omega

/-- A sum may be clamped before more is added that goes the same way: what is lost then would be
lost in the end. -/
theorem clamp_toInt_clamp_add {x : Int64} {d e : Int} (h : 0 ≤ d ∧ 0 ≤ e ∨ d ≤ 0 ∧ e ≤ 0) :
    clamp ((clamp (x.toInt + d)).toInt + e) = clamp (x.toInt + d + e) := by
  -- The first sum can leave the range at one end only, as `x` is within it.
  obtain ⟨hlow, hhigh⟩ := inRange_toInt x
  apply Int64.toInt_inj.mp
  rw [toInt_clamp, toInt_clamp, toInt_clamp]
  omega

/-! ## Shifts -/

/-- A span that is to be added to a time, or to be subtracted from it. -/
inductive Shift where
  | add (span : Time)
  | sub (span : Time)

namespace Shift

/-- The nanoseconds by which a time gets later, negative where it gets earlier. They need not be in
range, since the least span has no opposite. -/
def nanos : Shift → Int
  | .add span => span.nanos.toInt
  | .sub span => -span.nanos.toInt

/-- The exact sum of the nanoseconds of shifts. -/
def total (shifts : List Shift) : Int := (shifts.map nanos).sum

/-- Whether a shift makes no time earlier. -/
def Forward : Shift → Prop
  | .add span => zero ≤ span
  | .sub span => span ≤ zero

/-- Whether a shift makes no time later. -/
def Backward : Shift → Prop
  | .add span => span ≤ zero
  | .sub span => zero ≤ span

/-- Whether shifts all go one way. -/
def OneWay (shifts : List Shift) : Prop :=
  (∀ s ∈ shifts, s.Forward) ∨ ∀ s ∈ shifts, s.Backward

instance : DecidablePred Forward
  | .add span => inferInstanceAs (Decidable (zero ≤ span))
  | .sub span => inferInstanceAs (Decidable (span ≤ zero))

instance : DecidablePred Backward
  | .add span => inferInstanceAs (Decidable (span ≤ zero))
  | .sub span => inferInstanceAs (Decidable (zero ≤ span))

instance (shifts : List Shift) : Decidable (OneWay shifts) :=
  inferInstanceAs (Decidable ((∀ s ∈ shifts, s.Forward) ∨ ∀ s ∈ shifts, s.Backward))

variable {s : Shift} {shifts others : List Shift}

theorem forward_iff : s.Forward ↔ 0 ≤ s.nanos := by
  cases s with
  | add span => exact Iff.rfl
  | sub span => exact Int.neg_nonneg.symm

theorem backward_iff : s.Backward ↔ s.nanos ≤ 0 := by
  cases s with
  | add span => exact Iff.rfl
  | sub span => exact (Int.neg_nonpos_iff _).symm

theorem total_nil : total [] = 0 := rfl

theorem total_cons (s : Shift) (shifts : List Shift) :
    total (s :: shifts) = s.nanos + total shifts :=
  List.sum_cons

theorem total_of_perm (h : others.Perm shifts) : total others = total shifts :=
  (h.map nanos).sum_eq

theorem total_nonneg (h : ∀ s ∈ shifts, s.Forward) : 0 ≤ total shifts := by
  have hle : ∀ n ∈ shifts.map nanos, 0 ≤ n :=
    List.forall_mem_map.mpr fun s hs => forward_iff.mp (h s hs)
  exact List.sum_nonneg hle

theorem total_nonpos (h : ∀ s ∈ shifts, s.Backward) : total shifts ≤ 0 := by
  have hle : ∀ n ∈ shifts.map nanos, n ≤ 0 :=
    List.forall_mem_map.mpr fun s hs => backward_iff.mp (h s hs)
  exact (List.sum_le_card_nsmul _ 0 hle).trans_eq (nsmul_zero _)

namespace OneWay

theorem perm (h : OneWay shifts) (hperm : others.Perm shifts) : OneWay others := by
  rcases h with h | h
  · exact .inl fun s hs => h s (hperm.mem_iff.mp hs)
  · exact .inr fun s hs => h s (hperm.mem_iff.mp hs)

theorem tail (h : OneWay (s :: shifts)) : OneWay shifts :=
  h.imp List.forall_mem_of_forall_mem_cons List.forall_mem_of_forall_mem_cons

/-- The first of the shifts goes the way in which the others go together. -/
theorem nanos_total (h : OneWay (s :: shifts)) :
    0 ≤ s.nanos ∧ 0 ≤ total shifts ∨ s.nanos ≤ 0 ∧ total shifts ≤ 0 := by
  rcases h with h | h
  · obtain ⟨hs, hshifts⟩ := List.forall_mem_cons.mp h
    exact .inl ⟨forward_iff.mp hs, total_nonneg hshifts⟩
  · obtain ⟨hs, hshifts⟩ := List.forall_mem_cons.mp h
    exact .inr ⟨backward_iff.mp hs, total_nonpos hshifts⟩

end OneWay

end Shift

/-! ## What shifts make of a time -/

/-- The time after a shift. -/
def shift (t : Time) : Shift → Time
  | .add span => t + span
  | .sub span => t - span

/-- The time after shifts one after another. -/
def shiftAll (t : Time) (shifts : List Shift) : Time := shifts.foldl shift t

variable {t u : Time} {s : Shift} {shifts : List Shift}

theorem shift_eq (t : Time) (s : Shift) : t.shift s = ⟨clamp (t.nanos.toInt + s.nanos)⟩ := by
  cases s with
  | add span => rfl
  | sub span => rfl

theorem shift_le_shift (h : t ≤ u) (s : Shift) : t.shift s ≤ u.shift s := by
  rw [shift_eq, shift_eq]
  exact toInt_clamp_le_toInt_clamp (Int.add_le_add_right h s.nanos)

/-- Two times that are shifted alike stay in order. -/
theorem shiftAll_le_shiftAll (h : t ≤ u) (shifts : List Shift) :
    t.shiftAll shifts ≤ u.shiftAll shifts := by
  induction shifts generalizing t u with
  | nil => exact h
  | cons s shifts ih => exact ih (shift_le_shift h s)

/-! ### Exact sums -/

/-- Whether no exact sum on the way, from the time itself to the last, is out of range. -/
def KeepsRange (t : Time) (shifts : List Shift) : Prop :=
  ∀ taken, taken <+: shifts → InRange (t.nanos.toInt + Shift.total taken)

instance (t : Time) (shifts : List Shift) : Decidable (t.KeepsRange shifts) :=
  decidable_of_iff (∀ taken ∈ shifts.inits, InRange (t.nanos.toInt + Shift.total taken)) <| by
    simp only [List.mem_inits, KeepsRange]

namespace KeepsRange

theorem toInt_shift (h : t.KeepsRange (s :: shifts)) :
    (t.shift s).nanos.toInt = t.nanos.toInt + s.nanos := by
  have hfirst : InRange (t.nanos.toInt + Shift.total [s]) := h [s] (List.prefix_append [s] shifts)
  rw [Shift.total_cons, Shift.total_nil, Int.add_zero] at hfirst
  rw [shift_eq]
  exact toInt_clamp_of_inRange hfirst

theorem tail (h : t.KeepsRange (s :: shifts)) : (t.shift s).KeepsRange shifts := by
  intro taken htaken
  rw [h.toInt_shift, Int.add_assoc, ← Shift.total_cons]
  exact h (s :: taken) (List.cons_prefix_cons.mpr ⟨rfl, htaken⟩)

end KeepsRange

theorem toInt_shiftAll_of_keepsRange (h : t.KeepsRange shifts) :
    (t.shiftAll shifts).nanos.toInt = t.nanos.toInt + Shift.total shifts := by
  induction shifts generalizing t with
  | nil => exact (Int.add_zero _).symm
  | cons s shifts ih =>
    calc ((t.shift s).shiftAll shifts).nanos.toInt
        = (t.shift s).nanos.toInt + Shift.total shifts := ih h.tail
      _ = t.nanos.toInt + s.nanos + Shift.total shifts := by rw [h.toInt_shift]
      _ = t.nanos.toInt + Shift.total (s :: shifts) := by rw [Shift.total_cons, Int.add_assoc]

/-! ### Shifts that go one way -/

/-- It is as if the exact sum were clamped once, at the end. -/
theorem shiftAll_of_oneWay (t : Time) (h : Shift.OneWay shifts) :
    t.shiftAll shifts = ⟨clamp (t.nanos.toInt + Shift.total shifts)⟩ := by
  induction shifts generalizing t with
  | nil =>
    rw [Shift.total_nil, Int.add_zero, clamp_toInt]
    rfl
  | cons s shifts ih =>
    calc (t.shift s).shiftAll shifts
        = ⟨clamp ((t.shift s).nanos.toInt + Shift.total shifts)⟩ := ih (t.shift s) h.tail
      _ = ⟨clamp (t.nanos.toInt + s.nanos + Shift.total shifts)⟩ := by
        rw [shift_eq, clamp_toInt_clamp_add h.nanos_total]
      _ = ⟨clamp (t.nanos.toInt + Shift.total (s :: shifts))⟩ := by
        rw [Shift.total_cons, Int.add_assoc]

-- Shifts that go both ways depend on their order.
example : (⟨1⟩ : Time).shiftAll [.add ⟨Int64.maxValue⟩, .sub ⟨1⟩]
    ≠ (⟨1⟩ : Time).shiftAll [.sub ⟨1⟩, .add ⟨Int64.maxValue⟩] := by decide

/-! ## All of it together -/

/-- Shifts one after another are exact if no exact sum on the way is out of range. If they all go
one way, the outcome is the exact sum or the end of the range beyond which it lies, and so the same
in any order. Whatever the shifts are, two times that are shifted alike stay in order. -/
theorem shiftAll_saturates (t : Time) (shifts : List Shift) :
    (t.KeepsRange shifts →
      (t.shiftAll shifts).nanos.toInt = t.nanos.toInt + Shift.total shifts) ∧
    (Shift.OneWay shifts →
      (t.shiftAll shifts).nanos.toInt
        = max (-2 ^ (63 : Nat)) (min (t.nanos.toInt + Shift.total shifts) (2 ^ (63 : Nat) - 1)) ∧
      ∀ others, others.Perm shifts → t.shiftAll others = t.shiftAll shifts) ∧
    ∀ u, t ≤ u → t.shiftAll shifts ≤ u.shiftAll shifts := by
  refine ⟨toInt_shiftAll_of_keepsRange, fun h => ⟨?_, fun others hperm => ?_⟩,
    fun u h => shiftAll_le_shiftAll h shifts⟩
  · rw [shiftAll_of_oneWay t h]
    exact toInt_clamp _
  · rw [shiftAll_of_oneWay t (h.perm hperm), shiftAll_of_oneWay t h, Shift.total_of_perm hperm]

/-- The least span, which has no opposite, is subtracted and then added. From one nanosecond before
the start that meets the last time exactly; from the start it goes beyond. -/
def swing : List Shift := [.sub ⟨Int64.minValue⟩, .add ⟨Int64.minValue⟩]

/-- Two shifts forward, of which the second alone goes beyond the last time. -/
def rush : List Shift := [.add ⟨Int64.maxValue⟩, .sub ⟨Int64.minValue⟩]

theorem shiftAll_saturates_ends :
    ((⟨-1⟩ : Time).shiftAll swing).nanos.toInt = -1 ∧
      (⟨-1⟩ : Time).shiftAll swing ≤ zero.shiftAll swing ∧
      (zero.shiftAll rush).nanos.toInt = 2 ^ (63 : Nat) - 1 ∧
      zero.shiftAll rush.reverse = zero.shiftAll rush := by
  obtain ⟨hexact, -, hmono⟩ := shiftAll_saturates ⟨-1⟩ swing
  obtain ⟨-, honeWay, -⟩ := shiftAll_saturates zero rush
  obtain ⟨hclamped, horder⟩ := honeWay (by decide)
  exact ⟨hexact (by decide), hmono zero (by decide), hclamped, horder _ rush.reverse_perm⟩

end Time

end AudioScore
