import AudioScore.Binary64.Decimal

/-!
# Time on the score timeline

A time is a signed 64-bit count of nanoseconds. Sums and differences stop at the ends of the
range, and times given in larger units as doubles are cut to whole nanoseconds.

* `toInt_clamp`: clamping keeps a number in range and moves any other to the nearer end.
* `toInt_add`, `toInt_sub`: addition and subtraction are exact, then clamped.
-/

namespace AudioScore

/-- The nearest integer to `n` in the signed 64-bit range. -/
def clamp (n : Int) : Int64 := Int64.ofIntClamp n

theorem toInt_clamp (n : Int) :
    (clamp n).toInt = max (-2 ^ (63 : Nat)) (min n (2 ^ (63 : Nat) - 1)) := by
  have hmin : Int64.minValue.toInt = -2 ^ (63 : Nat) := by decide
  have hmax : Int64.maxValue.toInt = 2 ^ (63 : Nat) - 1 := by decide
  unfold clamp Int64.ofIntClamp
  split
  · rename_i hl
    split
    · rename_i hr
      rw [Int64.toInt_ofIntLE]
      omega
    · omega
  · omega

/-- A point or span on the timeline, in nanoseconds. -/
structure Time where
  nanos : Int64
deriving DecidableEq, Inhabited

namespace Time

/-- The start of the timeline. -/
def zero : Time := ⟨0⟩

/-- The sum, kept within range. -/
def add (a b : Time) : Time := ⟨clamp (a.nanos.toInt + b.nanos.toInt)⟩

/-- The difference, kept within range. -/
def sub (a b : Time) : Time := ⟨clamp (a.nanos.toInt - b.nanos.toInt)⟩

instance : Add Time := ⟨add⟩

instance : Sub Time := ⟨sub⟩

theorem toInt_add (a b : Time) :
    (a + b).nanos.toInt
      = max (-2 ^ (63 : Nat)) (min (a.nanos.toInt + b.nanos.toInt) (2 ^ (63 : Nat) - 1)) :=
  toInt_clamp _

theorem toInt_sub (a b : Time) :
    (a - b).nanos.toInt
      = max (-2 ^ (63 : Nat)) (min (a.nanos.toInt - b.nanos.toInt) (2 ^ (63 : Nat) - 1)) :=
  toInt_clamp _

instance : LE Time := ⟨fun a b => a.nanos.toInt ≤ b.nanos.toInt⟩

instance : LT Time := ⟨fun a b => a.nanos.toInt < b.nanos.toInt⟩

instance (a b : Time) : Decidable (a ≤ b) :=
  inferInstanceAs (Decidable (a.nanos.toInt ≤ b.nanos.toInt))

instance (a b : Time) : Decidable (a < b) :=
  inferInstanceAs (Decidable (a.nanos.toInt < b.nanos.toInt))

instance : Ord Time := ⟨fun a b => compare a.nanos.toInt b.nanos.toInt⟩

/-! ## Other units -/

/-- The whole nanoseconds in a number of milliseconds. -/
def ofMillis (x : Binary64) : Time := ⟨(x.mulNat 1000000).toInt64⟩

/-- The whole nanoseconds in a number of seconds. -/
def ofSeconds (x : Binary64) : Time := ⟨(x.mulNat 1000000000).toInt64⟩

/-- The whole nanoseconds in a number of minutes. -/
def ofMinutes (x : Binary64) : Time := ⟨(x.mulNat 60000000000).toInt64⟩

/-- The time in seconds: the count as a double, divided by a thousand million. -/
def toSeconds (t : Time) : Binary64 := (Binary64.ofInt t.nanos.toInt).divNat 1000000000

/-- The text of a time: its nanoseconds and their unit. -/
def text (t : Time) : String := toString t.nanos.toInt ++ "ns"

end Time

end AudioScore
