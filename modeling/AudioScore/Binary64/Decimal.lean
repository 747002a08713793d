import AudioScore.Binary64.Basic

/-!
# Decimal text of doubles

A decimal is a whole number of digits and a power of ten. Reading one rounds it correctly to a
double. Writing a double finds the fewest digits that read back to it and, among those, the
decimal nearest to it. So every double that is written reads back unchanged, which rests on the
rounding: a reader that may miss the nearest double by one place does not warrant it.

* `Decimal.toBinary64`: the double nearest to a decimal.
* `Finite.toDecimal`: the shortest decimal of a double.
* `Finite.chars`: its text.
-/

namespace AudioScore

/-- The number `digits · 10 ^ exponent`. -/
structure Decimal where
  /-- The significant digits, as one whole number. -/
  digits : Nat
  /-- The power of ten of the last digit. -/
  exponent : Int
deriving DecidableEq

namespace Decimal

/-- How many decimal digits a whole number has. Zero has one. -/
def length (n : Nat) : Nat := (Nat.toDigits 10 n).length

/-! ## Reading -/

/-- The double nearest to a decimal, in every case. That written numbers read back is promised of
readers that round correctly, as this one does; faster ones may differ from it in the last place.
Decimals above `10 ^ 400` are past the largest double, and those below `10 ^ -400` are nearest to
zero, so neither is multiplied out. -/
def toBinary64 (negative : Bool) (d : Decimal) : Binary64 :=
  if d.digits = 0 then Binary64.zero negative
  else if 400 < d.exponent then .infinite negative
  else if d.exponent + length d.digits < -400 then Binary64.zero negative
  else match d.exponent with
    | .ofNat e => Binary64.ofRatio negative (d.digits * 10 ^ e) 1
    | .negSucc e => Binary64.ofRatio negative d.digits (10 ^ (e + 1))

/-! ## Writing -/

/-- The text of a decimal without its sign. A number from `10 ^ -5` up to `10 ^ 16` is written
with a point and at least one digit on each side of it, any other with a power of ten. -/
def chars (d : Decimal) : List Char :=
  let ds := Nat.toDigits 10 d.digits
  let point : Int := ds.length + d.exponent
  if -5 < point ∧ point ≤ 16 then
    if point ≤ 0 then
      '0' :: '.' :: (List.replicate (-point).toNat '0' ++ ds)
    else if point < ds.length then
      ds.take point.toNat ++ '.' :: ds.drop point.toNat
    else
      ds ++ List.replicate (point.toNat - ds.length) '0' ++ ['.', '0']
  else
    let fraction := if ds.length = 1 then [] else '.' :: ds.drop 1
    let sign := if point - 1 < 0 then '-' else '+'
    ds.take 1 ++ fraction ++ 'e' :: sign :: Nat.toDigits 10 (point - 1).natAbs

end Decimal

namespace Binary64

/-- The power of ten of the leading digit of a positive number of units. -/
def leadingExponent (units : Nat) : Int :=
  if one ≤ units then (Decimal.length (units / one) : Int) - 1
  else -(Decimal.length ((one - 1) / units) : Int)

/-- The whole number of steps of `10 ^ exponent` in a number of units, rounded down, and whether
that is the nearest whole number. Half way between two of them the even one counts as nearest. -/
def stepsBelow (units : Nat) (exponent : Int) : Nat × Bool :=
  let (num, den) := match exponent with
    | .ofNat e => (units, one * 10 ^ e)
    | .negSucc e => (units * 10 ^ (e + 1), one)
  let below := num / den
  let rest := 2 * (num % den)
  (below, rest < den || (rest = den && below % 2 = 0))

/-- The decimals of `count` digits on either side of a positive number of units, the nearer
one first. -/
def neighbours (units : Nat) (count : Nat) : List Decimal :=
  let exponent := leadingExponent units - (count : Int) + 1
  let (below, isNearer) := stepsBelow units exponent
  let lower : Decimal := ⟨below, exponent⟩
  let upper : Decimal :=
    if below + 1 = 10 ^ count then ⟨1, exponent + count⟩ else ⟨below + 1, exponent⟩
  if isNearer then [lower, upper] else [upper, lower]

/-- The decimal that a double is exactly. -/
def Finite.exactDecimal (x : Finite) : Decimal := ⟨x.units * 5 ^ (1074 : Nat), -1074⟩

/-- The decimal of the fewest digits that reads back to a double, the nearest to it of those.
Seventeen digits suffice; the exact decimal always reads back. -/
def Finite.toDecimal (x : Finite) : Decimal :=
  if x.units = 0 then ⟨0, 0⟩
  else
    let shortest := (List.range 17).findSome? fun n =>
      (neighbours x.units (n + 1)).find? fun d => d.toBinary64 x.negative = .finite x
    shortest.getD x.exactDecimal

/-- The text of a finite double. -/
def Finite.chars (x : Finite) : List Char :=
  (if x.negative then ['-'] else []) ++ x.toDecimal.chars

/-- The text of a double, with words for what is not finite. -/
def text : Binary64 → String
  | .finite x => String.ofList x.chars
  | .infinite true => "-inf"
  | .infinite false => "inf"
  | .nan => "NaN"

end Binary64

end AudioScore
