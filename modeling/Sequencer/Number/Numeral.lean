import Sequencer.Number.Decimal

/-!
# Numerals

A numeral is a number as it is written: a sign, digits before and after the point, and a power of
ten. Its value as a double is not always the nearest one. The digits are gathered in a significand
of 64 bits, and those that no longer fit are left out; the significand is then rounded to a double
and multiplied or divided by a rounded power of ten. Up to fifteen digits with a small power the
result is the nearest double, and otherwise it may be a neighbour of it.

## Main definitions

* `Numeral`, `Numeral.integer?` — a written number, and the integer that it is
* `Numeral.significand` — its digits in 64 bits, with the power of ten that belongs to them
* `Numeral.toFloat?` — its value as a double
-/

namespace Sequencer

/-- A written number, without knowledge of how large a number can be. -/
structure Numeral where
  negative : Bool
  /-- The digits before the point. -/
  whole : List Nat
  /-- The digits after the point, if there is one. -/
  fraction : List Nat
  /-- The power of ten, if one is written. -/
  power : Option Int

namespace Numeral

/-- The greatest number of 64 bits. -/
def greatest : Nat := 18446744073709551615

/-- Append digits to a significand for as long as it fits in 64 bits, and count the digits that are
left over. Once a digit does not fit, no later one is taken either. -/
def gather (significand : Nat) : List Nat → Nat × Nat
  | [] => (significand, 0)
  | digit :: rest =>
    if 10 * significand + digit ≤ greatest then gather (10 * significand + digit) rest
    else (significand, rest.length + 1)

/-- The integer that a numeral is: it has neither a point nor a power of ten, and fits in 64 bits,
signed or unsigned. Negative zero is no integer. -/
def integer? (n : Numeral) : Option Int :=
  match n.fraction, n.power, gather 0 n.whole with
  | [], none, (size, 0) =>
    if !n.negative then some size
    else if 0 < size ∧ size ≤ 9223372036854775808 then some (-(size : Int))
    else none
  | _, _, _ => none

/-- The digits of a numeral in 64 bits. A digit left out before the point raises the power of ten by
one, and a digit taken after it lowers the power by one. -/
def significand (n : Numeral) : Decimal :=
  let (size, raised) := gather 0 n.whole
  let (size, left) := gather size n.fraction
  ⟨size, n.power.getD 0 + raised + left - n.fraction.length⟩

/-- A power of ten as a double. -/
def powerOfTen (k : Nat) : Float := Float.ofScientific 1 false k

/-- Multiply or divide a double by a power of ten, rounding after each step; the greatest power that
is a double is `308`. A result above the range of doubles does not count. -/
def scale (x : Float) (power : Int) : Option Float :=
  if power.natAbs ≤ 308 then
    if power < 0 then some (x / powerOfTen power.natAbs)
    else
      let y := x * powerOfTen power.natAbs
      if y.isInf then none else some y
  else if x == 0.0 then some x
  else if 0 < power then none
  else scale (x / powerOfTen 308) (power + 308)
termination_by (-power).toNat

/-- The value of a numeral as a double, unless it is beyond the range of doubles. -/
def toFloat? (n : Numeral) : Option Float :=
  let d := n.significand
  (scale (Float.ofNat d.digits) d.exponent).map fun x => if n.negative then -x else x

end Numeral

end Sequencer
