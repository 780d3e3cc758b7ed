/-!
# Decimal numbers

A decimal is `digits · 10 ^ exponent`. Every decimal has a nearest double, and a double is printed
as one of the decimals that it is nearest to.

## Main definitions

* `Decimal`, `Decimal.toFloat` — a decimal and the double nearest to it
* `Decimal.canonical` — the same value without trailing zeros in the digits
-/

namespace Sequencer

/-- The non-negative number `digits · 10 ^ exponent`. -/
structure Decimal where
  digits : Nat
  exponent : Int
deriving DecidableEq

namespace Decimal

/-- A power of ten. -/
def tenTo (k : Nat) : Nat := Nat.pow 10 k

/-- How many decimal digits a natural number has; `0` has one. -/
def length (n : Nat) : Nat := (Nat.toDigits 10 n).length

/-- The nearest double, ties going to the even neighbour. Values above the range give infinity and
values far below the smallest double give zero; both are decided before the power of ten is formed,
so that an exponent of any size is read quickly. -/
def toFloat (d : Decimal) : Float :=
  let order := (length d.digits : Int) + d.exponent
  if d.digits = 0 then 0.0
  else if 310 < order then 1.0 / 0.0
  else if order < -330 then 0.0
  else Float.ofScientific d.digits (decide (d.exponent < 0)) d.exponent.natAbs

/-- Move trailing zeros of the digits into the exponent, at most `fuel` of them. -/
def strip : Nat → Decimal → Decimal
  | 0, d => d
  | fuel + 1, d =>
    if d.digits % 10 = 0 then strip fuel ⟨d.digits / 10, d.exponent + 1⟩ else d

/-- The same value written without trailing zeros in the digits. -/
def canonical (d : Decimal) : Decimal :=
  if d.digits = 0 then ⟨0, 0⟩ else strip (length d.digits) d

end Decimal

end Sequencer
