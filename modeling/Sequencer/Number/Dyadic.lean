/-!
# Doubles as exact dyadic numbers

Every finite double is `± mantissa · 2 ^ exponent` for a natural mantissa and an integer exponent.
Reading a double this way turns rounding and truncation into divisions of natural numbers, about
which one can reason; the operations of `Float` itself are used only where the rounding of the
hardware is meant.

## Main definitions

* `Dyadic`, `Dyadic.ofFloat?` — the exact value of a finite double
* `Dyadic.truncate`, `Dyadic.round` — the two ways to an integer used in this library
* `Number.toInteger` — a double as a clamped 64-bit integer, with a rule for NaN and infinities
* `Number.wrap` — the remainder of a double modulo a natural number, in `[0, m)` up to rounding
-/

namespace Sequencer

/-- The number `± mantissa · 2 ^ exponent`. -/
structure Dyadic where
  negative : Bool
  mantissa : Nat
  exponent : Int
deriving DecidableEq

namespace Dyadic

/-- The exact value of a finite double; `none` for NaN and the infinities. The sign of zero is kept.
Of the 64 bits of a double, the first is the sign, the next eleven are the exponent and the last 52
are the fraction, to which `2 ^ 52` belongs unless the exponent is at its least. -/
def ofFloat? (x : Float) : Option Dyadic :=
  let bits := x.toBits.toNat
  let negative := decide (bits >>> 63 = 1)
  let scale := (bits >>> 52) % 2048
  let fraction := bits % 4503599627370496
  if scale = 2047 then none
  else if scale = 0 then some ⟨negative, fraction, -1074⟩
  else some ⟨negative, fraction + 4503599627370496, (scale : Int) - 1075⟩

/-- The numerator of the magnitude, written as a fraction of natural numbers. -/
def numerator (d : Dyadic) : Nat := d.mantissa <<< d.exponent.toNat

/-- The denominator of the magnitude: a power of two, and `1` for an integer exponent. -/
def denominator (d : Dyadic) : Nat := 1 <<< (-d.exponent).toNat

/-- Give a magnitude the sign of `d`. -/
def signed (d : Dyadic) (n : Nat) : Int := if d.negative then -(n : Int) else n

/-- The integer part: rounding toward zero. -/
def truncate (d : Dyadic) : Int := d.signed (d.numerator / d.denominator)

/-- The nearest integer, halves going away from zero. -/
def round (d : Dyadic) : Int := d.signed ((2 * d.numerator + d.denominator) / (2 * d.denominator))

/-- A power of two as a double. Exact for `-1074 ≤ e ≤ 1023`: below `2 ^ -1022` the single bit of
the pattern is part of the fraction, above it is the exponent field. -/
def power (e : Int) : Float :=
  if e < -1022 then Float.ofBits (1 <<< (e + 1074).toNat : Nat).toUInt64
  else Float.ofBits ((e + 1023).toNat <<< 52 : Nat).toUInt64

/-- The double with this value. Exact whenever the value is a double, because then both factors are
exact and so is their product. -/
def toFloat (d : Dyadic) : Float :=
  let magnitude := Float.ofNat d.mantissa * power d.exponent
  if d.negative then -magnitude else magnitude

end Dyadic

namespace Number

/-- The least 64-bit signed integer. -/
def leastInteger : Int := -9223372036854775808

/-- The greatest 64-bit signed integer. -/
def greatestInteger : Int := 9223372036854775807

/-- A double as a 64-bit signed integer: its exact value is rounded by `rule` and clamped to the
range. NaN is `0`, and an infinity is the end of the range on its side. -/
def toInteger (rule : Dyadic → Int) (x : Float) : Int :=
  match Dyadic.ofFloat? x with
  | some d => max leastInteger (min greatestInteger (rule d))
  | none => if x.isNaN then 0 else if x < 0.0 then leastInteger else greatestInteger

/-- The exact remainder of a dyadic number modulo `m`, keeping its sign. The mantissa is reduced, so
the result has no more significant bits than `d` and is a double whenever `d` is one. -/
def reduce (m : Nat) (d : Dyadic) : Dyadic :=
  if 0 ≤ d.exponent then ⟨d.negative, d.numerator % m, 0⟩
  else ⟨d.negative, d.mantissa % (m * d.denominator), d.exponent⟩

/-- Wrap a double into `[0, m)`: the exact remainder, moved up by `m` when it is negative. The move
is one rounded addition, so a tiny negative number becomes `m` itself. NaN and infinities give
NaN. -/
def wrap (m : Nat) (x : Float) : Float :=
  match Dyadic.ofFloat? x with
  | some d =>
    let r := (reduce m d).toFloat
    if r < 0.0 then r + Float.ofNat m else r
  | none => 0.0 / 0.0

/-- Identify the two zeros: every zero becomes the positive one. -/
def unsignedZero (x : Float) : Float := if x == 0.0 then 0.0 else x

end Number

end Sequencer
