import Sequencer.Number.Decimal
import Sequencer.Number.Dyadic

/-!
# The shortest decimal of a double

Of all decimals that read back as a given double, the ones with the fewest digits are found by
looking at one grid of decimals after the other: with one significant digit, with two, and so on. On
each grid only the two neighbours of the value can be the nearest decimal, so these two are read
back. The first grid with a hit wins; of two hits the nearer one does, and an exact tie is left to
the caller.

## Main definitions

* `Tie` — which neighbour wins when both are equally near
* `Shortest.digits` — the shortest decimal of a magnitude that is not zero
-/

namespace Sequencer

/-- Which of two equally near decimals is taken. -/
inductive Tie where
  /-- The one whose last digit is even. -/
  | even
  /-- The greater one. -/
  | up
deriving DecidableEq

namespace Shortest

/-- A positive magnitude prepared for decimal grids: its value is `head · 10 ^ -scale`, and `head`
is `top / bottom`, a fraction whose integer part has at least seventeen digits. -/
structure Grid where
  top : Nat
  bottom : Nat
  scale : Int

/-- Scale a magnitude by a power of ten until its integer part has at least seventeen digits. The
power is estimated from the number of bits, `1233 / 4096` being just below the decimal logarithm of
two. -/
def grid (d : Dyadic) : Grid :=
  let bits := (d.mantissa.log2 : Int) + d.exponent
  let scale := 18 - bits * 1233 / 4096
  ⟨d.numerator * Decimal.tenTo scale.toNat, d.denominator * Decimal.tenTo (-scale).toNat, scale⟩

/-- The two neighbours of the magnitude on the grid with `count` significant digits, the lower one
first; equal when the magnitude lies on the grid. The third component says how the magnitude
compares with the middle of the two. -/
def neighbours (g : Grid) (count : Nat) : Decimal × Decimal × Ordering :=
  let head := g.top / g.bottom
  let drop := Decimal.length head - count
  let unit := g.bottom * Decimal.tenTo drop
  let low := g.top / unit
  let exponent := (drop : Int) - g.scale
  let high := if low * unit = g.top then low else low + 1
  (⟨low, exponent⟩, ⟨high, exponent⟩, compare (2 * g.top) ((2 * low + 1) * unit))

/-- The better of the neighbours that read back as `x`, if one does. -/
def select (tie : Tie) (x : Float) : Decimal × Decimal × Ordering → Option Decimal
  | (low, high, position) =>
    match low.toFloat == x, high.toFloat == x with
    | false, false => none
    | true, false => some low
    | false, true => some high
    | true, true =>
      match position with
      | .lt => some low
      | .gt => some high
      | .eq =>
        match tie with
        | .even => if low.digits % 2 = 0 then some low else some high
        | .up => some high

/-- The shortest decimal of a positive double. Seventeen digits always suffice; should no grid have
a hit, the last grid's lower neighbour stands in. -/
def digits (tie : Tie) (x : Float) (d : Dyadic) : Decimal :=
  let g := grid d
  let hit := (List.range 17).findSome? fun k => select tie x (neighbours g (k + 1))
  (hit.getD (neighbours g 17).1).canonical

end Shortest

end Sequencer
