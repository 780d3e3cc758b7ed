import Sequencer.Assembly.EncodeError
import Sequencer.Assembly.Traits
import Sequencer.Number.Dyadic

/-!
# Register values

Gains and offsets are written as signed immediates scaled by half of the immediate range. Phases
become a tick count over a full turn, divided into the coarse, fine and ultra-fine stages of the
phase registers: a mixed-radix representation. All conversions truncate.

## Main definitions

* `quantize` — a normalized value as an immediate
* `Phase` — the three stages; `Phase.ofTicks`, `Phase.ticks` — the mixed-radix representation and
  back
* `ticksOfDegrees`, `Phase.ofDegrees` — phases given in degrees
-/

namespace Sequencer

/-- The immediate of a normalized value: `value * max / 2`, truncated. A value that is NaN or
exceeds one in magnitude is refused under the name of its parameter. -/
def quantize (parameter : String) (immediateMax : Nat) (value : Float) : Except EncodeError Int :=
  if value.isNaN || decide (1.0 < value.abs) then .error (.outOfRange parameter value)
  else .ok (Number.toInteger Dyadic.truncate (value * Float.ofNat immediateMax / 2.0))

/-- The operands of a phase register. -/
structure Phase where
  coarse : Nat
  fine : Nat
  ultrafine : Nat
deriving DecidableEq

namespace Phase

/-- The tick count that the three stages represent. -/
def ticks (t : Traits) (p : Phase) : Nat :=
  p.coarse * t.coarseFactor + p.fine * t.fineFactor + p.ultrafine

/-- The stages of a tick count, from coarse to ultra-fine. -/
def stages (t : Traits) (n : Nat) : Phase where
  coarse := n / t.coarseFactor
  fine := n % t.coarseFactor / t.fineFactor
  ultrafine := n % t.coarseFactor % t.fineFactor

/-- The stages of a tick count, if the traits resolve all of them. -/
def ofTicks (t : Traits) (n : Nat) : Except EncodeError Phase :=
  if t.ResolvesPhase then .ok (stages t n) else .error .unresolvedPhase

end Phase

/-- Ticks of an angle, for a turn of `turn` ticks: the angle is wrapped into one turn, and the ticks
it spans are truncated. NaN and infinities count as zero. An empty turn has no ticks to count. -/
def ticksOfDegrees (turn : Nat) (degrees : Float) : Except EncodeError Nat :=
  if turn = 0 then .error .unresolvedPhase
  else .ok ((Number.wrap 360 degrees / 360.0 * Float.ofNat turn).toUInt64.toNat % turn)

/-- The phase register operands of an angle. -/
def Phase.ofDegrees (t : Traits) (degrees : Float) : Except EncodeError Phase := do
  Phase.ofTicks t (← ticksOfDegrees t.fullTurn degrees)

/-- The stages represent the tick count they were taken from. -/
theorem Phase.ticks_stages (t : Traits) (n : Nat) : (Phase.stages t n).ticks t = n := by
  simp only [Phase.ticks, Phase.stages, Nat.add_assoc, Nat.div_add_mod']

end Sequencer
