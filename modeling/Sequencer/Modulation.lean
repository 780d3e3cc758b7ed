import Sequencer.Error
import Sequencer.Schedule.Pulse
import Sequencer.Waveform.Shape

/-!
# Modulations

A sequencer applies amplitude and phase by registers, so a waveform is sampled with unit amplitude
and without a phase. Pulses that differ only in these then share one waveform in memory.

## Main definitions

* `Modulations` — register settings
* `Pulse.normalize` — a pulse as register settings and a normalized pulse
-/

namespace Sequencer

/-- Register settings. One that is missing leaves its registers as they are. -/
structure Modulations (R : Type) where
  /-- Volts. -/
  gain : Option R
  /-- Volts, for the Q path alone. -/
  gainQ : Option R
  /-- As a fraction of full scale. -/
  offset : Option R
  /-- Degrees. -/
  phase : Option R
  /-- Degrees. -/
  phaseDelta : Option R

namespace Modulations

variable {R : Type}

/-- No settings. -/
def none : Modulations R := ⟨Option.none, Option.none, Option.none, Option.none, Option.none⟩

/-- Whether there are no settings. -/
def isEmpty (m : Modulations R) : Bool :=
  m.gain.isNone && m.gainQ.isNone && m.offset.isNone && m.phase.isNone && m.phaseDelta.isNone

end Modulations

namespace Pulse

variable {R : Type} [NatCast R]

/-- The register settings of a pulse of a standard shape, and the pulse with unit amplitude and
without a phase. -/
def split (shape : Shape) (p : Pulse R) : Modulations R × Pulse R :=
  match shape with
  | .square | .softSquare =>
    ({ Modulations.none with gain := p.amplitude }, { p with amplitude := some ((1 : Nat) : R) })
  | .drag =>
    ({ Modulations.none with
       gain := p.gaussAmplitude, gainQ := p.derivativeAmplitude, phase := p.phase },
     { p with
       gaussAmplitude := some ((1 : Nat) : R)
       derivativeAmplitude := some ((1 : Nat) : R)
       phase := some ((0 : Nat) : R) })

/-- A pulse as register settings and a normalized pulse. A silent pulse is left as it is. -/
def normalize (p : Pulse R) : Except CompileError (Modulations R × Pulse R) :=
  match p.function with
  | none => .ok (.none, p)
  | some function =>
    match Shape.ofName? function with
    | some shape => .ok (p.split shape)
    | none => .error (.unsupportedWaveform function)

end Pulse

end Sequencer
