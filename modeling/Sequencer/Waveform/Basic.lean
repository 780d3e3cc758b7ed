import Sequencer.Json.Basic
import Sequencer.Number.Scalar

/-!
# Waveforms

A waveform function gives real or complex samples. A sequencer plays two paths: in phase and in
quadrature. Real samples leave the second path at zero.

## Main definitions

* `Waveform`, with `length`, `inPhase`, `quadrature`
* `Waveform.encode` — the samples as JSON
-/

namespace Sequencer

/-- Sampled values of a waveform. -/
inductive Waveform (R : Type) where
  | real (samples : List R)
  | complex (samples : List (R × R))

namespace Waveform

variable {R : Type}

/-- The number of samples. -/
def length : Waveform R → Nat
  | .real samples => samples.length
  | .complex samples => samples.length

/-- The samples of the I path. -/
def inPhase : Waveform R → List R
  | .real samples => samples
  | .complex samples => samples.map Prod.fst

/-- The samples of the Q path. -/
def quadrature [NatCast R] : Waveform R → List R
  | .real samples => List.replicate samples.length ((0 : Nat) : R)
  | .complex samples => samples.map Prod.snd

@[simp] theorem length_inPhase (w : Waveform R) : w.inPhase.length = w.length := by
  cases w <;> simp [inPhase, length]

@[simp] theorem length_quadrature [NatCast R] (w : Waveform R) :
    w.quadrature.length = w.length := by
  cases w <;> simp [quadrature, length]

/-- The samples as JSON: numbers, or pairs of numbers. -/
def encode : Waveform Float → Json
  | .real samples => .list (samples.map .real)
  | .complex samples => .list (samples.map fun z => .list [.real z.1, .real z.2])

end Waveform

end Sequencer
