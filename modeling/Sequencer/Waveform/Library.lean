import Sequencer.Error
import Sequencer.Waveform.Shape

/-!
# Waveform libraries

A library samples waveform functions by name. It is a function: the same name, times and pulse
always give the same samples.

## Main definitions

* `sampleCount`, `sampleTimes` — from seconds to samples
* `WaveformLibrary`, `WaveformLibrary.standard` — the standard functions
* `Question`, `WaveformLibrary.answer` — what a library is asked, and what it says
* `Pulse.sampleWith`, `WaveformLibrary.render` — the samples of a pulse on a resource
-/

namespace Sequencer

/-- A time in samples: the nearest one, halves going away from zero. -/
def sampleCount (seconds rate : Float) : Int := Number.toInteger Dyadic.round (seconds * rate)

/-- The times of the samples that cover a duration. -/
def sampleTimes (duration rate : Float) : List Float :=
  (List.range (sampleCount duration rate).toNat).map fun i => Float.ofNat i / rate

/-- Samples of waveform functions by name, at given times and with the parameters of a pulse. -/
abbrev WaveformLibrary (R : Type) := String → List R → Pulse R → Except CompileError (Waveform R)

namespace WaveformLibrary

variable {R : Type}

/-- A parameter that a waveform function cannot do without. -/
def require (function parameter : String) : Option R → Except CompileError R
  | some value => .ok value
  | none => .error (.missingParameter function parameter)

/-- The standard waveform functions. A drag pulse spans three standard deviations on each side and
is not rotated unless it says otherwise. -/
def standardOver [NatCast R] [Add R] [Sub R] [Mul R] [Div R] [Neg R] [LE R] [DecidableLE R]
    (f : Elementary R) : WaveformLibrary R := fun function times p =>
  match Shape.ofName? function with
  | none => .error (.unsupportedWaveform function)
  | some .square => do
    let amplitude ← require function "amp" p.amplitude
    return .real (Shape.flat times amplitude)
  | some .softSquare => do
    let amplitude ← require function "amp" p.amplitude
    return .real (Shape.soft f times amplitude)
  | some .drag => do
    let gauss ← require function "G_amp" p.gaussAmplitude
    let derivative ← require function "D_amp" p.derivativeAmplitude
    let drag : Shape.Drag R := {
      gauss := gauss
      derivative := derivative
      duration := p.duration
      sigmas := p.sigmas.getD ((3 : Nat) : R)
      phase := p.phase.getD ((0 : Nat) : R) }
    return .complex (Shape.envelope f drag times)

/-- The standard waveform functions of doubles. -/
def standard : WaveformLibrary Float := standardOver .double

end WaveformLibrary

/-- A question to a library: a waveform function, the times and the pulse. -/
structure Question where
  function : String
  times : List Float
  pulse : Pulse Float

/-- What a library says to a question. -/
def WaveformLibrary.answer (library : WaveformLibrary Float) (q : Question) :
    Except CompileError (Waveform Float) :=
  library q.function q.times q.pulse

/-- The samples of a pulse on a resource with a given sampling rate, by way of asking for its
waveform function. A pulse without one is silent, and nothing is asked. -/
def Pulse.sampleWith {m : Type → Type} [Monad m] (ask : Question → m (Waveform Float))
    (p : Pulse Float) (rate : Float) : m (Waveform Float) :=
  let times := sampleTimes p.duration rate
  match p.function with
  | some function => ask ⟨function, times, p⟩
  | none => pure (.real (List.replicate times.length 0.0))

/-- The samples of a pulse, by the answer of a library. -/
def WaveformLibrary.render (library : WaveformLibrary Float) (p : Pulse Float) (rate : Float) :
    Except CompileError (Waveform Float) :=
  p.sampleWith library.answer rate

namespace WaveformLibrary

variable {library : WaveformLibrary Float} {p : Pulse Float}

theorem render_of_some {function : String} (h : p.function = some function) (rate : Float) :
    library.render p rate = library function (sampleTimes p.duration rate) p := by
  rw [render, Pulse.sampleWith, h]
  rfl

theorem render_of_none (h : p.function = none) (rate : Float) :
    library.render p rate
      = .ok (.real (List.replicate (sampleTimes p.duration rate).length 0.0)) := by
  rw [render, Pulse.sampleWith, h]
  rfl

end WaveformLibrary

end Sequencer
