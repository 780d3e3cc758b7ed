import Sequencer.Parameters

/-!
# Pulses

A pulse asks for a waveform on a channel: when, for how long, by which function and with which
parameters. Times are in seconds, frequencies in hertz, phases in degrees.

## Main definitions

* `Pulse`, with `Pulse.silent`, `Pulse.square`, `Pulse.softSquare`, `Pulse.drag`
* `Pulse.parameters` — all numeric parameters by name
-/

namespace Sequencer

/-- A request for a waveform. -/
structure Pulse (R : Type) where
  /-- The channel to play on; a pulse without one is not played. -/
  channel : Option String
  /-- Start, relative to its operation. -/
  start : R
  duration : R
  /-- The name of the waveform function; a pulse without one is silent. -/
  function : Option String
  /-- The amplitude of a square or soft square. -/
  amplitude : Option R
  /-- The amplitude of the Gaussian of a drag pulse. -/
  gaussAmplitude : Option R
  /-- The amplitude of the derivative of a drag pulse. -/
  derivativeAmplitude : Option R
  phase : Option R
  /-- The frequency by which the sequencer modulates the waveform. -/
  modulation : Option R
  /-- How many standard deviations of a Gaussian fit in half of the duration. -/
  sigmas : Option R
  /-- Further parameters of waveform functions. -/
  extra : Parameters R

namespace Pulse

variable {R : Type}

/-- A pulse that only takes time. -/
def silent (channel : Option String) (start duration : R) : Pulse R where
  channel := channel
  start := start
  duration := duration
  function := none
  amplitude := none
  gaussAmplitude := none
  derivativeAmplitude := none
  phase := none
  modulation := none
  sigmas := none
  extra := .empty

/-- A square pulse. -/
def square (channel : String) (start duration amplitude : R) : Pulse R :=
  { silent (some channel) start duration with
    function := some "square", amplitude := some amplitude }

/-- A square pulse with smooth edges. -/
def softSquare (channel : String) (start duration amplitude : R) : Pulse R :=
  { silent (some channel) start duration with
    function := some "soft_square", amplitude := some amplitude }

/-- A drag pulse: a Gaussian with its derivative on the other path. -/
def drag [NatCast R] (channel : String) (start duration gauss derivative phase : R) : Pulse R :=
  { silent (some channel) start duration with
    function := some "drag"
    gaussAmplitude := some gauss
    derivativeAmplitude := some derivative
    phase := some phase
    sigmas := some ((3 : Nat) : R) }

/-- The same pulse, modulated with a frequency. -/
def modulated (p : Pulse R) (frequency : R) : Pulse R := { p with modulation := some frequency }

/-- The parameters with a field of their own, by the names they have in texts. -/
def named (p : Pulse R) : List (String × Option R) :=
  [("amp", p.amplitude), ("G_amp", p.gaussAmplitude), ("D_amp", p.derivativeAmplitude),
   ("phase", p.phase), ("freq_mod", p.modulation), ("nr_sigma", p.sigmas)]

/-- All numeric parameters that are present, by name. An extra parameter wins over a field. -/
def parameters (p : Pulse R) : Parameters R :=
  (p.named.foldl (fun all entry => all.insert? entry.1 entry.2) Parameters.empty).insertAll
    p.extra.entries

end Pulse

end Sequencer
