import Sequencer.Timeline.Plan

/-!
# Sequencer configurations

Everything that a sequencer needs to run its part of a schedule: the waveforms of both banks, the
program and the settings of its instrument.

## Main definitions

* `Configuration`, `Configuration.encode` — a configuration, and as JSON
* `CompiledResource.configure` — the configuration of a resource with a program
* `CompiledSchedule.configure`, `Schedule.configure` — the configurations of all resources
-/

namespace Sequencer

/-- One path of a waveform in memory. -/
structure WaveformData where
  samples : List Float
  /-- The slot that it occupies. -/
  index : Nat

/-- The two paths of an allocation, with their names. -/
def WaveformData.paths (key : ContentKey) (a : Allocation) : List (String × WaveformData) :=
  [(key.text ++ "_I", ⟨a.waveform.inPhase, 2 * a.index⟩),
   (key.text ++ "_Q", ⟨a.waveform.quadrature, 2 * a.index + 1⟩)]

/-- The paths of all waveforms of a bank by name, put there in the order of their allocations. -/
def WaveformData.ofBank (bank : Allocations) : OrderedMap String WaveformData :=
  .ofList (bank.entries.flatMap fun (key, allocation) => paths key allocation)

/-- What an instrument has to be set to. -/
structure InstrumentSettings where
  instrument : Option String
  index : UInt32
  kind : Resource.Kind
  samplingRate : Float
  frequency : Float
  phase : Float
  data : Json

/-- What a sequencer needs to run its part of a schedule. -/
structure Configuration where
  awg : OrderedMap String WaveformData
  acq : OrderedMap String WaveformData
  program : Program
  instrument : InstrumentSettings

/-- The configuration of a resource with a program. A resource without a frequency has none to
modulate with, which is frequency zero. -/
def CompiledResource.configure (r : CompiledResource) (p : Program) : Configuration where
  awg := WaveformData.ofBank r.memory.awg
  acq := WaveformData.ofBank r.memory.acq
  program := p
  instrument := {
    instrument := r.resource.instrument
    index := r.resource.index
    kind := r.resource.kind
    samplingRate := r.resource.samplingRate
    frequency := r.frequency.getD 0.0
    phase := 0.0
    data := r.resource.data }

/-- The configuration of a resource in a sequence of a given duration, under its name. -/
def CompiledResource.configured (r : CompiledResource) (duration : Int) (settings : Settings) :
    Except CompileError (String × Configuration) := do
  let p ← r.program duration settings
  return (r.name, r.configure p)

/-- The configurations of all resources, made one after the other. -/
def CompiledSchedule.configure (compiled : CompiledSchedule) (settings : Settings) :
    Except CompileError (List (String × Configuration)) :=
  compiled.resources.mapM fun r => r.configured compiled.duration settings

/-- The configurations of the resources on which something is played, in the order of the schedule.
The settings are made fit for use first, and the first error ends the compilation. -/
def Schedule.configure (s : Schedule) (library : WaveformLibrary Float) (settings : Settings) :
    Except CompileError (List (String × Configuration)) := do
  let (_, settings) ← settings.sanitize
  let compiled ← s.compile library settings
  compiled.configure settings

/-- Waveforms as JSON. -/
def WaveformData.encode (bank : OrderedMap String WaveformData) : Json :=
  .object (bank.entries.map fun (name, w) =>
    (name, .object [("data", .list (w.samples.map .real)), ("index", .int w.index)]))

/-- Instrument settings as JSON. -/
def InstrumentSettings.encode (i : InstrumentSettings) : Json :=
  .object
    [("instrument_name", Json.ofOption .text i.instrument), ("seq_idx", .int i.index.toNat),
     ("kind", .text i.kind.name), ("sampling_rate", .real i.samplingRate),
       ("nco_freq", .real i.frequency),
     ("nco_phase", .real i.phase), ("data", i.data)]

/-- A configuration as JSON. -/
def Configuration.encode (c : Configuration) : Json :=
  .object
    [("waveforms",
      .object [("awg", WaveformData.encode c.awg), ("acq", WaveformData.encode c.acq)]),
      ("program", .text c.program.listing), ("instrument_config", c.instrument.encode)]

end Sequencer
