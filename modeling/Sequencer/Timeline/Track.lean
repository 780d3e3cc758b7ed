import Sequencer.Memory.Bank
import Sequencer.Timeline.Placement

/-!
# Tracks

Placements are collected on one track per resource. A track knows its entries, the waveforms they
need, the frequency of the oscillator and the end of its last waveform. Once all placements are
collected, entries are sorted by time and waveforms are placed in memory.

The rule by which a placement changes the frequency is an argument, so that the rule of the compiler
can be compared with another one.

## Main definitions

* `Resource.adopt` — the oscillator's frequency after a pulse
* `TuningRule`, `Track.tune` — rules for the frequency, and the one of the compiler
* `Track`, `Track.add` — a resource while placements are collected
* `Compilation`, `Compilation.add` — all tracks, and the contents that are acquired
* `CompiledResource`, `CompiledSchedule`, `Schedule.compile` — the result
-/

namespace Sequencer

/-- The oscillator's frequency after a pulse. An unset or zero frequency is adopted from the first
pulse that has one. Later pulses keep it; where all pulses share the oscillator, one that asks for
another frequency is refused. -/
def Resource.adopt (r : Resource) (current : Option Float) (key : ContentKey)
    (requested : Option Float) : Except CompileError (Option Float) :=
  match requested with
  | none => .ok current
  | some found =>
    match current with
    | none => .ok (some found)
    | some expected =>
      if expected == 0.0 then .ok (some found)
      else if r.kind = .awg ∧ found != expected then
        .error (.inconsistentModulation key r.name expected found)
      else .ok current

/-- Ask for the waveform of a placement. -/
def Placement.request (library : WaveformLibrary Float) (p : Placement) :
    EStateM CompileError Sampler (Waveform Float) :=
  Sampler.request library p.entry.key p.pulse p.resource.samplingRate

/-- A resource while placements are collected, with the sampler of its waveforms. -/
structure Track extends Sampler where
  /-- In the order in which they were placed. -/
  entries : List Entry
  frequency : Option Float
  /-- The latest end of any waveform, in samples. -/
  finish : Int

/-- A rule for the frequency of the oscillator after a placement. -/
abbrev TuningRule := Track → Placement → Except CompileError (Option Float)

namespace Track

/-- The track of a resource before its first placement. -/
def start (r : Resource) : Track := ⟨.empty, [], r.frequency, 0⟩

/-- The rule of the compiler: a content that has been seen before does not change the frequency. -/
def tune : TuningRule := fun t p =>
  if t.cache.contains p.entry.key then .ok t.frequency
  else p.resource.adopt t.frequency p.entry.key p.pulse.modulation

/-- Put a placement on a track. -/
def add (rule : TuningRule) (library : WaveformLibrary Float) (t : Track) (p : Placement) :
    Except CompileError Track := do
  let frequency ← rule t p
  match (p.request library).run t.toSampler with
  | .error e _ => throw e
  | .ok waveform sampler =>
    return {
      toSampler := sampler
      entries := t.entries ++ [p.entry]
      frequency := frequency
      finish := max t.finish (p.entry.time + waveform.length) }

end Track

/-- All tracks by resource, and the contents of acquisitions in the order in which they were first
seen. -/
structure Compilation where
  tracks : OrderedMap String Track
  acquisitions : List ContentKey
  /-- The latest end of any waveform on any resource so far, in samples. -/
  duration : Int

namespace Compilation

/-- Nothing has been placed. -/
def start : Compilation := ⟨.empty, [], 0⟩

/-- The track of a resource. -/
def track (c : Compilation) (channel : String) (r : Resource) : Track :=
  (c.tracks.get? channel).getD (.start r)

/-- Collect a placement. -/
def add (rule : TuningRule) (library : WaveformLibrary Float) (c : Compilation) (p : Placement) :
    Except CompileError Compilation := do
  let t ← (c.track p.channel p.resource).add rule library p
  return {
    tracks := c.tracks.insert p.channel t
    acquisitions :=
      if p.acquires ∧ p.entry.key ∉ c.acquisitions then c.acquisitions ++ [p.entry.key]
      else c.acquisitions
    duration := max c.duration t.finish }

/-- Collect all placements; the first error ends it. -/
def collect (rule : TuningRule) (library : WaveformLibrary Float) (c : Compilation)
    (placements : List (Except CompileError Placement)) : Except CompileError Compilation :=
  placements.foldlM (fun c placement => do c.add rule library (← placement)) c

/-- What the library has been asked, resource by resource. -/
def asked (c : Compilation) : List Question := c.tracks.entries.flatMap fun entry => entry.2.asked

end Compilation

/-- A resource with everything that its program needs. -/
structure CompiledResource where
  /-- The key of the resource in the schedule. -/
  name : String
  resource : Resource
  /-- Sorted by time; entries at the same time stay in the order in which they were placed. -/
  entries : List Entry
  cache : Cache
  memory : Memory
  frequency : Option Float
  /-- The latest end of any waveform, in samples. -/
  finish : Int

/-- A schedule as programs need it. -/
structure CompiledSchedule where
  /-- The resources on which something is played, in the order of the schedule. -/
  resources : List CompiledResource
  acquisitions : List ContentKey
  /-- The latest end of any waveform on any resource, in samples. -/
  duration : Int
  /-- What the library was asked, resource by resource. -/
  asked : List Question

namespace Compilation

/-- Finish the track of a resource. -/
def finishTrack (c : Compilation) (settings : Settings) (name : String) (r : Resource) (t : Track) :
    Except CompileError CompiledResource := do
  let capacity := if settings.limitBanks then some r.kind.traits.slotCapacity else none
  let memory ← Memory.allocate name t.cache c.acquisitions capacity
  return {
    name := name
    resource := r
    entries := t.entries.mergeSort fun a b => decide (a.time ≤ b.time)
    cache := t.cache
    memory := memory
    frequency := t.frequency
    finish := t.finish }

/-- Finish all tracks, in the order of the schedule's resources. -/
def finish (c : Compilation) (s : Schedule) (settings : Settings) :
    Except CompileError CompiledSchedule := do
  let used := s.resources.entries.filterMap fun (name, r) =>
    (c.tracks.get? name).map fun t => (name, r, t)
  let resources ← used.mapM fun (name, r, t) => c.finishTrack settings name r t
  return {
    resources := resources
    acquisitions := c.acquisitions
    duration := c.duration
    asked := c.asked }

end Compilation

/-- Compile a schedule with a rule for frequencies: collect its placements and finish the tracks. -/
def Schedule.compileWith (rule : TuningRule) (s : Schedule) (library : WaveformLibrary Float)
    (settings : Settings) : Except CompileError CompiledSchedule := do
  let c ← Compilation.start.collect rule library (s.placements settings)
  c.finish s settings

/-- Compile a schedule. -/
def Schedule.compile (s : Schedule) (library : WaveformLibrary Float) (settings : Settings) :
    Except CompileError CompiledSchedule :=
  s.compileWith Track.tune library settings

end Sequencer
