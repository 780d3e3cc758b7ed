import Sequencer.Assembly.Traits
import Sequencer.Json.Basic
import Sequencer.OrderedMap
import Sequencer.Schedule.Pulse

/-!
# Schedules

A schedule names operations, each a list of pulses, places them in time by constraints, and lists
the resources that they are played on.

## Main definitions

* `Resource`, `Schedule.Operation`, `TimingConstraint`, `Schedule`
* `Schedule.addResource`, `Schedule.addOperation`, `Schedule.place`, `Schedule.addPulse` — building
  a schedule step by step
-/

namespace Sequencer

/-- What a resource can do. -/
inductive Resource.Kind where
  /-- Playing waveforms. -/
  | awg
  /-- Acquiring signals. -/
  | acq
deriving DecidableEq

/-- The name of a kind in texts. -/
def Resource.Kind.name : Resource.Kind → String
  | .awg => "awg"
  | .acq => "acq"

/-- The traits of the sequencers of a kind. -/
def Resource.Kind.traits : Resource.Kind → Traits
  | .awg => .controlModule
  | .acq => .readoutModule

/-- A sequencer that pulses can be played on. -/
structure Resource where
  name : String
  kind : Resource.Kind
  /-- Samples per second. -/
  samplingRate : Float
  /-- The oscillator's frequency at the start; unset or zero, the first modulated pulse decides. -/
  frequency : Option Float
  /-- The position of the sequencer in its instrument. -/
  index : UInt32
  instrument : Option String
  /-- Settings of the instrument, passed on as they are. -/
  data : Json

/-- A resource with nothing but a name, a kind and a sampling rate. -/
def Resource.plain (name : String) (kind : Resource.Kind) (samplingRate : Float) : Resource where
  name := name
  kind := kind
  samplingRate := samplingRate
  frequency := none
  index := 0
  instrument := none
  data := .null

/-- A named list of pulses. -/
structure Schedule.Operation where
  name : String
  pulses : List (Pulse Float)

/-- The request to execute an operation, at a time if one has been determined. -/
structure TimingConstraint where
  /-- The key of the operation in its schedule. -/
  operation : String
  time : Option Float

/-- Operations, when they are executed, and what they are played on. -/
structure Schedule where
  name : String
  operations : OrderedMap String Schedule.Operation
  constraints : List TimingConstraint
  resources : OrderedMap String Resource

namespace Schedule

/-- A schedule in which nothing happens. -/
def blank (name : String) : Schedule := ⟨name, .empty, [], .empty⟩

/-- Add a resource under its own name. -/
def addResource (s : Schedule) (r : Resource) : Schedule :=
  { s with resources := s.resources.insert r.name r }

/-- Add an operation under its own name. -/
def addOperation (s : Schedule) (name : String) (pulses : List (Pulse Float)) : Schedule :=
  { s with operations := s.operations.insert name ⟨name, pulses⟩ }

/-- Execute an operation. -/
def place (s : Schedule) (operation : String) (time : Option Float) : Schedule :=
  { s with constraints := s.constraints ++ [⟨operation, time⟩] }

/-- Add an operation of a single pulse and execute it. -/
def addPulse (s : Schedule) (name : String) (pulse : Pulse Float) (time : Float) : Schedule :=
  (s.addOperation name [pulse]).place name (some time)

end Schedule

end Sequencer
