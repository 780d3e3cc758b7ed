import Sequencer.Modulation
import Sequencer.Schedule.Basic
import Sequencer.Settings
import Sequencer.Waveform.Library

/-!
# Placements

Every executed pulse with a channel is placed on a resource, at a time. Where it goes depends on the
schedule and the settings alone, not on what has been placed before. The placements of a schedule
are therefore a list; a pulse that cannot be placed stands in it as an error.

## Main definitions

* `Entry` — what a resource has to play, and when
* `Placement` — an entry with its resource and its pulse
* `Schedule.placements` — all placements in the order of the timing constraints
-/

namespace Sequencer

/-- An event on a resource: what to play, when, and with which register settings. -/
structure Entry where
  /-- In samples. -/
  time : Int
  key : ContentKey
  modulations : Modulations Float

/-- A pulse placed on a resource. -/
structure Placement where
  /-- The key of the resource in the schedule. -/
  channel : String
  resource : Resource
  /-- Whether the pulse acquires. -/
  acquires : Bool
  entry : Entry
  /-- The normalized pulse. -/
  pulse : Pulse Float

namespace Schedule

/-- The placement of a pulse of an operation that is executed at a time; none for a pulse without a
channel. -/
def placePulse (s : Schedule) (settings : Settings) (time : Float) (p : Pulse Float) :
    List (Except CompileError Placement) :=
  match p.normalize with
  | .error e => [.error e]
  | .ok (modulations, normalized) =>
    match p.channel with
    | none => []
    | some channel =>
      let (name, acquires) := settings.resolve channel
      match s.resources.get? name with
      | none => [.error (.unknownChannel name s.name)]
      | some resource =>
        [.ok {
          channel := name
          resource := resource
          acquires := acquires
          entry := {
            time := sampleCount (time + p.start) resource.samplingRate
            key := normalized.contentKey
            modulations := modulations }
          pulse := normalized }]

/-- The placements of a timing constraint. -/
def placeConstraint (s : Schedule) (settings : Settings) (c : TimingConstraint) :
    List (Except CompileError Placement) :=
  match s.operations.get? c.operation with
  | none => [.error (.unknownOperation c.operation)]
  | some operation =>
    if operation.pulses.isEmpty then [.error (.emptyOperation c.operation)]
    else
      match c.time with
      | none => [.error (.undeterminedTiming s.name operation.name)]
      | some time => operation.pulses.flatMap (s.placePulse settings time)

/-- All placements, in the order of the timing constraints and, within one, of the pulses. -/
def placements (s : Schedule) (settings : Settings) : List (Except CompileError Placement) :=
  s.constraints.flatMap (s.placeConstraint settings)

end Schedule

end Sequencer
