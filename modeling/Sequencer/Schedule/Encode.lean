import Sequencer.Schedule.Basic

/-!
# Schedules as JSON

Fields come in a fixed order. A pulse leaves out the parameters it does not have, and lists its
extra parameters, sorted by name, after its fields; everywhere else absent values are written as
null.

## Main definitions

* `Pulse.encode`, `Resource.encode`, `Schedule.encode`
-/

namespace Sequencer

/-- A pulse as JSON. -/
def Pulse.encode (p : Pulse Float) : Json :=
  .object
    ([("channel", Json.ofOption .text p.channel), ("t0", .real p.start),
      ("duration", .real p.duration), ("wf_func", Json.ofOption .text p.function)]
      ++ p.named.filterMap (fun entry => entry.2.map fun value => (entry.1, Json.real value))
      ++ p.extra.entries.map fun entry => (entry.1, .real entry.2))

/-- An operation as JSON. -/
def Schedule.Operation.encode (o : Schedule.Operation) : Json :=
  .object [("name", .text o.name), ("pulse_info", .list (o.pulses.map Pulse.encode))]

/-- A timing constraint as JSON. -/
def TimingConstraint.encode (c : TimingConstraint) : Json :=
  .object [("operation_hash", .text c.operation), ("abs_time", Json.ofOption .real c.time)]

/-- A resource as JSON. -/
def Resource.encode (r : Resource) : Json :=
  .object
    [("name", .text r.name), ("kind", .text r.kind.name), ("sampling_rate", .real r.samplingRate),
     ("nco_freq", Json.ofOption .real r.frequency), ("seq_idx", .int r.index.toNat),
     ("instrument_name", Json.ofOption .text r.instrument), ("data", r.data)]

/-- A map as JSON. -/
def OrderedMap.encode {α : Type} (f : α → Json) (m : OrderedMap String α) : Json :=
  .object (m.entries.map fun entry => (entry.1, f entry.2))

/-- A schedule as JSON. -/
def Schedule.encode (s : Schedule) : Json :=
  .object
    [("name", .text s.name), ("operations", s.operations.encode Schedule.Operation.encode),
     ("timing_constraints", .list (s.constraints.map TimingConstraint.encode)),
     ("resources", s.resources.encode Resource.encode)]

end Sequencer
