import Sequencer.Json.Decode
import Sequencer.Json.Reader
import Sequencer.Schedule.Basic

/-!
# Schedules from JSON

Each record is read into a form with gaps and completed at its end, so that a missing field is
noticed after everything that is there. Unknown members are passed over, except in pulses, where
they are extra parameters and have to be numbers.

## Main definitions

* `Pulse.decode`, `Resource.decode`, `Schedule.decode`
* `Schedule.ofText` — a schedule from a text
-/

namespace Sequencer

open Decode

/-! ## Pulses -/

/-- A pulse with gaps, and the extra parameters that it was given, in order. -/
structure Pulse.Form where
  channel : Option (Option String)
  start : Option Float
  duration : Option Float
  function : Option (Option String)
  amplitude : Option (Option Float)
  gaussAmplitude : Option (Option Float)
  derivativeAmplitude : Option (Option Float)
  phase : Option (Option Float)
  modulation : Option (Option Float)
  sigmas : Option (Option Float)
  extra : List (String × Json)

namespace Pulse.Form

/-- The form of which nothing is known. -/
def blank : Pulse.Form := ⟨none, none, none, none, none, none, none, none, none, none, []⟩

/-- The fields of a pulse. -/
def fields : List (RecordField Pulse.Form) :=
  [field "channel" Form.channel (fun f x => { f with channel := some x }) (optional text),
   field "t0" Form.start (fun f x => { f with start := some x }) real,
   field "duration" Form.duration (fun f x => { f with duration := some x }) real,
   field "wf_func" Form.function (fun f x => { f with function := some x }) (optional text),
   field "amp" Form.amplitude (fun f x => { f with amplitude := some x }) (optional real),
   field "G_amp" Form.gaussAmplitude (fun f x => { f with gaussAmplitude := some x })
     (optional real),
   field "D_amp" Form.derivativeAmplitude (fun f x => { f with derivativeAmplitude := some x })
     (optional real),
   field "phase" Form.phase (fun f x => { f with phase := some x }) (optional real),
   field "freq_mod" Form.modulation (fun f x => { f with modulation := some x }) (optional real),
   field "nr_sigma" Form.sigmas (fun f x => { f with sigmas := some x }) (optional real)]

/-- A member that is no field is kept as an extra parameter, of whatever type. -/
def keep (p : Place) (name : String) (draft : Draft) (f : Pulse.Form) :
    Except DecodeError Pulse.Form := do
  let value ← any p draft
  return { f with extra := f.extra ++ [(name, value)] }

/-- Complete a form: first the required fields, then the extra parameters, which have to be
numbers. -/
def complete (p : Place) (f : Pulse.Form) : Except DecodeError (Pulse Float) := do
  let start ← require "t0" f.start
  let duration ← require "duration" f.duration
  let extra ← f.extra.mapM fun entry => do
    let value ← real p entry.2.draft
    return (entry.1, value)
  return {
    channel := f.channel.join
    start := start
    duration := duration
    function := f.function.join
    amplitude := f.amplitude.join
    gaussAmplitude := f.gaussAmplitude.join
    derivativeAmplitude := f.derivativeAmplitude.join
    phase := f.phase.join
    modulation := f.modulation.join
    sigmas := f.sigmas.join
    extra := .ofList extra }

end Pulse.Form

/-- Decode a pulse. -/
def Pulse.decode (p : Place) : Draft → Except DecodeError (Pulse Float)
  | .object entries ending => do
    let p ← p.enter
    let form ← members Form.fields Form.keep p Form.blank entries
    close ending
    form.complete p
  | draft => refuse "struct PulseDescription" draft

/-! ## Operations and constraints -/

/-- An operation with gaps. -/
structure Schedule.Operation.Form where
  name : Option String
  pulses : Option (List (Pulse Float))

/-- The fields of an operation. -/
def Schedule.Operation.record : Record Schedule.Operation.Form where
  title := "struct Operation"
  fields :=
    [field "name" Form.name (fun f x => { f with name := some x }) text,
     field "pulse_info" Form.pulses (fun f x => { f with pulses := some x }) (listOf Pulse.decode)]
  required := 1

/-- Decode an operation. -/
def Schedule.Operation.decode (p : Place) (draft : Draft) :
    Except DecodeError Schedule.Operation := do
  let form ← Decode.record Operation.record ⟨none, none⟩ p draft
  let name ← require "name" form.name
  return ⟨name, form.pulses.getD []⟩

/-- A timing constraint with gaps. -/
structure TimingConstraint.Form where
  operation : Option String
  time : Option (Option Float)

/-- The fields of a timing constraint. -/
def TimingConstraint.record : Record TimingConstraint.Form where
  title := "struct TimingConstraint"
  fields :=
    [field "operation_hash" Form.operation (fun f x => { f with operation := some x }) text,
     field "abs_time" Form.time (fun f x => { f with time := some x }) (optional real)]
  required := 1

/-- Decode a timing constraint. -/
def TimingConstraint.decode (p : Place) (draft : Draft) : Except DecodeError TimingConstraint := do
  let form ← Decode.record TimingConstraint.record ⟨none, none⟩ p draft
  let operation ← require "operation_hash" form.operation
  return ⟨operation, form.time.join⟩

/-! ## Resources -/

/-- The kind with a given name. -/
def Resource.Kind.ofName (name : String) : Except DecodeError Resource.Kind :=
  if name = "awg" then .ok .awg
  else if name = "acq" then .ok .acq
  else .error (.unknownVariant name)

/-- The content of a kind that is written as an object: nothing. -/
def Resource.Kind.content : Draft → Except DecodeError Unit
  | .null => .ok ()
  | draft => refuse "unit" draft

/-- What follows the only member of a kind that is written as an object in a text. -/
def Resource.Kind.closing (rest : List (Except Fault String × Draft)) (ending : Option Flaw) :
    Except DecodeError Unit :=
  match rest, ending with
  | [], none => .ok ()
  | [], some ⟨.endInObject, _⟩ => .error (.fault .endInObject)
  | _, _ => .error (.fault .expectedValue)

/-- What is wrong with a kind that is written as an object without a member: the name is missing, or
what stands in its place cannot be read. -/
def Resource.Kind.withoutName : Option Flaw → Fault
  | none => .expectedValue
  | some flaw => flaw.read

/-- Decode a kind from a text: a name, or an object with that name as its only key and null as its
value. -/
def Resource.Kind.decodeText (p : Place) : Draft → Except DecodeError Resource.Kind
  | .text name => Kind.ofName name
  | .object [] ending => do
    let _ ← p.enter
    .error (.fault (Kind.withoutName ending))
  | .object ((name, value) :: rest) ending => do
    let _ ← p.enter
    let kind ← Kind.ofName (← key name)
    Kind.content value
    Kind.closing rest ending
    return kind
  | .flawed flaw => .error (.fault flaw.read)
  | _ => .error (.fault .expectedValue)

/-- Decode a kind from a value in memory. -/
def Resource.Kind.decodeMemory : Draft → Except DecodeError Resource.Kind
  | .text name => Kind.ofName name
  | .object [(name, value)] _ => do
    let kind ← Kind.ofName (← key name)
    Kind.content value
    return kind
  | .object _ _ => .error (.wrongValue .object "map with a single key")
  | draft => refuse "string or map" draft

/-- Decode a kind. -/
def Resource.Kind.decode (p : Place) (draft : Draft) : Except DecodeError Resource.Kind :=
  match p.medium with
  | .text => Kind.decodeText p draft
  | .memory => Kind.decodeMemory draft

/-- A resource with gaps. -/
structure Resource.Form where
  name : Option String
  kind : Option Resource.Kind
  samplingRate : Option Float
  frequency : Option (Option Float)
  index : Option UInt32
  instrument : Option (Option String)
  data : Option Json

/-- The fields of a resource. -/
def Resource.record : Record Resource.Form where
  title := "struct Resource"
  fields :=
    [field "name" Form.name (fun f x => { f with name := some x }) text,
     field "kind" Form.kind (fun f x => { f with kind := some x }) Kind.decode,
     field "sampling_rate" Form.samplingRate (fun f x => { f with samplingRate := some x }) real,
     field "nco_freq" Form.frequency (fun f x => { f with frequency := some x }) (optional real),
     field "seq_idx" Form.index (fun f x => { f with index := some x }) word32,
     field "instrument_name" Form.instrument (fun f x => { f with instrument := some x })
       (optional text),
     field "data" Form.data (fun f x => { f with data := some x }) any]
  required := 3

/-- Decode a resource. -/
def Resource.decode (p : Place) (draft : Draft) : Except DecodeError Resource := do
  let form ← Decode.record Resource.record ⟨none, none, none, none, none, none, none⟩ p draft
  let name ← require "name" form.name
  let kind ← require "kind" form.kind
  let samplingRate ← require "sampling_rate" form.samplingRate
  return {
    name := name
    kind := kind
    samplingRate := samplingRate
    frequency := form.frequency.join
    index := form.index.getD 0
    instrument := form.instrument.join
    data := form.data.getD .null }

/-! ## Schedules -/

/-- A schedule with gaps. -/
structure Schedule.Form where
  name : Option String
  operations : Option (OrderedMap String Schedule.Operation)
  constraints : Option (List TimingConstraint)
  resources : Option (OrderedMap String Resource)

/-- The fields of a schedule. -/
def Schedule.record : Record Schedule.Form where
  title := "struct Schedule"
  fields :=
    [field "name" Form.name (fun f x => { f with name := some x }) text,
     field "operations" Form.operations (fun f x => { f with operations := some x })
       (mapOf Schedule.Operation.decode),
     field "timing_constraints" Form.constraints (fun f x => { f with constraints := some x })
       (listOf TimingConstraint.decode),
     field "resources" Form.resources (fun f x => { f with resources := some x })
       (mapOf Resource.decode)]
  required := 1

/-- Decode a schedule. -/
def Schedule.decode (p : Place) (draft : Draft) : Except DecodeError Schedule := do
  let form ← Decode.record Schedule.record ⟨none, none, none, none⟩ p draft
  let name ← require "name" form.name
  return ⟨name, form.operations.getD .empty, form.constraints.getD [], form.resources.getD .empty⟩

/-- The schedule that a text holds. -/
def Schedule.ofText (s : String) : Except DecodeError Schedule :=
  (Source.read s).decode Schedule.decode

end Sequencer
