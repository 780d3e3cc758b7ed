import Sequencer.Assembly.Listing
import Sequencer.Timeline.Track

/-!
# Plans

The program of a resource waits for the other sequencers, plays the entries one after the other and
starts over. It is padded to the duration of the whole sequence, so that all programs of a schedule
stay in step without further coordination.

A plan lists the operations of a program in order, each with the entry it belongs to. Where a check
fails, the plan has the error in place of an operation. A program is built by carrying out a plan,
up to the first error of either kind.

## Main definitions

* `Step`, `Step.perform` — an operation of a plan, or a failed check
* `CompiledResource.plan` — the plan of a resource
* `CompiledResource.program` — its program
-/

namespace Sequencer

/-- A step of a plan. -/
inductive Step where
  /-- Encode an operation, which belongs to an entry or to the program as a whole. -/
  | emit (context : Option Context) (operation : Operation)
  /-- A check that has failed. -/
  | fail (error : CompileError)

/-- Put the error of an operation into words of the compiler, with the entry it belongs to. -/
def Step.blame (context : Option Context) (e : EncodeError) : CompileError :=
  match context with
  | some context => .within context (.encoding e)
  | none => .encoding e

/-- Carry out a step. -/
def Step.perform : Step → EStateM CompileError Program Unit
  | .emit context operation => EStateM.adaptExcept (Step.blame context) operation.perform
  | .fail e => throw e

namespace CompiledResource

/-- The label that a program jumps back to. -/
def startLabel : String := "start"

/-- The place of an entry, for messages. -/
def context (r : CompiledResource) (e : Entry) : Context := ⟨r.name, e.key, e.time⟩

/-- Wait for a time, if there is any. -/
def waitSteps (settings : Settings) (context : Context) (duration : Int) (comment : String) :
    List Step :=
  if 0 < duration then
    [.emit (some context) (.wait none duration.toNat (settings.comment comment))]
  else []

/-- The operations that apply register settings to a bank: gain, offset, phase, phase increment. -/
def modulate (settings : Settings) (bank : Bank) (m : Modulations Float) : List Operation :=
  (m.gain.map fun gain => Operation.setGain bank gain m.gainQ (settings.comment "#Set gain")).toList
    ++ (m.offset.map (Operation.setOffset bank)).toList
    ++ (m.phase.map Operation.setPhase).toList
    ++ (m.phaseDelta.map Operation.setPhaseDelta).toList

/-- The operation that plays, or acquires with, the waveform at a place in memory. -/
def sound (slot : Slot) (duration : Nat) : Operation :=
  match slot.bank with
  | .awg => .play none slot.pathI slot.pathQ duration none
  | .acq => .acquire none slot.pathI slot.pathQ duration none

/-- The steps of an entry: wait for it, set the registers, and play for a duration. -/
def entrySteps (r : CompiledResource) (settings : Settings) (e : Entry) (wait duration : Int) :
    List Step :=
  let here := r.context e
  waitSteps settings here wait "#Wait"
    ++ .emit none .lineBreak
    :: match r.memory.lookup e.key with
      | none => [.fail (.within here (.unallocated e.key))]
      | some slot =>
        (modulate settings slot.bank e.modulations ++ [sound slot duration.toNat]).map
          (.emit (some here))

/-- How long an entry is played: until its waveform ends, or until the next entry starts. -/
def playTime (length : Nat) (e : Entry) : List Entry → Int
  | next :: _ => min (length : Int) (next.time - e.time)
  | [] => length

/-- The steps of entries that follow `previous` at the time `clock`, and the time when they end. -/
def walk (r : CompiledResource) (settings : Settings) (previous : Option Entry) (clock : Int) :
    List Entry → List Step × Int
  | [] => ([], clock)
  | e :: rest =>
    if e.time < clock then
      ([.fail (.schedulingConflict (previous.map r.context) (r.context e))], clock)
    else
      match r.cache.get? e.key with
      | none => ([.fail (.unsampled e.key)], clock)
      | some waveform =>
        let duration := playTime waveform.length e rest
        let (steps, finish) := r.walk settings (some e) (e.time + duration) rest
        (r.entrySteps settings e (e.time - clock) duration ++ steps, finish)

/-- The steps that fill the time up to the end of the sequence, on behalf of the last entry. -/
def padding (r : CompiledResource) (settings : Settings) (remaining : Int) : List Step :=
  match r.entries.getLast? with
  | some last => waitSteps settings (r.context last) remaining "#Sync with other sequencers"
  | none => []

/-- The plan of a resource in a sequence of a given duration. -/
def plan (r : CompiledResource) (duration : Int) (settings : Settings) : List Step :=
  .emit none (.waitSync (settings.comment "#Sync with other sequencers"))
    :: .emit none (.setMarker (some startLabel) 1)
    :: if duration < r.finish then [.fail (.overrun r.name duration r.finish)]
      else
        let (body, clock) := r.walk settings none 0 r.entries
        body ++ r.padding settings (duration - clock)
          ++ [.emit none .lineBreak,
              .emit none (.jump none startLabel (settings.comment "#Loop back to start"))]

/-- The traits of the sequencer that runs a resource. -/
def traits (r : CompiledResource) : Traits := r.resource.kind.traits

/-- The program of a resource, padded to the duration of the sequence. -/
def program (r : CompiledResource) (duration : Int) (settings : Settings) :
    Except CompileError Program :=
  match ((r.plan duration settings).forM Step.perform).run (Program.empty r.traits) with
  | .error e _ => .error e
  | .ok _ p => do
    p.validate.mapError .encoding
    return p

end CompiledResource

end Sequencer
