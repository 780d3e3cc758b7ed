import Sequencer.Assembly.Instruction
import Sequencer.ContentKey

/-!
# Why a schedule cannot be compiled

## Main definitions

* `Context` — the place of an entry on its resource
* `CompileError`, `CompileError.message` — the causes and their wording
* `CompileError.root` — the innermost cause
-/

namespace Sequencer

/-- The place of an entry: its resource, its key and its time in samples. -/
structure Context where
  resource : String
  key : ContentKey
  time : Int

/-- The wording of a place. -/
def Context.describe (c : Context) : String :=
  "'" ++ c.key.text ++ "' at sample " ++ toString c.time ++ " on '" ++ c.resource ++ "'"

/-- Why a schedule cannot be compiled. -/
inductive CompileError where
  /-- An operation has no time. -/
  | undeterminedTiming (schedule operation : String)
  /-- No waveform function has this name. -/
  | unsupportedWaveform (function : String)
  /-- A pulse is to be played on a channel that is no resource of the schedule. -/
  | unknownChannel (channel schedule : String)
  /-- A pulse needs another frequency than the one its resource has. -/
  | inconsistentModulation (pulse : ContentKey) (resource : String) (expected found : Float)
  /-- An instruction cannot be encoded. -/
  | encoding (cause : EncodeError)
  /-- An entry starts before the one before it ends, or before the sequence starts. -/
  | schedulingConflict (previous : Option Context) (current : Context)
  /-- A resource takes longer than the whole sequence. -/
  | overrun (resource : String) (sequenceDuration runtime : Int)
  /-- A bank has too few slots. -/
  | bankCapacityExceeded (resource : String) (bank : Bank) (required capacity : Nat)
  /-- A bank has more waveforms than indices. -/
  | unindexed
  /-- A timing constraint refers to no operation of the schedule. -/
  | unknownOperation (operation : String)
  /-- An operation has no pulses. -/
  | emptyOperation (operation : String)
  /-- A waveform function lacks a parameter. -/
  | missingParameter (function parameter : String)
  /-- Every channel would be an acquisition channel. -/
  | emptySuffix
  /-- An entry has no samples. -/
  | unsampled (key : ContentKey)
  /-- An entry has no place in memory. -/
  | unallocated (key : ContentKey)
  /-- A reason in words, given by a waveform library. -/
  | other (text : String)
  /-- What went wrong while an entry was encoded. -/
  | within (context : Context) (cause : CompileError)

namespace CompileError

/-- The wording of a compilation error. -/
def message : CompileError → String
  | .undeterminedTiming schedule operation =>
    "Absolute timing has not been determined for operation '" ++ operation ++ "' in schedule '"
      ++ schedule ++ "'"
  | .unsupportedWaveform function => "Unknown waveform function '" ++ function ++ "'"
  | .unknownChannel channel schedule =>
    "Resource '" ++ channel ++ "' not available in schedule '" ++ schedule ++ "'"
  | .inconsistentModulation pulse resource expected found =>
    "Pulse '" ++ pulse.text ++ "' on resource '" ++ resource
      ++ "' has an inconsistent modulation frequency: expected " ++ messageNumber.write expected
      ++ " but was " ++ messageNumber.write found
  | .encoding cause => cause.message
  | .schedulingConflict previous current =>
    "Instruction " ++ current.describe ++ " is scheduled before "
      ++ match previous with
        | some context => "the end of " ++ context.describe
        | none => "the start of the sequence"
  | .overrun resource sequenceDuration runtime =>
    "Sequence duration " ++ toString sequenceDuration ++ " of resource '" ++ resource
      ++ "' is less than its total runtime (" ++ toString runtime ++ ")"
  | .bankCapacityExceeded resource bank required capacity =>
    "Resource '" ++ resource ++ "' requires " ++ toString required ++ " waveform slots in the "
      ++ bank.name ++ " bank, but only " ++ toString capacity ++ " are available"
  | .unindexed => "Waveform index does not fit into 32 bits"
  | .unknownOperation operation =>
    "Operation '" ++ operation ++ "' is referenced by a timing constraint but not defined"
  | .emptyOperation operation => "Operation '" ++ operation ++ "' has no pulse info"
  | .missingParameter function parameter =>
    "Waveform function '" ++ function ++ "' requires the parameter '" ++ parameter ++ "'"
  | .emptySuffix => "Acquisition suffix must not be empty, every channel would match it"
  | .unsampled key => "Waveform '" ++ key.text ++ "' was never sampled"
  | .unallocated key => "Waveform '" ++ key.text ++ "' has no memory allocation"
  | .other text => text
  | .within context cause => "Failed to emit " ++ context.describe ++ ": " ++ cause.message

/-- The innermost cause of an error. -/
def root : CompileError → CompileError
  | .within _ cause => cause.root
  | e => e

/-- An error followed by what caused it, from the outside in. -/
def chain : CompileError → List CompileError
  | .within context cause => .within context cause :: cause.chain
  | e => [e]

end CompileError

end Sequencer
