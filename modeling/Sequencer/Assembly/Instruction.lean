import Sequencer.Assembly.Quantize

/-!
# Instructions

The instructions of a sequencer program, with their mnemonics and operands as they stand in a
listing.

## Main definitions

* `Bank` — the two waveform memory banks
* `Instruction`, with `Instruction.mnemonic`, `Instruction.operands` and `Instruction.duration?`
* `Statement` — an instruction with its label and comment, or an empty line
* `Row` — the four columns of a listing, and `Statement.row`
-/

namespace Sequencer

/-- A waveform memory bank: one for playing and one for acquiring. -/
inductive Bank where
  | awg
  | acq
deriving DecidableEq

/-- The name of a bank, as it stands in mnemonics and messages. -/
def Bank.name : Bank → String
  | .awg => "awg"
  | .acq => "acq"

/-- An instruction of a sequencer program. -/
inductive Instruction where
  /-- Wait until all sequencers are ready. -/
  | waitSync
  /-- Set the marker outputs. -/
  | setMarker (value : Nat)
  /-- Set the gain registers of a bank. -/
  | setGain (bank : Bank) (gainI gainQ : Int)
  /-- Set the offset registers of a bank. -/
  | setOffset (bank : Bank) (offsetI offsetQ : Int)
  /-- Set the phase register. -/
  | setPhase (phase : Phase)
  /-- Advance the phase register. -/
  | setPhaseDelta (phase : Phase)
  /-- Do nothing for a time. -/
  | wait (duration : Nat)
  /-- Play the waveforms of two slots. -/
  | play (slotI slotQ duration : Nat)
  /-- Acquire with the waveforms of two slots. -/
  | acquire (slotI slotQ duration : Nat)
  /-- Move a number into a register. -/
  | move (source : Int) (target : String)
  /-- Continue at a label. -/
  | jump (target : String)
deriving DecidableEq

namespace Instruction

/-- The mnemonic of an instruction. -/
def mnemonic : Instruction → String
  | .waitSync => "wait_sync"
  | .setMarker _ => "set_mrk"
  | .setGain bank _ _ => "set_" ++ bank.name ++ "_gain"
  | .setOffset bank _ _ => "set_" ++ bank.name ++ "_offs"
  | .setPhase _ => "set_ph"
  | .setPhaseDelta _ => "set_ph_delta"
  | .wait _ => "wait"
  | .play _ _ _ => "play"
  | .acquire _ _ _ => "acquire"
  | .move _ _ => "move"
  | .jump _ => "jmp"

/-- The operands of an instruction, separated by commas. -/
def operands : Instruction → String
  | .waitSync => ""
  | .setMarker value => toString value
  | .setGain _ i q => toString i ++ "," ++ toString q
  | .setOffset _ i q => toString i ++ "," ++ toString q
  | .setPhase p | .setPhaseDelta p =>
    toString p.coarse ++ "," ++ toString p.fine ++ "," ++ toString p.ultrafine
  | .wait duration => toString duration
  | .play i q duration | .acquire i q duration =>
    toString i ++ "," ++ toString q ++ "," ++ toString duration
  | .move source target => toString source ++ "," ++ target
  | .jump target => "@" ++ target

/-- The time an instruction takes, if it is a timed one. -/
def duration? : Instruction → Option Nat
  | .wait duration | .play _ _ duration | .acquire _ _ duration => some duration
  | _ => none

/-- The label an instruction jumps to, if it is a jump. -/
def target? : Instruction → Option String
  | .jump target => some target
  | _ => none

end Instruction

/-- A line of a program. -/
inductive Statement where
  /-- An instruction with its label and comment, each of which may be missing. -/
  | step (label : Option String) (instruction : Instruction) (comment : Option String)
  /-- An empty line, for legibility. -/
  | lineBreak
deriving DecidableEq

/-- The columns of a listing. -/
structure Row where
  label : String
  mnemonic : String
  operands : String
  comment : String
deriving DecidableEq

namespace Statement

/-- An instruction whose empty comment counts as none. -/
def commented (label : Option String) (instruction : Instruction) (comment : Option String) :
    Statement :=
  .step label instruction (comment.filter fun text => text != "")

/-- The instruction of a statement. -/
def instruction? : Statement → Option Instruction
  | .step _ instruction _ => some instruction
  | .lineBreak => none

/-- The label of a statement. -/
def label? : Statement → Option String
  | .step label _ _ => label
  | .lineBreak => none

/-- The time a statement takes; an untimed one takes none. -/
def duration (s : Statement) : Nat := (s.instruction?.bind Instruction.duration?).getD 0

/-- The columns of a statement. A label ends in a colon; what is missing leaves its column empty. -/
def row : Statement → Row
  | .step label instruction comment =>
    ⟨(label.map (· ++ ":")).getD "", instruction.mnemonic, instruction.operands, comment.getD ""⟩
  | .lineBreak => ⟨"", "", "", ""⟩

@[simp] theorem instruction?_commented (label : Option String) (i : Instruction)
    (comment : Option String) : (commented label i comment).instruction? = some i := rfl

@[simp] theorem label?_commented (label : Option String) (i : Instruction)
    (comment : Option String) : (commented label i comment).label? = label := rfl

end Statement

end Sequencer
