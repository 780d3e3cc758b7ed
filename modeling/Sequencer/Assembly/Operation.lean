import Sequencer.Assembly.Instruction

/-!
# Operations

An operation is a request to the encoder: set a gain given in volts, wait for some time, play two
slots. What it asks for can be told without encoding it.

## Main definitions

* `Operation` — the requests
* `Operation.label?`, `Operation.duration?`, `Operation.target?` — what an operation asks for,
  whatever it is encoded to
-/

namespace Sequencer

/-- A request to the encoder. -/
inductive Operation where
  /-- Leave a line empty. -/
  | lineBreak
  /-- Wait until all sequencers are ready. -/
  | waitSync (comment : Option String)
  /-- Set the marker outputs. -/
  | setMarker (label : Option String) (value : Nat)
  /-- Set the gain of a bank in volts; the Q path takes the gain of the I path unless it has its
  own. -/
  | setGain (bank : Bank) (gain : Float) (gainQ : Option Float) (comment : Option String)
  /-- Set the normalized offset of both paths of a bank. -/
  | setOffset (bank : Bank) (offset : Float)
  /-- Set the phase in degrees. -/
  | setPhase (degrees : Float)
  /-- Advance the phase by an angle in degrees. -/
  | setPhaseDelta (degrees : Float)
  /-- Do nothing for a time. -/
  | wait (label : Option String) (duration : Nat) (comment : Option String)
  /-- Play the waveforms of two slots. -/
  | play (label : Option String) (slotI slotQ duration : Nat) (comment : Option String)
  /-- Acquire with the waveforms of two slots. -/
  | acquire (label : Option String) (slotI slotQ duration : Nat) (comment : Option String)
  /-- Move a number into a register. -/
  | move (label : Option String) (source : Int) (target : String) (comment : Option String)
  /-- Continue at a label. -/
  | jump (label : Option String) (target : String) (comment : Option String)

namespace Operation

/-- The time an operation asks for, if it is a timed one. -/
def duration? : Operation → Option Nat
  | .wait _ duration _ | .play _ _ _ duration _ | .acquire _ _ _ duration _ => some duration
  | _ => none

/-- The label an operation asks for. -/
def label? : Operation → Option String
  | .setMarker label _ | .wait label _ _ | .play label _ _ _ _ | .acquire label _ _ _ _
  | .move label _ _ _ | .jump label _ _ => label
  | _ => none

/-- The label an operation jumps to. -/
def target? : Operation → Option String
  | .jump _ target _ => some target
  | _ => none

end Operation

end Sequencer
