import Sequencer.Number.Format

/-!
# Why an operation cannot be encoded

## Main definitions

* `EncodeError` — the causes
* `EncodeError.message` — their wording
* `messageNumber` — how messages write doubles
-/

namespace Sequencer

/-- Messages write doubles positionally whatever their size, with the fewest digits that read
back. -/
def messageNumber : NumberFormat where
  tie := .up
  positional := fun _ => true
  keepPoint := false
  plusSign := false

/-- Why an operation cannot be encoded, or why a program is not complete. -/
inductive EncodeError where
  /-- A normalized parameter is NaN or exceeds one in magnitude. -/
  | outOfRange (parameter : String) (value : Float)
  /-- The last chunk of a timed instruction is too short. -/
  | tooShort (duration minimum : Nat)
  /-- The traits give a turn more ticks than a register holds, or a phase stage none. -/
  | unresolvedPhase
  /-- Two statements carry the same label. -/
  | duplicateLabel (label : String)
  /-- A jump goes to a label that no statement carries. -/
  | undefinedTarget (target : String)
  /-- A reason in words, given by a user of the encoder. -/
  | other (text : String)

/-- The wording of an encoding error. -/
def EncodeError.message : EncodeError → String
  | .outOfRange parameter value =>
    parameter ++ " value " ++ messageNumber.write value
      ++ " is outside of the normalized range -1.0:1.0"
  | .tooShort duration minimum =>
    "Duration " ++ toString duration ++ " is below the minimum instruction duration of "
      ++ toString minimum ++ " cycles"
  | .unresolvedPhase => "The phase stages cannot be resolved"
  | .duplicateLabel label => "Label '" ++ label ++ "' is defined more than once"
  | .undefinedTarget target => "Jump target '@" ++ target ++ "' is not a defined label"
  | .other text => text

end Sequencer
