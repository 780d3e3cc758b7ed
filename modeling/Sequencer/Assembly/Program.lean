import Sequencer.Assembly.Chunk
import Sequencer.Assembly.Operation

/-!
# Programs

A program grows by operations, statement by statement. Whatever an operation comes to, it leaves a
program behind, and a run of operations goes on with that one. An operation looks at all of its
operands before it appends anything: a duration is cut into chunks and the last of them is checked,
and only then is one instruction per chunk appended.

## Main definitions

* `Program` — a program under construction
* `Builder`, `Builder.push`, `Builder.timed` — steps of the construction
* `Operation.perform`, `Program.run` — an operation, and operations one after the other
* `Program.instructionCount`, `Program.duration` — what a program amounts to
* `Program.validate` — every label is defined once, and every jump goes to a label
-/

namespace Sequencer

/-- A program under construction, for a sequencer with the given traits. -/
structure Program where
  traits : Traits
  statements : List Statement

/-- A step in the construction of a program. The program is passed on after an error as well. -/
abbrev Builder := EStateM EncodeError Program

namespace Builder

/-- Append a statement. -/
def push (s : Statement) : Builder Unit :=
  modify fun p => { p with statements := p.statements ++ [s] }

/-- Append an instruction for each chunk. The label goes on the first of them, the comment on
each. -/
def pushChunks (instruction : Nat → Instruction) (comment : Option String) :
    Option String → List Nat → Builder Unit
  | _, [] => return
  | label, chunk :: rest => do
    push (.commented label (instruction chunk) comment)
    pushChunks instruction comment none rest

/-- Append a timed instruction: its duration is cut and checked, then the chunks are appended. -/
def timed (label : Option String) (duration : Nat) (comment : Option String)
    (instruction : Nat → Instruction) : Builder Unit := do
  let t := (← get).traits
  let chunks ← MonadExcept.ofExcept (t.chunks duration)
  pushChunks instruction comment label chunks

/-- The immediate of a gain in volts, which is divided by the output voltage. -/
def gain (volts : Float) : Builder Int := do
  let t := (← get).traits
  MonadExcept.ofExcept (quantize "Gain" t.immediateMax (volts / t.outputVolt))

/-- Append an instruction that sets gains. The Q path takes the value of the I path unless it has
its own, which is looked at second. -/
def setGain (bank : Bank) (gainI : Float) (gainQ : Option Float) (comment : Option String) :
    Builder Unit := do
  let i ← gain gainI
  let q ← match gainQ with
    | some own => gain own
    | none => pure i
  push (.commented none (.setGain bank i q) comment)

/-- Append an instruction that sets the offset of both paths. -/
def setOffset (bank : Bank) (offset : Float) : Builder Unit := do
  let value ← MonadExcept.ofExcept (quantize "Offset" (← get).traits.immediateMax offset)
  push (.commented none (.setOffset bank value value) none)

/-- Append an instruction with a phase. -/
def setPhase (degrees : Float) (instruction : Phase → Instruction) : Builder Unit := do
  let phase ← MonadExcept.ofExcept (Phase.ofDegrees (← get).traits degrees)
  push (.commented none (instruction phase) none)

end Builder

open Builder in
/-- Perform an operation. -/
def Operation.perform : Operation → Builder Unit
  | .lineBreak => push .lineBreak
  | .waitSync comment => push (.commented none .waitSync comment)
  | .setMarker label value => push (.commented label (.setMarker value) none)
  | .setGain bank gain gainQ comment => Builder.setGain bank gain gainQ comment
  | .setOffset bank offset => Builder.setOffset bank offset
  | .setPhase degrees => Builder.setPhase degrees .setPhase
  | .setPhaseDelta degrees => Builder.setPhase degrees .setPhaseDelta
  | .wait label duration comment => timed label duration comment .wait
  | .play label i q duration comment => timed label duration comment (.play i q)
  | .acquire label i q duration comment => timed label duration comment (.acquire i q)
  | .move label source target comment => push (.commented label (.move source target) comment)
  | .jump label target comment => push (.commented label (.jump target) comment)

namespace Program

/-- The empty program. -/
def empty (t : Traits) : Program := ⟨t, []⟩

/-- The program that an operation leaves behind, with or without an error. -/
def after (p : Program) (op : Operation) : Program :=
  match op.perform.run p with
  | .ok _ q => q
  | .error _ q => q

/-- Perform operations one after the other, whether or not those before have succeeded. -/
def run (p : Program) (ops : List Operation) : Program := ops.foldl after p

/-- The number of instructions; empty lines do not count. -/
def instructionCount (p : Program) : Nat := (p.statements.filterMap Statement.instruction?).length

/-- The time that one pass through the program takes. -/
def duration (p : Program) : Nat := (p.statements.map Statement.duration).foldl (· + ·) 0

/-- The labels that the program defines, in order. -/
def labels (p : Program) : List String := p.statements.filterMap Statement.label?

/-- The labels that the program jumps to, in order. -/
def targets (p : Program) : List String :=
  (p.statements.filterMap Statement.instruction?).filterMap Instruction.target?

/-- The first element of a list that also stands before it. -/
def firstRepeated : List String → List String → Option String
  | _, [] => none
  | seen, label :: rest => if label ∈ seen then some label else firstRepeated (label :: seen) rest

/-- Check that every label is defined once and, after that, that every jump goes to a label. -/
def validate (p : Program) : Except EncodeError Unit :=
  match firstRepeated [] p.labels with
  | some label => .error (.duplicateLabel label)
  | none =>
    match p.targets.find? (· ∉ p.labels) with
    | some target => .error (.undefinedTarget target)
    | none => .ok ()

end Program

end Sequencer
