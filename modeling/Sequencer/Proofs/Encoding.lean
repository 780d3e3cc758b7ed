import Sequencer.Proofs.Success
import Sequencer.Timeline.Plan

/-!
# What an operation appends

A program is passed from one step of its construction to the next, after an error as well, and it
grows one statement at a time. An operation that stopped between two chunks of a long wait would
leave half of the wait behind, and everything after it would be late.

No operation does. Whatever can fail comes before the first statement is appended, so an operation
either appends all of its statements or hands on the program that it was given. What it appends
depends on the traits of the sequencer and on nothing else in the program. That function,
`Operation.statements`, is what later modules are about, and the construction need not be looked at
again after this file.

## Main definitions

* `Appends` — a step that appends the given statements, or fails and changes nothing
* `Operation.statements`, `Step.encode` — the statements of an operation, and of a step of a plan

## Main results

* `Builder.pushChunks_none`, `Builder.pushChunks_cons` — the loop over the chunks of a duration
* `Operation.appends_statements` — an operation appends its statements or nothing
* `CompiledResource.program_eq` — the program of a resource in terms of its statements
-/

namespace Sequencer

/-! ## Statements -/

namespace Operation

/-- The statements of a timed instruction, one per chunk of its duration. -/
def timed (t : Traits) (label : Option String) (duration : Nat) (comment : Option String)
    (instruction : Nat → Instruction) : Except EncodeError (List Statement) := do
  match ← t.chunks duration with
  | [] => .ok []
  | first :: rest =>
    .ok (.commented label (instruction first) comment
      :: rest.map fun chunk => .commented none (instruction chunk) comment)

/-- The statement that sets a gain. -/
def gain (t : Traits) (bank : Bank) (gainI : Float) (gainQ : Option Float)
    (comment : Option String) : Except EncodeError (List Statement) := do
  let i ← quantize "Gain" t.immediateMax (gainI / t.outputVolt)
  let q ← match gainQ with
    | some own => quantize "Gain" t.immediateMax (own / t.outputVolt)
    | none => .ok i
  .ok [.commented none (.setGain bank i q) comment]

/-- The statements that encode an operation. -/
def statements (t : Traits) : Operation → Except EncodeError (List Statement)
  | .lineBreak => .ok [.lineBreak]
  | .waitSync comment => .ok [.commented none .waitSync comment]
  | .setMarker label value => .ok [.commented label (.setMarker value) none]
  | .setGain bank gainI gainQ comment => gain t bank gainI gainQ comment
  | .setOffset bank offset => do
    let value ← quantize "Offset" t.immediateMax offset
    .ok [.commented none (.setOffset bank value value) none]
  | .setPhase degrees => do
    .ok [.commented none (.setPhase (← Phase.ofDegrees t degrees)) none]
  | .setPhaseDelta degrees => do
    .ok [.commented none (.setPhaseDelta (← Phase.ofDegrees t degrees)) none]
  | .wait label duration comment => timed t label duration comment .wait
  | .play label i q duration comment => timed t label duration comment (.play i q)
  | .acquire label i q duration comment => timed t label duration comment (.acquire i q)
  | .move label source target comment => .ok [.commented label (.move source target) comment]
  | .jump label target comment => .ok [.commented label (.jump target) comment]

end Operation

/-- The statements of a step of a plan. -/
def Step.encode (t : Traits) : Step → Except CompileError (List Statement)
  | .emit context operation => (operation.statements t).mapError (Step.blame context)
  | .fail e => .error e

/-! ## Steps that append -/

/-- A program with more statements. -/
def Program.append (p : Program) (added : List Statement) : Program :=
  { p with statements := p.statements ++ added }

theorem Program.append_append (p : Program) (added more : List Statement) :
    (p.append added).append more = p.append (added ++ more) := by
  rw [append, append, append, List.append_assoc]

/-- A step of a construction appends the statements that are given for the traits of the program.
Where an error is given instead, it fails with that error, and the program stays as it was. -/
structure Appends {ε : Type} (step : EStateM ε Program Unit)
    (encode : Traits → Except ε (List Statement)) : Prop where
  of_ok : ∀ (p : Program) (added : List Statement), encode p.traits = .ok added →
    step.run p = .ok () (p.append added)
  of_error : ∀ (p : Program) (e : ε), encode p.traits = .error e → step.run p = .error e p

namespace Appends

variable {ε : Type} {step : EStateM ε Program Unit} {encode : Traits → Except ε (List Statement)}
  {p q : Program}

/-- A step that succeeds has had statements to append. -/
theorem eq_ok (h : Appends step encode) (hstep : step.run p = .ok () q) :
    ∃ added, encode p.traits = .ok added ∧ q = p.append added := by
  cases hencode : encode p.traits with
  | error e =>
    rw [h.of_error p e hencode] at hstep
    cases hstep
  | ok added =>
    rw [h.of_ok p added hencode] at hstep
    injection hstep with _ hq
    exact ⟨added, rfl, hq.symm⟩

/-- **A step that fails leaves the program as it was.** -/
theorem eq_error (h : Appends step encode) {e : ε} (hstep : step.run p = .error e q) :
    encode p.traits = .error e ∧ q = p := by
  cases hencode : encode p.traits with
  | error cause =>
    rw [h.of_error p cause hencode] at hstep
    injection hstep with hcause hq
    exact ⟨by rw [hcause], hq.symm⟩
  | ok added =>
    rw [h.of_ok p added hencode] at hstep
    cases hstep

/-- A step that always appends the same statements. -/
theorem always {added : List Statement} (h : ∀ p, step.run p = .ok () (p.append added)) :
    Appends step fun _ => .ok added :=
  ⟨fun p _ hadded => by rw [h p, Except.ok.inj hadded], fun _ _ herror => by cases herror⟩

/-- What is looked at before anything is appended can only end the step. -/
theorem lift {α : Type} {f : Traits → Except ε α} {rest : α → EStateM ε Program Unit}
    {encode : Traits → α → Except ε (List Statement)}
    (h : ∀ a, Appends (rest a) fun t => encode t a) :
    Appends (do rest (← MonadExcept.ofExcept (f (← get).traits)))
      fun t => f t >>= encode t := by
  have hrun : ∀ p : Program, EStateM.run (do rest (← MonadExcept.ofExcept (f (← get).traits))) p
      = (MonadExcept.ofExcept (f p.traits) >>= rest).run p := fun _ => rfl
  constructor
  · intro p added hencode
    obtain ⟨a, hf, hencode⟩ := bind_eq_ok.mp hencode
    rw [hrun, hf]
    exact (h a).of_ok p added hencode
  · intro p e hencode
    rw [hrun]
    cases hf : f p.traits with
    | error cause =>
      rw [hf] at hencode
      obtain rfl := Except.error.inj hencode
      rfl
    | ok a =>
      rw [hf] at hencode
      exact (h a).of_error p e hencode

/-- Errors may be reworded. -/
theorem adaptExcept {ε' : Type} (h : Appends step encode) (f : ε → ε') :
    Appends (EStateM.adaptExcept f step) fun t => (encode t).mapError f := by
  constructor
  · intro p added hencode
    have hstep : step p = .ok () (p.append added) := h.of_ok p added (mapError_eq_ok.mp hencode)
    rw [EStateM.run, EStateM.adaptExcept, hstep]
  · intro p e hencode
    cases hcause : encode p.traits with
    | error cause =>
      have hstep : step p = .error cause p := h.of_error p cause hcause
      rw [hcause] at hencode
      rw [EStateM.run, EStateM.adaptExcept, hstep, ← Except.error.inj hencode]
    | ok added =>
      rw [hcause] at hencode
      cases hencode

end Appends

/-! ## Operations -/

namespace Builder

theorem appends_push (s : Statement) : Appends (push s) fun _ => .ok [s] := .always fun _ => rfl

/-- Without a label, the loop over chunks appends one instruction for each of them. -/
theorem pushChunks_none (instruction : Nat → Instruction) (comment : Option String) (cs : List Nat)
    (p : Program) :
    (pushChunks instruction comment none cs).run p
      = .ok () (p.append (cs.map fun chunk => .commented none (instruction chunk) comment)) := by
  induction cs generalizing p with
  | nil =>
    rw [List.map_nil, Program.append, List.append_nil]
    rfl
  | cons chunk rest ih =>
    show (pushChunks instruction comment none rest).run
        (p.append [.commented none (instruction chunk) comment]) = _
    rw [ih, Program.append_append, List.map_cons]
    rfl

/-- A label is used up by the first chunk. -/
theorem pushChunks_cons (instruction : Nat → Instruction) (comment label : Option String)
    (first : Nat) (rest : List Nat) (p : Program) :
    (pushChunks instruction comment label (first :: rest)).run p
      = .ok () (p.append (.commented label (instruction first) comment
          :: rest.map fun chunk => .commented none (instruction chunk) comment)) := by
  show (pushChunks instruction comment none rest).run
      (p.append [.commented label (instruction first) comment]) = _
  rw [pushChunks_none, Program.append_append]
  rfl

/-- A duration is cut and checked before its first chunk is appended. -/
theorem appends_timed (label : Option String) (duration : Nat) (comment : Option String)
    (instruction : Nat → Instruction) :
    Appends (timed label duration comment instruction)
      fun t => Operation.timed t label duration comment instruction := by
  refine Appends.lift (f := fun t => t.chunks duration) fun cs => ?_
  cases cs with
  | nil =>
    refine .always fun p => ?_
    rw [Program.append, List.append_nil]
    rfl
  | cons first rest => exact .always (pushChunks_cons instruction comment label first rest)

/-- Both gains are looked at before the instruction is appended. -/
theorem appends_setGain (bank : Bank) (gainI : Float) (gainQ : Option Float)
    (comment : Option String) :
    Appends (setGain bank gainI gainQ comment)
      fun t => Operation.gain t bank gainI gainQ comment := by
  let look (volts : Float) (t : Traits) : Except EncodeError Int :=
    quantize "Gain" t.immediateMax (volts / t.outputVolt)
  have hpush : ∀ i q : Int, Appends (push (.commented none (.setGain bank i q) comment))
      fun _ => .ok [.commented none (.setGain bank i q) comment] := fun i q => appends_push _
  cases gainQ with
  | none => exact Appends.lift (f := look gainI) fun i => hpush i i
  | some own =>
    exact Appends.lift (f := look gainI) fun i => Appends.lift (f := look own) (hpush i)

end Builder

/-- **An operation appends its statements or nothing.** -/
theorem Operation.appends_statements (op : Operation) :
    Appends op.perform fun t => op.statements t := by
  cases op with
  | setGain bank gainI gainQ comment => exact Builder.appends_setGain bank gainI gainQ comment
  | setOffset bank offset =>
    exact Appends.lift (f := fun t => quantize "Offset" t.immediateMax offset) fun _ =>
      Builder.appends_push _
  | setPhase degrees | setPhaseDelta degrees =>
    exact Appends.lift (f := fun t => Phase.ofDegrees t degrees) fun _ =>
      Builder.appends_push _
  | wait label duration comment => exact Builder.appends_timed label duration comment .wait
  | play label i q duration comment =>
    exact Builder.appends_timed label duration comment (.play i q)
  | acquire label i q duration comment =>
    exact Builder.appends_timed label duration comment (.acquire i q)
  | _ => exact Builder.appends_push _

/-! ## Plans -/

theorem Step.appends_encode (step : Step) : Appends step.perform fun t => step.encode t := by
  cases step with
  | emit context op => exact op.appends_statements.adaptExcept (Step.blame context)
  | fail e =>
    constructor
    · intro p added h
      cases h
    · intro p e' h
      rw [← Except.error.inj h]
      rfl

section Plan

variable {steps : List Step} {p : Program}

/-- A plan that can be encoded is carried out as a whole. -/
theorem Step.forM_perform_of_ok {parts : List (List Statement)}
    (h : steps.mapM (Step.encode p.traits) = .ok parts) :
    (steps.forM Step.perform).run p = .ok () (p.append parts.flatten) := by
  induction steps generalizing p parts with
  | nil =>
    obtain rfl : [] = parts := pure_eq_ok.mp h
    rw [List.flatten_nil, Program.append, List.append_nil]
    rfl
  | cons step steps ih =>
    rw [List.mapM_cons] at h
    obtain ⟨added, hadded, h⟩ := bind_eq_ok.mp h
    obtain ⟨rest, hrest, h⟩ := bind_eq_ok.mp h
    obtain rfl := pure_eq_ok.mp h
    show (step.perform >>= fun _ => steps.forM Step.perform).run p = _
    rw [run_bind_of_ok (step.appends_encode.of_ok p added hadded), ih (p := p.append added) hrest,
      Program.append_append, List.flatten_cons]

/-- A plan that cannot be encoded ends with the first error that encoding it meets. -/
theorem Step.forM_perform_of_error {e : CompileError}
    (h : steps.mapM (Step.encode p.traits) = .error e) :
    ∃ q, (steps.forM Step.perform).run p = .error e q := by
  induction steps generalizing p with
  | nil => cases h
  | cons step steps ih =>
    rw [List.mapM_cons] at h
    show ∃ q, (step.perform >>= fun _ => steps.forM Step.perform).run p = .error e q
    cases hadded : step.encode p.traits with
    | error cause =>
      rw [hadded] at h
      obtain rfl := Except.error.inj h
      exact ⟨p, run_bind_of_error (step.appends_encode.of_error p cause hadded)⟩
    | ok added =>
      rw [hadded] at h
      rw [run_bind_of_ok (step.appends_encode.of_ok p added hadded)]
      refine ih ?_
      show steps.mapM (Step.encode p.traits) = .error e
      cases hrest : steps.mapM (Step.encode p.traits) with
      | error cause =>
        rw [hrest] at h
        rw [← Except.error.inj h]
      | ok rest =>
        rw [hrest] at h
        cases h

end Plan

/-- **The program of a resource in terms of its statements**: those of its plan, if they can be told
and their labels are in order. -/
theorem CompiledResource.program_eq (r : CompiledResource) (duration : Int) (settings : Settings) :
    r.program duration settings = do
      let statements ← (r.plan duration settings).mapM (Step.encode r.traits)
      let p : Program := ⟨r.traits, statements.flatten⟩
      p.validate.mapError .encoding
      return p := by
  rw [program]
  cases h : (r.plan duration settings).mapM (Step.encode r.traits) with
  | error e =>
    obtain ⟨q, hq⟩ := Step.forM_perform_of_error (p := Program.empty r.traits) h
    rw [hq]
    rfl
  | ok parts =>
    rw [Step.forM_perform_of_ok (p := Program.empty r.traits) h]
    rfl

end Sequencer
