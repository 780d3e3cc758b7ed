import Mathlib.Algebra.GroupWithZero.Nat
import Sequencer.Proofs.Encoding

/-!
# Programs in time

A program is a list of statements, but what matters of it is when which waveform sounds. The start
of an instruction is not written anywhere: it is the sum of the durations of all timed instructions
before it. `timeline` computes these sums and keeps, of each instruction that plays or acquires, its
start, its bank and slots, and its duration.

The timeline of a concatenation is the concatenation of the timelines, the second one moved by the
time that the first takes. So the timeline of a program follows from those of its operations, and
the encoder need not be looked at again after this file.

## Main definitions

* `Sounding`, `timeline`, `elapsed` — what statements sound, and how long they take
* `Operation.soundings` — what an operation asks to sound

## Main results

* `timeline_append`, `elapsed_append`
* `Operation.timeline_statements`, `Operation.elapsed_statements` — an operation that can be encoded
  sounds what it asks for and takes the time it asks for, however many chunks it is spread over
-/

namespace Sequencer

/-! ## Soundings -/

/-- A waveform that sounds. The bank tells the instruction: a waveform of the first bank is played,
and one of the second is acquired with. -/
structure Sounding where
  /-- The time that has passed since the program started. -/
  start : Nat
  bank : Bank
  slotI : Nat
  slotQ : Nat
  duration : Nat
deriving DecidableEq

/-- What an instruction sounds when it is reached at the time `start`. -/
def Instruction.sounding? (start : Nat) : Instruction → Option Sounding
  | .play slotI slotQ duration => some ⟨start, .awg, slotI, slotQ, duration⟩
  | .acquire slotI slotQ duration => some ⟨start, .acq, slotI, slotQ, duration⟩
  | _ => none

/-- What statements sound, in order, when the first of them is reached at the time `start`. -/
def timeline (start : Nat) : List Statement → List Sounding
  | [] => []
  | s :: rest =>
    (s.instruction?.bind (Instruction.sounding? start)).toList ++ timeline (start + s.duration) rest

/-- What a program sounds in one pass. -/
def Program.timeline (p : Program) : List Sounding := Sequencer.timeline 0 p.statements

/-- The time that statements take. -/
def elapsed (statements : List Statement) : Nat := (statements.map Statement.duration).sum

@[simp] theorem elapsed_nil : elapsed [] = 0 := rfl

@[simp] theorem elapsed_cons (s : Statement) (rest : List Statement) :
    elapsed (s :: rest) = s.duration + elapsed rest := by
  simp [elapsed]

@[simp] theorem elapsed_append (a b : List Statement) :
    elapsed (a ++ b) = elapsed a + elapsed b := by
  simp [elapsed]

theorem Program.duration_eq_elapsed (p : Program) : p.duration = elapsed p.statements := by
  rw [Program.duration, elapsed, List.sum_eq_foldl]

@[simp] theorem timeline_nil (start : Nat) : timeline start [] = [] := rfl

theorem timeline_append (start : Nat) (a b : List Statement) :
    timeline start (a ++ b) = timeline start a ++ timeline (start + elapsed a) b := by
  induction a generalizing start with
  | nil => simp
  | cons s rest ih =>
    rw [List.cons_append, timeline, ih, timeline, List.append_assoc, elapsed_cons, Nat.add_assoc]

/-! ## Statements that make no sound

Most of a program is waits and register settings. `Idle d` says all there is to say about such a
stretch: it takes the time `d` and nothing sounds. -/

/-- Statements during which nothing sounds, for a time. -/
structure Idle (duration : Nat) (statements : List Statement) : Prop where
  elapsed : elapsed statements = duration
  timeline : ∀ start, timeline start statements = []

theorem Idle.nil : Idle 0 [] := ⟨rfl, fun _ => rfl⟩

theorem Idle.append {d d' : Nat} {a b : List Statement} (ha : Idle d a) (hb : Idle d' b) :
    Idle (d + d') (a ++ b) := by
  refine ⟨?_, fun start => ?_⟩
  · rw [elapsed_append, ha.elapsed, hb.elapsed]
  · rw [timeline_append, ha.timeline, hb.timeline, List.append_nil]

theorem Idle.lineBreak : Idle 0 [.lineBreak] := ⟨rfl, fun _ => rfl⟩

/-- Only timed instructions sound. -/
theorem Instruction.sounding?_of_untimed {i : Instruction} (h : i.duration? = none) (start : Nat) :
    i.sounding? start = none := by
  cases i with
  | play | acquire => simp [Instruction.duration?] at h
  | _ => rfl

theorem Idle.untimed {label : Option String} {i : Instruction} {comment : Option String}
    (h : i.duration? = none) : Idle 0 [.commented label i comment] := by
  refine ⟨?_, fun start => ?_⟩
  · simp [Statement.duration, h]
  · simp [Sequencer.timeline, Instruction.sounding?_of_untimed h]

/-! ## Timed operations

Long durations are spread over chunks, each an instruction of its own. Together they take the whole
duration, and each starts where the one before it ends. -/

/-- The chunks of a duration add up to it. -/
theorem sum_chunks (limit duration : Nat) : (chunks limit duration).sum = duration := by
  have h : (duration - 1) / limit * limit ≤ duration - 1 := Nat.div_mul_le_self _ _
  rw [chunks, List.sum_append, List.sum_replicate_nat, List.sum_singleton, lastChunk]
  omega

/-- Chunks that sound one after the other from the same slots. -/
def Sounding.series (bank : Bank) (slotI slotQ : Nat) : Nat → List Nat → List Sounding
  | _, [] => []
  | start, chunk :: rest =>
    ⟨start, bank, slotI, slotQ, chunk⟩ :: Sounding.series bank slotI slotQ (start + chunk) rest

/-- What an operation asks to sound at the time `start`. -/
def Operation.soundings (limit start : Nat) : Operation → List Sounding
  | .play _ slotI slotQ duration _ => Sounding.series .awg slotI slotQ start (chunks limit duration)
  | .acquire _ slotI slotQ duration _ =>
    Sounding.series .acq slotI slotQ start (chunks limit duration)
  | _ => []

/-- A duration can be encoded exactly when its last chunk is long enough. -/
theorem Traits.chunks_eq_ok {t : Traits} {duration : Nat} {cs : List Nat} :
    t.chunks duration = .ok cs ↔
      t.minDuration ≤ lastChunk t.immediateMax duration ∧
        cs = Sequencer.chunks t.immediateMax duration := by
  by_cases h : lastChunk t.immediateMax duration < t.minDuration
  · simp [Traits.chunks, h, Nat.not_le.mpr h]
  · simp [Traits.chunks, h, Nat.not_lt.mp h, eq_comm]

/-- A timed operation becomes one statement per chunk, the first of them with the label. -/
theorem Operation.timed_eq_ok {t : Traits} {label : Option String} {duration : Nat}
    {comment : Option String} {make : Nat → Instruction} {added : List Statement}
    (h : Operation.timed t label duration comment make = .ok added) :
    ∃ first rest, chunks t.immediateMax duration = first :: rest ∧
      added = .commented label (make first) comment :: rest.map fun c =>
        .commented none (make c) comment := by
  rw [Operation.timed] at h
  obtain ⟨cs, hcs, h⟩ := bind_eq_ok.mp h
  obtain ⟨-, rfl⟩ := Traits.chunks_eq_ok.mp hcs
  cases hc : chunks t.immediateMax duration with
  | nil => exact absurd hc (chunks_ne_nil _ _)
  | cons first rest =>
    rw [hc] at h
    exact ⟨first, rest, rfl, (Except.ok.inj h).symm⟩

/-- The instructions of a timed operation, one per chunk. Labels and comments do not matter in
time. -/
theorem Operation.instructions_timed {t : Traits} {label : Option String} {duration : Nat}
    {comment : Option String} {make : Nat → Instruction} {added : List Statement}
    (h : Operation.timed t label duration comment make = .ok added) :
    added.map Statement.instruction? = (chunks t.immediateMax duration).map fun c =>
      some (make c) := by
  obtain ⟨first, rest, hchunks, rfl⟩ := Operation.timed_eq_ok h
  simp [hchunks, Function.comp_def]

/-- Statements that carry one timed instruction per chunk take the time of all chunks. -/
theorem elapsed_of_instructions {make : Nat → Instruction}
    (hmake : ∀ c, (make c).duration? = some c) {added : List Statement} {cs : List Nat}
    (h : added.map Statement.instruction? = cs.map fun c => some (make c)) :
    elapsed added = cs.sum := by
  induction added generalizing cs with
  | nil =>
    obtain rfl : cs = [] := by simpa using h.symm
    rfl
  | cons s rest ih =>
    cases cs with
    | nil => simp at h
    | cons c cs =>
      simp only [List.map_cons, List.cons.injEq] at h
      have hs : s.duration = c := by simp [Statement.duration, h.1, hmake]
      rw [elapsed_cons, ih h.2, hs, List.sum_cons]

theorem timeline_of_silent {make : Nat → Instruction}
    (hsilent : ∀ start c, (make c).sounding? start = none) {added : List Statement} {cs : List Nat}
    (h : added.map Statement.instruction? = cs.map fun c => some (make c)) (start : Nat) :
    timeline start added = [] := by
  induction added generalizing cs start with
  | nil => rfl
  | cons s rest ih =>
    cases cs with
    | nil => simp at h
    | cons c cs =>
      simp only [List.map_cons, List.cons.injEq] at h
      rw [timeline, ih h.2, h.1]
      simp [hsilent]

theorem timeline_of_sounding {bank : Bank} {slotI slotQ : Nat} {make : Nat → Instruction}
    (hmake : ∀ c, (make c).duration? = some c)
    (hsound : ∀ start c, (make c).sounding? start = some ⟨start, bank, slotI, slotQ, c⟩)
    {added : List Statement} {cs : List Nat}
    (h : added.map Statement.instruction? = cs.map fun c => some (make c)) (start : Nat) :
    timeline start added = Sounding.series bank slotI slotQ start cs := by
  induction added generalizing cs start with
  | nil =>
    obtain rfl : cs = [] := by simpa using h.symm
    rfl
  | cons s rest ih =>
    cases cs with
    | nil => simp at h
    | cons c cs =>
      simp only [List.map_cons, List.cons.injEq] at h
      have hs : s.duration = c := by simp [Statement.duration, h.1, hmake]
      rw [timeline, ih h.2, h.1, hs]
      simp [hsound, Sounding.series]

/-! ## Operations -/

/-- An operation without a duration is encoded as one statement, with the label and the target it
asks for. -/
theorem Operation.statements_of_untimed {t : Traits} {op : Operation} {added : List Statement}
    (h : op.statements t = .ok added) (hd : op.duration? = none) :
    (added = [.lineBreak] ∧ op.label? = none ∧ op.target? = none) ∨
      ∃ i comment, added = [.commented op.label? i comment] ∧ i.duration? = none ∧
        i.target? = op.target? := by
  cases op with
  | lineBreak =>
    obtain rfl := Except.ok.inj h
    exact Or.inl ⟨rfl, rfl, rfl⟩
  | waitSync comment =>
    obtain rfl := Except.ok.inj h
    exact Or.inr ⟨_, _, rfl, rfl, rfl⟩
  | setMarker label value =>
    obtain rfl := Except.ok.inj h
    exact Or.inr ⟨_, _, rfl, rfl, rfl⟩
  | setGain bank gainI gainQ comment =>
    obtain ⟨i, -, h⟩ := bind_eq_ok.mp h
    cases gainQ with
    | none =>
      obtain rfl := Except.ok.inj h
      exact Or.inr ⟨_, _, rfl, rfl, rfl⟩
    | some own =>
      obtain ⟨q, -, h⟩ := bind_eq_ok.mp h
      obtain rfl := Except.ok.inj h
      exact Or.inr ⟨_, _, rfl, rfl, rfl⟩
  | setOffset bank offset =>
    obtain ⟨value, -, h⟩ := bind_eq_ok.mp h
    obtain rfl := Except.ok.inj h
    exact Or.inr ⟨_, _, rfl, rfl, rfl⟩
  | setPhase degrees =>
    obtain ⟨phase, -, h⟩ := bind_eq_ok.mp h
    obtain rfl := Except.ok.inj h
    exact Or.inr ⟨_, _, rfl, rfl, rfl⟩
  | setPhaseDelta degrees =>
    obtain ⟨phase, -, h⟩ := bind_eq_ok.mp h
    obtain rfl := Except.ok.inj h
    exact Or.inr ⟨_, _, rfl, rfl, rfl⟩
  | wait label duration comment => simp [Operation.duration?] at hd
  | play label slotI slotQ duration comment => simp [Operation.duration?] at hd
  | acquire label slotI slotQ duration comment => simp [Operation.duration?] at hd
  | move label source target comment =>
    obtain rfl := Except.ok.inj h
    exact Or.inr ⟨_, _, rfl, rfl, rfl⟩
  | jump label target comment =>
    obtain rfl := Except.ok.inj h
    exact Or.inr ⟨_, _, rfl, rfl, rfl⟩

/-- The statement of an operation without a duration takes no time and does not sound. -/
theorem Operation.idle_of_untimed {t : Traits} {op : Operation} {added : List Statement}
    (h : op.statements t = .ok added) (hd : op.duration? = none) : Idle 0 added := by
  obtain ⟨rfl, -⟩ | ⟨i, comment, rfl, hi, -⟩ := Operation.statements_of_untimed h hd
  · exact Idle.lineBreak
  · exact Idle.untimed hi

/-- **An operation takes the time it asks for.** -/
theorem Operation.elapsed_statements {t : Traits} {op : Operation} {added : List Statement}
    (h : op.statements t = .ok added) : elapsed added = op.duration?.getD 0 := by
  cases hd : op.duration? with
  | none => exact (Operation.idle_of_untimed h hd).elapsed
  | some duration =>
    cases op with
    | wait | play | acquire =>
      obtain rfl := Option.some.inj hd
      rw [elapsed_of_instructions (fun _ => rfl) (Operation.instructions_timed h), sum_chunks]
      rfl
    | _ => simp [Operation.duration?] at hd

/-- **An operation sounds what it asks for.** -/
theorem Operation.timeline_statements {t : Traits} {op : Operation} {added : List Statement}
    (h : op.statements t = .ok added) (start : Nat) :
    timeline start added = op.soundings t.immediateMax start := by
  cases op with
  | wait label duration comment =>
    exact timeline_of_silent (fun _ _ => rfl) (Operation.instructions_timed h) start
  | play label slotI slotQ duration comment =>
    exact timeline_of_sounding (fun _ => rfl) (fun _ _ => rfl)
      (Operation.instructions_timed h) start
  | acquire label slotI slotQ duration comment =>
    exact timeline_of_sounding (fun _ => rfl) (fun _ _ => rfl)
      (Operation.instructions_timed h) start
  | _ => exact (Operation.idle_of_untimed h rfl).timeline start

end Sequencer
