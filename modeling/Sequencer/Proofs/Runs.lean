import Sequencer.Proofs.Timing

/-!
# Runs of the encoder

A program grows by operations, and any of them may be refused. Whoever builds a program can go on
after that, with the program that the refused operation has left. It must not contain half of that
operation. `Operation.appends_statements` says that it does not: chunks are found before the first
of them is appended, and the only one that can be too short is the last.

Whether an operation is refused is decided by arithmetic at one point. A duration just above a
multiple of the limit leaves a last chunk of a few samples and is refused, although shorter and
longer ones are not.

What holds after every run follows from what one successful operation does. `run_induction` says so
once; it also keeps the list of the operations that have succeeded, so that a run can be compared
with what was asked for.

## Main definitions

* `Program.performed` — the operations of a run that have succeeded
* `Statement.Fits` — a duration that one instruction can carry

## Main results

* `Program.run_induction` — what a successful operation preserves, a run preserves
* `Operation.exists_statements_iff` — when a timed operation succeeds
* `Operation.fits_statements` — the chunks of an operation fit in instructions
* `Program.run_in_bounds` — the state of the encoder after any run
-/

namespace Sequencer

/-! ## Operations -/

/-- A statement whose duration, if it is timed, is one that an instruction can have. -/
def Statement.Fits (t : Traits) (s : Statement) : Prop :=
  ∀ duration, s.instruction?.bind Instruction.duration? = some duration →
    t.minDuration ≤ duration ∧ duration ≤ t.immediateMax

namespace Operation

variable {t : Traits} {op : Operation} {added : List Statement} {duration : Nat}

/-- A timed operation succeeds exactly if its last chunk is long enough. -/
theorem exists_timed_iff {label comment : Option String} {make : Nat → Instruction} :
    (∃ added, timed t label duration comment make = .ok added) ↔
      t.minDuration ≤ lastChunk t.immediateMax duration := by
  constructor
  · rintro ⟨added, h⟩
    obtain ⟨cs, hcs, -⟩ := bind_eq_ok.mp h
    exact (Traits.chunks_eq_ok.mp hcs).1
  · intro hlast
    rw [timed, Traits.chunks_eq_ok.mpr ⟨hlast, rfl⟩]
    cases chunks t.immediateMax duration with
    | nil => exact ⟨_, rfl⟩
    | cons first rest => exact ⟨_, rfl⟩

/-- **When a timed operation succeeds.** -/
theorem exists_statements_iff (hd : op.duration? = some duration) :
    (∃ added, op.statements t = .ok added) ↔ t.minDuration ≤ lastChunk t.immediateMax duration := by
  cases op with
  | wait | play | acquire =>
    obtain rfl := Option.some.inj hd
    exact exists_timed_iff
  | _ => cases hd

/-- **The chunks of an operation fit in instructions.** All but the last are as long as the limit,
and the last one has been looked at. -/
theorem fits_statements (hpos : 0 < t.immediateMax) (hlimit : t.minDuration ≤ t.immediateMax)
    (h : op.statements t = .ok added) : ∀ s ∈ added, s.Fits t := by
  have htimed : ∀ {label comment : Option String} {d : Nat} {make : Nat → Instruction},
      (∀ c, (make c).duration? = some c) → timed t label d comment make = .ok added →
          ∀ s ∈ added, s.Fits t := by
    intro label comment d make hmake h s hs duration hduration
    have hlast : t.minDuration ≤ lastChunk t.immediateMax d := exists_timed_iff.mp ⟨added, h⟩
    have hmem : s.instruction? ∈ added.map Statement.instruction? := List.mem_map_of_mem hs
    rw [instructions_timed h] at hmem
    obtain ⟨c, hc, hinstruction⟩ := List.mem_map.mp hmem
    rw [← hinstruction, Option.bind_some, hmake, Option.some.injEq] at hduration
    subst hduration
    rcases mem_chunks hc with rfl | rfl
    · exact ⟨hlimit, Nat.le_refl _⟩
    · exact ⟨hlast, lastChunk_le hpos d⟩
  cases hd : op.duration? with
  | none =>
    intro s hs duration hduration
    obtain ⟨rfl, -⟩ | ⟨i, comment, rfl, hi, -⟩ := statements_of_untimed h hd
    · obtain rfl := List.mem_singleton.mp hs
      cases hduration
    · obtain rfl := List.mem_singleton.mp hs
      rw [Statement.instruction?_commented, Option.bind_some, hi] at hduration
      cases hduration
  | some duration =>
    cases op with
    | wait | play | acquire => exact htimed (fun _ => rfl) h
    | _ => cases hd

end Operation

/-! ## Runs -/

namespace Program

variable {p q : Program} {op : Operation}

/-- The operations that succeed when those of a list are performed one after the other. -/
def performed (p : Program) : List Operation → List Operation
  | [] => []
  | op :: ops =>
    match op.perform.run p with
    | .ok _ q => op :: q.performed ops
    | .error _ q => q.performed ops

/-- An operation that succeeds appends its statements and changes nothing else. -/
theorem statements_perform (h : op.perform.run p = .ok () q) :
    q.traits = p.traits ∧ ∃ added, op.statements p.traits = .ok added
      ∧ q.statements = p.statements ++ added := by
  obtain ⟨added, hadded, rfl⟩ := op.appends_statements.eq_ok h
  exact ⟨rfl, added, hadded, rfl⟩

theorem exists_perform_iff :
    (∃ q, op.perform.run p = .ok () q) ↔ ∃ added, op.statements p.traits = .ok added := by
  constructor
  · rintro ⟨q, h⟩
    obtain ⟨-, added, hadded, -⟩ := statements_perform h
    exact ⟨added, hadded⟩
  · rintro ⟨added, h⟩
    exact ⟨_, op.appends_statements.of_ok p added h⟩

theorem run_append (p : Program) (ops more : List Operation) :
    p.run (ops ++ more) = (p.run ops).run more :=
  List.foldl_append

theorem run_cons_of_ok (h : op.perform.run p = .ok () q) (ops : List Operation) :
    p.run (op :: ops) = q.run ops := by
  rw [run, List.foldl_cons, after, h]
  rfl

/-- A run goes on from the program that a failed operation has left, which is the one before it. -/
theorem run_cons_of_error {e : EncodeError} (h : op.perform.run p = .error e q)
    (ops : List Operation) : p.run (op :: ops) = p.run ops := by
  obtain ⟨-, rfl⟩ := op.appends_statements.eq_error h
  rw [run, List.foldl_cons, after, h]
  rfl

/-- **What a successful operation preserves, a run preserves.** The motive sees the operations that
have succeeded so far. -/
theorem run_induction {motive : List Operation → Program → Prop} (start : motive [] p)
    (step : ∀ done op q q', motive done q → op.perform.run q = .ok () q' → motive (done ++ [op]) q')
    (ops : List Operation) : motive (p.performed ops) (p.run ops) := by
  -- generalized over what has been performed already
  suffices H : ∀ (ops done : List Operation) (p : Program), motive done p →
      motive (done ++ p.performed ops) (p.run ops) by
    simpa using H ops [] p start
  intro ops
  induction ops with
  | nil =>
    intro done p hp
    simpa [performed, run] using hp
  | cons op ops ih =>
    intro done p hp
    rw [performed]
    cases h : op.perform.run p with
    | error e q =>
      rw [run_cons_of_error h, (op.appends_statements.eq_error h).2]
      exact ih done p hp
    | ok _ q =>
      rw [run_cons_of_ok h]
      simpa using ih (done ++ [op]) q (step done op p q hp h)

theorem traits_run (p : Program) (ops : List Operation) : (p.run ops).traits = p.traits :=
  run_induction (motive := fun _ q => q.traits = p.traits) rfl
    (fun _ _ _ _ hq h => (statements_perform h).1.trans hq) ops

/-- A run takes the time that its successful operations have asked for. -/
theorem duration_run (p : Program) (ops : List Operation) :
    (p.run ops).duration = p.duration + ((p.performed ops).filterMap Operation.duration?).sum := by
  refine run_induction (motive := fun done q =>
    q.duration = p.duration + (done.filterMap Operation.duration?).sum) rfl ?_ ops
  intro done op q q' hq h
  obtain ⟨-, added, hadded, hstatements⟩ := statements_perform h
  have hop : elapsed added = ([op].filterMap Operation.duration?).sum := by
    rw [Operation.elapsed_statements hadded]
    cases hd : op.duration? <;> simp [hd]
  rw [duration_eq_elapsed, hstatements, elapsed_append, ← duration_eq_elapsed, hq,
    List.filterMap_append, List.sum_append, hop, Nat.add_assoc]

/-- All statements of a run fit, if those that were there before do. -/
theorem fits_run (hpos : 0 < p.traits.immediateMax)
    (hlimit : p.traits.minDuration ≤ p.traits.immediateMax)
    (hp : ∀ s ∈ p.statements, s.Fits p.traits) (ops : List Operation) :
    ∀ s ∈ (p.run ops).statements, s.Fits p.traits := by
  refine (run_induction
    (motive := fun _ q => q.traits = p.traits ∧ ∀ s ∈ q.statements, s.Fits p.traits)
    ⟨rfl, hp⟩ ?_ ops).2
  rintro done op q q' ⟨htraits, hq⟩ h
  obtain ⟨hkeep, added, hadded, hstatements⟩ := statements_perform h
  rw [htraits] at hadded
  refine ⟨hkeep.trans htraits, ?_⟩
  rw [hstatements, List.forall_mem_append]
  exact ⟨hq, Operation.fits_statements hpos hlimit hadded⟩

/-- **The state of the encoder after any run.** A timed operation then succeeds exactly if its last
chunk is long enough; an operation that fails hands on the program that it was given, with no part
of it appended; every timed instruction has a duration that it can have; and the program takes the
time that the successful operations have asked for. -/
theorem run_in_bounds (t : Traits) (hmin : 1 ≤ t.minDuration)
    (hlimit : t.minDuration ≤ t.immediateMax) (ops : List Operation) :
    (∀ (op : Operation) (duration : Nat), op.duration? = some duration →
      ((∃ q, op.perform.run ((empty t).run ops) = .ok () q) ↔
        t.minDuration ≤ if duration = 0 then 0 else (duration - 1) % t.immediateMax + 1)) ∧
    (∀ (op : Operation) (e : EncodeError) (q : Program),
      op.perform.run ((empty t).run ops) = .error e q →
      q = (empty t).run ops ∧ (empty t).run (ops ++ [op]) = (empty t).run ops) ∧
    (∀ s ∈ ((empty t).run ops).statements, ∀ duration,
      s.instruction?.bind Instruction.duration? = some duration →
        t.minDuration ≤ duration ∧ duration ≤ t.immediateMax) ∧
    ((empty t).run ops).duration
      = (((empty t).performed ops).filterMap Operation.duration?).sum := by
  have hpos : 0 < t.immediateMax := by omega
  refine ⟨fun op duration hd => ?_, fun op e q h => ⟨?_, ?_⟩, ?_, ?_⟩
  · rw [exists_perform_iff, traits_run, Operation.exists_statements_iff hd, lastChunk_eq]
    rfl
  · exact (op.appends_statements.eq_error h).2
  · rw [run_append, run_cons_of_error h]
    rfl
  · exact fits_run hpos hlimit (by simp [empty]) ops
  · rw [duration_run]
    exact Nat.zero_add _

/-- With instructions of four to ten samples: a duration of two chunks and a half, one of two chunks
and two samples that is refused as a whole, and one of a single chunk. -/
theorem run_in_bounds_short :
    let t : Traits := { Traits.controlModule with immediateMax := 10 }
    let ops : List Operation :=
      [.wait none 25 none, .play none 0 1 22 none, .acquire (some "a") 0 1 10 none]
    let p := (empty t).run ops
    1 ≤ t.minDuration ∧ t.minDuration ≤ t.immediateMax ∧
      p.statements = [.step none (.wait 10) none, .step none (.wait 10) none,
        .step none (.wait 5) none, .step (some "a") (.acquire 0 1 10) none] ∧
      p.duration = 25 + 10 ∧
      ∃ e q, (Operation.play none 0 1 22 none).perform.run p = .error e q ∧ q = p := by
  intro t ops p
  obtain ⟨htimed, hfailed, -, hduration⟩ := run_in_bounds t (by decide) (by decide) ops
  refine ⟨by decide, by decide, by decide, by rw [hduration]; decide, ?_⟩
  cases h : (Operation.play none 0 1 22 none).perform.run p with
  | ok _ q => exact absurd ((htimed _ 22 rfl).mp ⟨q, h⟩) (by decide)
  | error e q => exact ⟨e, q, rfl, (hfailed _ e q h).1⟩

end Program

end Sequencer
