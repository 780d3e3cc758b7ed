import Sequencer.Proofs.Performance
import Sequencer.Proofs.Runs

/-!
# Labels and jumps

A program may only jump to labels that it defines, and it may define a label only once. The encoder
spreads a long operation over several instructions, so a label that were repeated with each of them
would make every long operation invalid. It goes on the first one.

Labels are followed here from operations to statements, without a look at what else the statements
do.

## Main results

* `Operation.labels_statements`, `Operation.targets_statements` — an operation defines the label it
  asks for once, and jumps where it asks to
* `Encodes.filterMap`, `Encodes.labels`, `Encodes.targets` — the same for a list of steps
* `Program.validate_eq_ok_iff` — when a program is valid
* `Program.filterMap_run`, `Program.labels_run`, `Program.targets_run` — what a run of the encoder
  defines, and where it jumps
* `Program.validate_of_run` — when the program of a run is valid
-/

namespace Sequencer

/-! ## Operations -/

namespace Operation

variable {t : Traits} {op : Operation} {added : List Statement}

/-- The label of a timed operation is on its first chunk, and on no other. -/
theorem labels_timed {label : Option String} {duration : Nat} {comment : Option String}
    {make : Nat → Instruction} (h : timed t label duration comment make = .ok added) :
    added.filterMap Statement.label? = label.toList := by
  obtain ⟨first, rest, -, rfl⟩ := timed_eq_ok h
  have hrest :
      (rest.map fun c => Statement.commented none (make c) comment).filterMap Statement.label?
        = [] := by
    simp [List.filterMap_eq_nil_iff]
  rw [List.filterMap_cons, Statement.label?_commented, hrest]
  cases label <;> rfl

/-- The chunks of an operation that does not jump do not jump. -/
theorem targets_timed {label : Option String} {duration : Nat} {comment : Option String}
    {make : Nat → Instruction} (hmake : ∀ c, (make c).target? = none)
    (h : timed t label duration comment make = .ok added) :
    (added.filterMap Statement.instruction?).filterMap Instruction.target? = [] := by
  have hall : ∀ i, some i ∈ added.map Statement.instruction? → i.target? = none := by
    intro i hi
    rw [instructions_timed h] at hi
    obtain ⟨c, -, hc⟩ := List.mem_map.mp hi
    rw [← Option.some.inj hc]
    exact hmake c
  rw [List.filterMap_eq_nil_iff]
  intro i hi
  obtain ⟨statement, hmem, hstatement⟩ := List.mem_filterMap.mp hi
  exact hall i (hstatement ▸ List.mem_map.mpr ⟨statement, hmem, rfl⟩)

/-- **An operation defines the label it asks for, once.** -/
theorem labels_statements (h : op.statements t = .ok added) :
    added.filterMap Statement.label? = op.label?.toList := by
  cases hd : op.duration? with
  | none =>
    obtain ⟨rfl, hlabel, -⟩ | ⟨i, comment, rfl, -, -⟩ := statements_of_untimed h hd
    · rw [hlabel]
      rfl
    · cases op.label? <;> rfl
  | some duration =>
    cases op with
    | wait | play | acquire => exact labels_timed h
    | _ => simp [duration?] at hd

/-- **An operation jumps where it asks to.** -/
theorem targets_statements (h : op.statements t = .ok added) :
    (added.filterMap Statement.instruction?).filterMap Instruction.target? = op.target?.toList := by
  cases hd : op.duration? with
  | none =>
    obtain ⟨rfl, -, htarget⟩ | ⟨i, comment, rfl, -, htarget⟩ := statements_of_untimed h hd
    · rw [htarget]
      rfl
    · rw [← htarget]
      cases hi : i.target? <;> simp [Statement.commented, Statement.instruction?, hi]
  | some duration =>
    cases op with
    | wait | play | acquire => exact targets_timed (fun _ => rfl) h
    | _ => simp [duration?] at hd

end Operation

/-! ## Steps -/

namespace Step

/-- The label that a step asks for. -/
def label? : Step → Option String
  | .emit _ op => op.label?
  | .fail _ => none

/-- The label that a step jumps to. -/
def target? : Step → Option String
  | .emit _ op => op.target?
  | .fail _ => none

end Step

variable {t : Traits} {steps : List Step} {statements : List Statement}

/-- What is read off the statements of single steps is read off those of a list of steps. -/
theorem Encodes.filterMap {β : Type} {read : Statement → Option β} {asked : Step → Option β}
    (hread : ∀ step added, step.encode t = .ok added → added.filterMap read = (asked step).toList)
    (h : Encodes t steps statements) : statements.filterMap read = steps.filterMap asked := by
  induction steps generalizing statements with
  | nil =>
    obtain rfl := encodes_nil.mp h
    rfl
  | cons step steps ih =>
    obtain ⟨a, b, ha, hb, rfl⟩ := encodes_cons.mp h
    rw [List.filterMap_append, ih hb, hread step a ha, List.filterMap_cons]
    cases asked step <;> rfl

theorem Encodes.labels (h : Encodes t steps statements) :
    statements.filterMap Statement.label? = steps.filterMap Step.label? := by
  refine h.filterMap fun step added hstep => ?_
  cases step with
  | fail e => cases hstep
  | emit context op => exact Operation.labels_statements (Step.encode_emit_eq_ok.mp hstep)

theorem Encodes.targets (h : Encodes t steps statements) :
    (statements.filterMap Statement.instruction?).filterMap Instruction.target?
      = steps.filterMap Step.target? := by
  rw [List.filterMap_filterMap]
  refine h.filterMap fun step added hstep => ?_
  rw [← List.filterMap_filterMap]
  cases step with
  | fail e => cases hstep
  | emit context op => exact Operation.targets_statements (Step.encode_emit_eq_ok.mp hstep)

/-! ## Valid programs -/

namespace Program

theorem firstRepeated_eq_none_iff (seen labels : List String) :
    firstRepeated seen labels = none ↔ labels.Nodup ∧ ∀ label ∈ labels, label ∉ seen := by
  induction labels generalizing seen with
  | nil => simp [firstRepeated]
  | cons label rest ih =>
    rw [firstRepeated]
    by_cases hseen : label ∈ seen
    · simp [hseen]
    · rw [if_neg hseen, ih, List.nodup_cons]
      constructor
      · rintro ⟨hnodup, hrest⟩
        refine ⟨⟨fun hmem => hrest label hmem List.mem_cons_self, hnodup⟩, fun other hother => ?_⟩
        rcases List.mem_cons.mp hother with rfl | hother
        · exact hseen
        · exact fun hmem => hrest other hother (List.mem_cons_of_mem _ hmem)
      · rintro ⟨⟨hlabel, hnodup⟩, hrest⟩
        refine ⟨hnodup, fun other hother hmem => ?_⟩
        rcases List.mem_cons.mp hmem with rfl | hmem
        · exact hlabel hother
        · exact hrest other (List.mem_cons_of_mem _ hother) hmem

/-- **A program is valid if no label is defined twice and every jump goes to a label.** -/
theorem validate_eq_ok_iff (p : Program) :
    p.validate = .ok () ↔ p.labels.Nodup ∧ ∀ target ∈ p.targets, target ∈ p.labels := by
  have hrepeated := firstRepeated_eq_none_iff [] p.labels
  rw [validate]
  cases hfirst : firstRepeated [] p.labels with
  | some label =>
    have hdup : ¬ p.labels.Nodup := fun hnodup => by
      rw [hrepeated.mpr ⟨hnodup, by simp⟩] at hfirst
      cases hfirst
    simp [hdup]
  | none =>
    have hnodup : p.labels.Nodup := (hrepeated.mp hfirst).1
    cases htarget : p.targets.find? (· ∉ p.labels) with
    | some target =>
      have hmem := List.mem_of_find?_eq_some htarget
      have hundefined : target ∉ p.labels := by simpa using List.find?_some htarget
      simpa [hnodup] using ⟨target, hmem, hundefined⟩
    | none => simpa [hnodup] using htarget

/-! ## Runs -/

/-- What is read off the statements of single operations is read off those of a run: one after the
other, and nothing for an operation that has failed. -/
theorem filterMap_run {β : Type} {read : Statement → Option β} {asked : Operation → Option β}
    (hread : ∀ {t : Traits} {op : Operation} {added : List Statement},
      op.statements t = .ok added → added.filterMap read = (asked op).toList)
    (p : Program) (ops : List Operation) :
    (p.run ops).statements.filterMap read = p.statements.filterMap read
      ++ (p.performed ops).filterMap asked := by
  refine run_induction
    (motive := fun done q =>
      q.statements.filterMap read = p.statements.filterMap read ++ done.filterMap asked)
    (by simp) ?_ ops
  intro done op q q' hq h
  obtain ⟨-, added, hadded, hstatements⟩ := statements_perform h
  have hop : added.filterMap read = [op].filterMap asked := by
    rw [hread hadded]
    cases hasked : asked op <;> simp [hasked]
  calc q'.statements.filterMap read = q.statements.filterMap read ++ added.filterMap read := by
        rw [hstatements, List.filterMap_append]
    _ = p.statements.filterMap read ++ (done ++ [op]).filterMap asked := by
        rw [hq, hop, List.filterMap_append, List.append_assoc]

/-- **A run defines the labels that its successful operations have asked for**, in their order. -/
theorem labels_run (p : Program) (ops : List Operation) :
    (p.run ops).labels = p.labels ++ (p.performed ops).filterMap Operation.label? :=
  filterMap_run Operation.labels_statements p ops

/-- **A run jumps where its successful operations have asked to.** -/
theorem targets_run (p : Program) (ops : List Operation) :
    (p.run ops).targets = p.targets ++ (p.performed ops).filterMap Operation.target? := by
  simp only [targets, List.filterMap_filterMap]
  refine filterMap_run (fun h => ?_) p ops
  rw [← List.filterMap_filterMap]
  exact Operation.targets_statements h

/-- **When the program of a run is valid.** It defines the labels of the operations that have
succeeded, each once and in their order, however many instructions an operation has become; what has
failed defines nothing. So it is valid exactly if these labels are distinct and every jump that has
succeeded goes to one of them, which may be defined before the jump or after it. -/
theorem validate_of_run (t : Traits) (ops : List Operation) :
    let labels := ((empty t).performed ops).filterMap Operation.label?
    ((empty t).run ops).labels = labels ∧
      (((empty t).run ops).validate = .ok () ↔
        labels.Nodup ∧ ∀ op ∈ (empty t).performed ops, ∀ target ∈ op.target?, target ∈ labels) := by
  intro labels
  have hlabels : ((empty t).run ops).labels = labels := labels_run (empty t) ops
  have htargets : ((empty t).run ops).targets
      = ((empty t).performed ops).filterMap Operation.target? :=
    targets_run (empty t) ops
  refine ⟨hlabels, ?_⟩
  rw [validate_eq_ok_iff, hlabels, htargets]
  simp only [List.mem_filterMap, forall_exists_index, and_imp, Option.mem_def]
  refine and_congr_right fun _ => ?_
  constructor
  · exact fun h op hop target htarget => h target op hop htarget
  · exact fun h target op hop htarget => h op hop target htarget

/-- A jump forward, a wait of two chunks, and a label that is free again because its first owner was
refused. -/
example :
    let p := (empty .controlModule).run [.jump none "b" none, .wait (some "a") 70000 none,
      .wait (some "b") 2 none, .setMarker (some "b") 1]
    p.labels = ["a", "b"] ∧ p.statements.length = 4 ∧ p.validate = .ok () :=
      ⟨by decide, by decide, rfl⟩

end Program

end Sequencer
