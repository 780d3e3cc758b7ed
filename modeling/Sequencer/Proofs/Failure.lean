import Sequencer.Proofs.Labels
import Sequencer.Proofs.Layout
import Sequencer.Proofs.Workers

/-!
# How a compilation fails

Some checks can only fail if the compiler contradicts itself: a resource that takes longer than the
sequence it is part of, an entry that starts before the one before it ends, a waveform that was
never sampled or has no place, a label that is not there. They are made all the same, and each is
dead for a reason of its own. The duration of the sequence is the latest end of any waveform.
Entries are sorted, and each is cut where the next one starts. What is played has been sampled, and
what is sampled is laid out. And the only label is the one that the program jumps to.

What remains are errors about the input: a first entry before the start of the sequence, a duration
that is too short for an instruction, a parameter that is out of range. Only a waveform library is
free to report whatever it likes, and what it reports is passed on as it is.

## Main definitions

* `EncodeError.OfOperand` — errors about an operand of an operation
* `CompileError.IsInternal` — errors that contradict the compiler
* `CompiledResource.Ready` — what a compiled resource guarantees to its program
* `CompiledResource.OfEntry` — a step that cannot fail but for an operand
* `Schedule.AsksInVain` — an error that is the answer of the library

## Main results

* `CompiledResource.walk_ofEntry` — the walk over the entries makes no check fail
* `CompiledResource.error_program` — how a program fails
* `Schedule.error_compile` — how a compilation fails
* `Schedule.internal_errors_unreachable` — no internal error is reached but through the library
* `Schedule.overrun_of_library` — through the library, one is
-/

namespace Sequencer

/-! ## Operations -/

/-- An error about an operand: a duration that is too short, or a parameter out of range. -/
def EncodeError.OfOperand : EncodeError → Prop
  | .tooShort _ _ | .outOfRange _ _ => True
  | _ => False

section Operations

variable {t : Traits} {e : EncodeError}

theorem ofOperand_of_quantize {parameter : String} {immediateMax : Nat} {value : Float}
    (h : quantize parameter immediateMax value = .error e) : e.OfOperand := by
  rw [quantize] at h
  split at h
  · obtain rfl := Except.error.inj h
    trivial
  · cases h

theorem ofOperand_of_chunks {duration : Nat} (h : t.chunks duration = .error e) : e.OfOperand := by
  simp only [Traits.chunks] at h
  split at h
  · obtain rfl := Except.error.inj h
    trivial
  · cases h

theorem ofOperand_of_timed {label : Option String} {duration : Nat} {comment : Option String}
    {make : Nat → Instruction} (h : Operation.timed t label duration comment make = .error e) :
    e.OfOperand := by
  rcases bind_eq_error.mp h with h | ⟨cs, -, h⟩
  · exact ofOperand_of_chunks h
  · cases cs <;> cases h

/-- Where phases are resolved, every angle has a phase. -/
theorem exists_ofDegrees (ht : t.ResolvesPhase) (degrees : Float) :
    ∃ phase, Phase.ofDegrees t degrees = .ok phase := by
  have hturn : t.fullTurn ≠ 0 := (Traits.fullTurn_pos_of_fineFactor_pos ht.2).ne'
  rw [Phase.ofDegrees, ticksOfDegrees, if_neg hturn]
  exact ⟨_, bind_eq_ok.mpr ⟨_, rfl, if_pos ht⟩⟩

/-- **An operation can only fail for an operand**, if its traits resolve phases. -/
theorem ofOperand_of_statements (ht : t.ResolvesPhase) {op : Operation}
    (h : op.statements t = .error e) : e.OfOperand := by
  cases op with
  | setGain bank gainI gainQ comment =>
    rcases bind_eq_error.mp h with h | ⟨i, -, h⟩
    · exact ofOperand_of_quantize h
    cases gainQ with
    | none => cases h
    | some own =>
      rcases bind_eq_error.mp h with h | ⟨q, -, h⟩
      · exact ofOperand_of_quantize h
      · cases h
  | setOffset bank offset =>
    rcases bind_eq_error.mp h with h | ⟨value, -, h⟩
    · exact ofOperand_of_quantize h
    · cases h
  | setPhase degrees | setPhaseDelta degrees =>
    obtain ⟨phase, hphase⟩ := exists_ofDegrees ht degrees
    rcases bind_eq_error.mp h with h | ⟨_, -, h⟩
    · rw [hphase] at h
      cases h
    · cases h
  | wait | play | acquire => exact ofOperand_of_timed h
  | lineBreak | waitSync | setMarker | move | jump => cases h

end Operations

theorem Resource.Kind.resolvesPhase_traits (kind : Resource.Kind) : kind.traits.ResolvesPhase := by
  cases kind <;> exact Traits.resolvesPhase_controlModule

/-! ## Programs -/

namespace CompiledResource

variable {r : CompiledResource} {settings : Settings} {entries : List Entry}

/-- What a compiled resource guarantees to its program: entries are sorted, and each has a waveform
and a place. -/
structure Ready (r : CompiledResource) (entries : List Entry) : Prop where
  sorted : entries.Pairwise fun a b => a.time ≤ b.time
  sampled : ∀ e ∈ entries, ∃ w, r.cache.get? e.key = some w
  allocated : ∀ e ∈ entries, ∃ slot, r.memory.lookup e.key = some slot

theorem Ready.tail {e : Entry} {rest : List Entry} (h : r.Ready (e :: rest)) : r.Ready rest where
  sorted := (List.pairwise_cons.mp h.sorted).2
  sampled := fun e he => h.sampled e (List.mem_cons_of_mem _ he)
  allocated := fun e he => h.allocated e (List.mem_cons_of_mem _ he)

/-- A step that belongs to one of the entries, neither defines a label nor jumps, and is no failed
check. Empty lines belong to no entry. -/
def OfEntry (r : CompiledResource) (entries : List Entry) : Step → Prop
  | .emit (some context) op =>
    (∃ e ∈ entries, context = r.context e) ∧ op.label? = none ∧ op.target? = none
  | .emit none op => op = .lineBreak
  | .fail _ => False

theorem OfEntry.mono {step : Step} (h : r.OfEntry entries step) {more : List Entry}
    (hsub : entries ⊆ more) : r.OfEntry more step := by
  match step with
  | .emit (some context) op =>
    obtain ⟨⟨e, he, hcontext⟩, hop⟩ := h
    exact ⟨⟨e, hsub he, hcontext⟩, hop⟩
  | .emit none op => exact h
  | .fail error => exact h.elim

theorem OfEntry.label?_eq_none {step : Step} (h : r.OfEntry entries step) : step.label? = none := by
  match step with
  | .emit (some context) op => exact h.2.1
  | .emit none op =>
    obtain rfl := h
    rfl
  | .fail error => exact h.elim

theorem OfEntry.target?_eq_none {step : Step} (h : r.OfEntry entries step) :
    step.target? = none := by
  match step with
  | .emit (some context) op => exact h.2.2
  | .emit none op =>
    obtain rfl := h
    rfl
  | .fail error => exact h.elim

/-- A step of an entry fails for an operand, and says which entry it is. -/
theorem OfEntry.error {t : Traits} (ht : t.ResolvesPhase) {step : Step} (h : r.OfEntry entries step)
    {e : CompileError} (herror : step.encode t = .error e) :
    ∃ entry ∈ entries, ∃ cause : EncodeError, cause.OfOperand ∧
      e = .within (r.context entry) (.encoding cause) := by
  match step with
  | .emit (some context) op =>
    obtain ⟨⟨entry, hentry, rfl⟩, -⟩ := h
    obtain ⟨cause, hcause, rfl⟩ := mapError_eq_error.mp herror
    exact ⟨entry, hentry, cause, ofOperand_of_statements ht hcause, rfl⟩
  | .emit none op =>
    obtain rfl := h
    cases herror
  | .fail error => exact h.elim

theorem ofEntry_waitSteps {e : Entry} (he : e ∈ entries) {duration : Int} {comment : String}
    {step : Step} (h : step ∈ waitSteps settings (r.context e) duration comment) :
    r.OfEntry entries step := by
  rw [waitSteps] at h
  split at h
  · obtain rfl := List.mem_singleton.mp h
    exact ⟨⟨e, he, rfl⟩, rfl, rfl⟩
  · exact absurd h List.not_mem_nil

theorem ofEntry_modulate {e : Entry} (he : e ∈ entries) {bank : Bank} {m : Modulations Float}
    {op : Operation} (h : op ∈ modulate settings bank m) :
    r.OfEntry entries (.emit (some (r.context e)) op) := by
  simp only [modulate, List.mem_append, Option.mem_toList, Option.map_eq_some_iff] at h
  rcases h with ((⟨_, _, rfl⟩ | ⟨_, _, rfl⟩) | ⟨_, _, rfl⟩) | ⟨_, _, rfl⟩
    <;> exact ⟨⟨e, he, rfl⟩, rfl, rfl⟩

theorem ofEntry_sound {e : Entry} (he : e ∈ entries) (slot : Slot) (duration : Nat) :
    r.OfEntry entries (.emit (some (r.context e)) (sound slot duration)) := by
  rw [sound]
  split <;> exact ⟨⟨e, he, rfl⟩, rfl, rfl⟩

theorem ofEntry_entrySteps {e : Entry} (he : e ∈ entries) {slot : Slot}
    (hslot : r.memory.lookup e.key = some slot) {wait duration : Int} {step : Step}
    (h : step ∈ r.entrySteps settings e wait duration) : r.OfEntry entries step := by
  simp only [entrySteps, hslot] at h
  rcases List.mem_append.mp h with h | h
  · exact ofEntry_waitSteps he h
  rcases List.mem_cons.mp h with rfl | h
  · exact rfl
  · obtain ⟨op, hop, rfl⟩ := List.mem_map.mp h
    rcases List.mem_append.mp hop with hop | hop
    · exact ofEntry_modulate he hop
    · obtain rfl := List.mem_singleton.mp hop
      exact ofEntry_sound he slot _

/-- An entry is cut where the next one starts, so the clock is never ahead of an entry. -/
theorem clock_le_of_mem {length : Nat} {e : Entry} {rest : List Entry}
    (sorted : (e :: rest).Pairwise fun a b => a.time ≤ b.time) :
    ∀ later ∈ rest, e.time + playTime length e rest ≤ later.time := by
  cases rest with
  | nil => simp
  | cons next rest =>
    have hcut : playTime length e (next :: rest) ≤ next.time - e.time := Int.min_le_right _ _
    have hnext : ∀ later ∈ next :: rest, next.time ≤ later.time := by
      intro later hlater
      rcases List.mem_cons.mp hlater with rfl | hlater
      · exact le_rfl
      · exact (List.pairwise_cons.mp (List.pairwise_cons.mp sorted).2).1 later hlater
    intro later hlater
    have := hnext later hlater
    omega

/-- **The walk over the entries makes no check fail.** All its steps belong to entries, if the clock
starts no later than any of them. -/
theorem walk_ofEntry {previous : Option Entry} {clock : Int} (hready : r.Ready entries)
    (hclock : ∀ e ∈ entries, clock ≤ e.time) :
    ∀ step ∈ (r.walk settings previous clock entries).1, r.OfEntry entries step := by
  induction entries generalizing previous clock with
  | nil => exact fun step h => absurd h List.not_mem_nil
  | cons e rest ih =>
    obtain ⟨w, hw⟩ := hready.sampled e List.mem_cons_self
    obtain ⟨slot, hslot⟩ := hready.allocated e List.mem_cons_self
    have hnot : ¬ e.time < clock := Int.not_lt.mpr (hclock e List.mem_cons_self)
    simp only [walk, if_neg hnot, hw]
    intro step hstep
    rcases List.mem_append.mp hstep with hstep | hstep
    · exact ofEntry_entrySteps List.mem_cons_self hslot hstep
    · exact (ih hready.tail (clock_le_of_mem hready.sorted) step hstep).mono
        (List.subset_cons_self e rest)

theorem ofEntry_padding {remaining : Int} {step : Step} (h : step ∈ r.padding settings remaining) :
    r.OfEntry r.entries step := by
  rw [padding] at h
  split at h
  · next last hlast => exact ofEntry_waitSteps (List.mem_of_getLast? hlast) h
  · exact absurd h List.not_mem_nil

/-- The plan of a resource whose entries start with the sequence: the steps of entries in a frame
that cannot fail. -/
theorem plan_eq_frame (settings : Settings) {duration : Int} (hready : r.Ready r.entries)
    (hfinish : r.finish ≤ duration) (hstart : ∀ e ∈ r.entries, 0 ≤ e.time) :
    ∃ steps, (∀ step ∈ steps, r.OfEntry r.entries step) ∧
      r.plan duration settings
        = [.emit none (.waitSync (settings.comment "#Sync with other sequencers")),
            .emit none (.setMarker (some startLabel) 1)] ++ steps ++
          [.emit none .lineBreak,
            .emit none (.jump none startLabel (settings.comment "#Loop back to start"))] := by
  refine ⟨(r.walk settings none 0 r.entries).1
    ++ r.padding settings (duration - (r.walk settings none 0 r.entries).2),
    fun step hstep => ?_, ?_⟩
  · rcases List.mem_append.mp hstep with hstep | hstep
    · exact walk_ofEntry hready hstart step hstep
    · exact ofEntry_padding hstep
  · rw [plan, if_neg (Int.not_lt.mpr hfinish)]
    simp

/-- The program of a resource whose entries start with the sequence has one label, and one jump,
which goes there. -/
theorem labels_of_encodes {t : Traits} {duration : Int} {statements : List Statement}
    (hready : r.Ready r.entries) (hfinish : r.finish ≤ duration)
    (hstart : ∀ e ∈ r.entries, 0 ≤ e.time) (h : Encodes t (r.plan duration settings) statements) :
    statements.filterMap Statement.label? = [startLabel] ∧
      (statements.filterMap Statement.instruction?).filterMap Instruction.target?
        = [startLabel] := by
  obtain ⟨steps, hsteps, hplan⟩ := plan_eq_frame settings hready hfinish hstart
  rw [hplan] at h
  constructor
  · have hnone : steps.filterMap Step.label? = [] :=
      List.filterMap_eq_nil_iff.mpr fun step hstep => (hsteps step hstep).label?_eq_none
    rw [h.labels, List.filterMap_append, List.filterMap_append, hnone]
    rfl
  · have hnone : steps.filterMap Step.target? = [] :=
      List.filterMap_eq_nil_iff.mpr fun step hstep => (hsteps step hstep).target?_eq_none
    rw [h.targets, List.filterMap_append, List.filterMap_append, hnone]
    rfl

/-- So it is valid. -/
theorem validate_of_encodes {t : Traits} {duration : Int} {statements : List Statement}
    (hready : r.Ready r.entries) (hfinish : r.finish ≤ duration)
    (hstart : ∀ e ∈ r.entries, 0 ≤ e.time) (h : Encodes t (r.plan duration settings) statements) :
    (Program.mk t statements).validate = .ok () := by
  obtain ⟨hlabels, htargets⟩ := labels_of_encodes hready hfinish hstart h
  rw [Program.validate_eq_ok_iff, Program.labels, Program.targets, hlabels, htargets]
  simp

/-- **How a program fails**, if its entries start with the sequence: for an operand of an entry. -/
theorem error_program {duration : Int} (hready : r.Ready r.entries) (hfinish : r.finish ≤ duration)
    (hstart : ∀ e ∈ r.entries, 0 ≤ e.time) {e : CompileError}
    (h : r.program duration settings = .error e) :
    ∃ entry ∈ r.entries, ∃ cause : EncodeError,
      cause.OfOperand ∧ e = .within (r.context entry) (.encoding cause) := by
  rw [program_eq] at h
  rcases bind_eq_error.mp h with h | ⟨parts, hparts, h⟩
  · obtain ⟨step, hstep, herror⟩ := exists_of_mapM_eq_error h
    obtain ⟨steps, hsteps, hplan⟩ := plan_eq_frame settings hready hfinish hstart
    rw [hplan] at hstep
    simp only [List.mem_append, List.mem_cons, List.not_mem_nil, or_false] at hstep
    rcases hstep with ((rfl | rfl) | hstep) | rfl | rfl
    · cases herror
    · cases herror
    · exact (hsteps step hstep).error r.resource.kind.resolvesPhase_traits herror
    · cases herror
    · cases herror
  · have hvalid := validate_of_encodes hready hfinish hstart ⟨parts, hparts, rfl⟩
    rcases bind_eq_error.mp h with h | ⟨_, -, h⟩
    · obtain ⟨cause, hcause, -⟩ := mapError_eq_error.mp h
      rw [hvalid] at hcause
      cases hcause
    · exact absurd h pure_ne_error

/-- An entry before the start of the sequence is a conflict with the start, before anything else is
encoded. -/
theorem program_of_early {duration : Int} (hfinish : r.finish ≤ duration) {first : Entry}
    (hfirst : r.entries.head? = some first) (hearly : first.time < 0) :
    r.program duration settings = .error (.schedulingConflict none (r.context first)) := by
  obtain ⟨rest, hentries⟩ := List.head?_eq_some_iff.mp hfirst
  have hwalk : r.walk settings none 0 r.entries
      = ([.fail (.schedulingConflict none (r.context first))], 0) := by
    rw [hentries, walk, if_pos hearly]
    rfl
  rw [program, plan, if_neg (Int.not_lt.mpr hfinish), hwalk]
  rfl

end CompiledResource

/-! ## Compilations -/

/-- An error that contradicts the compiler, at whatever depth it is reported. -/
def CompileError.IsInternal (e : CompileError) : Prop :=
  match e.root with
  | .overrun _ _ _ | .schedulingConflict (some _) _ | .unsampled _ | .unallocated _
  | .encoding (.duplicateLabel _) | .encoding (.undefinedTarget _) | .encoding .unresolvedPhase =>
    True
  | _ => False

theorem EncodeError.OfOperand.not_isInternal {cause : EncodeError} (h : cause.OfOperand)
    (context : Context) : ¬ (CompileError.within context (.encoding cause)).IsInternal := by
  match cause with
  | .tooShort _ _ | .outOfRange _ _ => exact id

theorem Pulse.error_normalize {p : Pulse Float} {e : CompileError} (h : p.normalize = .error e) :
    ¬ e.IsInternal := by
  rw [normalize] at h
  split at h
  · cases h
  split at h
  · cases h
  · obtain rfl := Except.error.inj h
    exact id

theorem Memory.error_place {acquisitions : List ContentKey} {m : Memory}
    {entry : ContentKey × Waveform Float} {e : CompileError}
    (h : place acquisitions m entry = .error e) : e = .unindexed := by
  rcases bind_eq_error.mp h with h | ⟨_, -, h⟩
  · rw [Allocations.place] at h
    split at h
    · cases h
    split at h
    · cases h
    · exact (Except.error.inj h).symm
  · exact absurd h pure_ne_error

theorem Memory.error_allocate {resource : String} {c : Cache} {acquisitions : List ContentKey}
    {capacity : Option Nat} {e : CompileError}
    (h : allocate resource c acquisitions capacity = .error e) : ¬ e.IsInternal := by
  have hfits : ∀ {m : Memory} {n : Nat} {b : Bank},
      m.fits resource n b = .error e → ¬ e.IsInternal := by
    intro m n b hfits
    rw [fits] at hfits
    split at hfits
    · obtain rfl := Except.error.inj hfits
      exact id
    · cases hfits
  rcases bind_eq_error.mp h with h | ⟨m, -, h⟩
  · obtain ⟨_, entry, _, _, -, -, h⟩ := exists_of_foldlM_eq_error h
    obtain rfl := error_place h
    exact id
  cases capacity with
  | none => exact absurd h pure_ne_error
  | some n =>
    rcases bind_eq_error.mp h with h | ⟨_, -, h⟩
    · exact hfits h
    rcases bind_eq_error.mp h with h | ⟨_, -, h⟩
    · exact hfits h
    · exact absurd h pure_ne_error

theorem Resource.error_adopt {r : Resource} {current requested : Option Float} {key : ContentKey}
    {e : CompileError} (h : r.adopt current key requested = .error e) : ¬ e.IsInternal := by
  rw [adopt.eq_def] at h
  split at h
  · cases h
  split at h
  · cases h
  split at h
  · cases h
  split at h
  · obtain rfl := Except.error.inj h
    exact id
  · cases h

section Library

variable {library : WaveformLibrary Float} {e : CompileError}

/-- If a pulse cannot be sampled, there is something to ask, and the library has refused it. -/
theorem WaveformLibrary.render_eq_error {p : Pulse Float} {rate : Float}
    (h : library.render p rate = .error e) :
    ∃ q, p.questions rate = [q] ∧ library.answer q = .error e := by
  rw [Pulse.questions]
  cases hf : p.function with
  | none =>
    rw [render_of_none hf] at h
    cases h
  | some function =>
    rw [render_of_some hf] at h
    exact ⟨_, rfl, h⟩

/-- A placement is refused for its frequency, or because the library has been asked for its waveform
and does not have it. -/
theorem Track.add_eq_error {rule : TuningRule} {t : Track} {p : Placement}
    (h : t.add rule library p = .error e) :
    rule t p = .error e ∨ ∃ left, (p.request library).run t.toSampler = .error e left := by
  rcases bind_eq_error.mp h with h | ⟨frequency, -, h⟩
  · exact Or.inl h
  · split at h
    · next cause left hrequest =>
      obtain rfl := Except.error.inj h
      exact Or.inr ⟨left, hrequest⟩
    · exact absurd h pure_ne_error

theorem Compilation.error_add {c : Compilation} {p : Placement}
    (h : c.add Track.tune library p = .error e) :
    (∃ left, (p.request library).run (c.track p.channel p.resource).toSampler = .error e left) ∨
      ¬ e.IsInternal := by
  rcases bind_eq_error.mp h with h | ⟨t, -, h⟩
  · rcases Track.add_eq_error h with h | h
    · rw [Track.tune] at h
      split at h
      · cases h
      · exact Or.inr (Resource.error_adopt h)
    · exact Or.inl h
  · exact absurd h pure_ne_error

/-- The standard library reports an unknown function or a missing parameter. -/
theorem WaveformLibrary.error_standard {function : String} {times : List Float} {p : Pulse Float}
    (h : standard function times p = .error e) : ¬ e.IsInternal := by
  have hrequire : ∀ {parameter : String} {value : Option Float},
      require function parameter value = .error e → ¬ e.IsInternal := by
    intro parameter value hvalue
    cases value with
    | none =>
      obtain rfl := Except.error.inj hvalue
      exact id
    | some value => cases hvalue
  rw [standard, standardOver] at h
  split at h
  · obtain rfl := Except.error.inj h
    exact id
  · rcases bind_eq_error.mp h with h | ⟨_, -, h⟩
    · exact hrequire h
    · exact absurd h pure_ne_error
  · rcases bind_eq_error.mp h with h | ⟨_, -, h⟩
    · exact hrequire h
    · exact absurd h pure_ne_error
  · rcases bind_eq_error.mp h with h | ⟨_, -, h⟩
    · exact hrequire h
    rcases bind_eq_error.mp h with h | ⟨_, -, h⟩
    · exact hrequire h
    · exact absurd h pure_ne_error

end Library

theorem Settings.error_sanitize {settings : Settings} {e : CompileError}
    (h : settings.sanitize = .error e) : ¬ e.IsInternal := by
  simp only [sanitize] at h
  split at h
  · obtain rfl := Except.error.inj h
    exact id
  split at h <;> cases h

namespace Schedule

variable {s : Schedule} {library : WaveformLibrary Float} {settings : Settings} {e : CompileError}

/-- A pulse that cannot be placed is an error about the schedule. -/
theorem error_placements (h : .error e ∈ s.placements settings) : ¬ e.IsInternal := by
  obtain ⟨c, -, h⟩ := List.mem_flatMap.mp h
  rw [placeConstraint] at h
  split at h
  · obtain rfl := Except.error.inj (List.mem_singleton.mp h)
    exact id
  split at h
  · obtain rfl := Except.error.inj (List.mem_singleton.mp h)
    exact id
  split at h
  · obtain rfl := Except.error.inj (List.mem_singleton.mp h)
    exact id
  obtain ⟨p, -, h⟩ := List.mem_flatMap.mp h
  rw [placePulse] at h
  split at h
  · next e' hnormalize =>
    obtain rfl := Except.error.inj (List.mem_singleton.mp h)
    exact Pulse.error_normalize hnormalize
  split at h
  · exact absurd h List.not_mem_nil
  simp only at h
  split at h
  · obtain rfl := Except.error.inj (List.mem_singleton.mp h)
    exact id
  · cases List.mem_singleton.mp h

/-- The compiler gets to a pulse, asks the library for its waveform function at the times of its
samples, and the library answers with an error, which is the outcome of the request. -/
def AsksInVain (s : Schedule) (library : WaveformLibrary Float) (settings : Settings)
    (e : CompileError) : Prop :=
  ∃ before p c q left, s.Reaches library settings before p c ∧
    p.pulse.questions p.resource.samplingRate = [q] ∧ library.answer q = .error e ∧
    (p.request library).run (c.track p.channel p.resource).toSampler = .error e left ∧
    left.asked = (c.track p.channel p.resource).asked ++ [q]

/-- A request that fails has asked in vain. -/
theorem Reaches.asksInVain {before : List Placement} {p : Placement} {c : Compilation}
    (h : s.Reaches library settings before p c) {left : Sampler}
    (he : (p.request library).run (c.track p.channel p.resource).toSampler = .error e left) :
    s.AsksInVain library settings e := by
  obtain ⟨-, hrender, hleft⟩ := Sampler.request_eq_error he
  obtain ⟨q, hq, hanswer⟩ := WaveformLibrary.render_eq_error hrender
  refine ⟨before, p, c, q, left, h, hq, hanswer, he, ?_⟩
  rw [hleft, hq]

/-- **How a compilation fails**: by an answer of the library, or by an error that is not
internal. -/
theorem error_compile (h : s.compile library settings = .error e) :
    s.AsksInVain library settings e ∨ ¬ e.IsInternal := by
  rw [compile, compileWith] at h
  rcases bind_eq_error.mp h with h | ⟨c, -, h⟩
  · obtain ⟨done, placement, rest, c, hsplit, hdone, h⟩ := exists_of_foldlM_eq_error h
    obtain ⟨before, rfl, hbefore⟩ := Compilation.collect_eq_ok hdone
    rcases bind_eq_error.mp h with rfl | ⟨p, rfl, h⟩
    · have hmem : .error e ∈ s.placements settings := by
        rw [hsplit]
        exact List.mem_append_right _ List.mem_cons_self
      exact Or.inr (error_placements hmem)
    · rcases Compilation.error_add h with ⟨left, hleft⟩ | h
      · exact Or.inl (Reaches.asksInVain ⟨⟨rest, hsplit⟩, hbefore⟩ hleft)
      · exact Or.inr h
  · rcases bind_eq_error.mp h with h | ⟨resources, -, h⟩
    · obtain ⟨x, -, h⟩ := exists_of_mapM_eq_error h
      rcases bind_eq_error.mp h with h | ⟨memory, -, h⟩
      · exact Or.inr (Memory.error_allocate h)
      · exact absurd h pure_ne_error
    · exact absurd h pure_ne_error

variable {compiled : CompiledSchedule} {r : CompiledResource}

/-- A compiled resource guarantees to its program what it needs. -/
theorem ready_of_mem (h : s.compile library settings = .ok compiled) (hr : r ∈ compiled.resources) :
    r.Ready r.entries ∧ r.finish ≤ compiled.duration := by
  have sorted := (isProjection_of_mem h hr).entries.ascending
  refine ⟨⟨sorted, fun e he => exists_waveform h hr he, fun e he => ?_⟩, ?_⟩
  · obtain ⟨k, hk⟩ := exists_slot h hr he
    exact ⟨_, hk⟩
  · rw [duration_compile h]
    exact le_peak (List.mem_map.mpr ⟨r, hr, rfl⟩)

/-- How the program of a compiled resource fails: for an entry before the start, or for an
operand. -/
theorem error_program_of_mem (h : s.compile library settings = .ok compiled)
    (hr : r ∈ compiled.resources) (he : r.program compiled.duration settings = .error e) :
    (∃ first, r.entries.head? = some first ∧ first.time < 0 ∧
        e = .schedulingConflict none (r.context first)) ∨
      ∃ entry ∈ r.entries, ∃ cause : EncodeError, cause.OfOperand ∧
        e = .within (r.context entry) (.encoding cause) := by
  obtain ⟨hready, hfinish⟩ := ready_of_mem h hr
  by_cases hstart : ∀ e ∈ r.entries, 0 ≤ e.time
  · exact Or.inr (CompiledResource.error_program hready hfinish hstart he)
  · left
    obtain ⟨early, hmem, hearly⟩ : ∃ early ∈ r.entries, early.time < 0 := by simpa using hstart
    cases hentries : r.entries with
    | nil =>
      rw [hentries] at hmem
      exact absurd hmem List.not_mem_nil
    | cons first rest =>
      -- the first entry is the earliest
      have hfirst : first.time ≤ early.time := by
        have hsorted := hready.sorted
        rw [hentries] at hmem hsorted
        rcases List.mem_cons.mp hmem with rfl | hmem
        · exact le_rfl
        · exact (List.pairwise_cons.mp hsorted).1 early hmem
      have hhead : r.entries.head? = some first := by rw [hentries]; rfl
      have hnegative : first.time < 0 := by omega
      rw [CompiledResource.program_of_early hfinish hhead hnegative] at he
      exact ⟨first, rfl, hnegative, (Except.error.inj he).symm⟩

/-- An internal error, of whichever resource, is an answer of the library. -/
theorem asksInVain_of_yields (h : s.Yields library settings (.error e)) (hinternal : e.IsInternal) :
    ∃ changes clean, settings.sanitize = .ok (changes, clean) ∧ s.AsksInVain library clean e := by
  cases h with
  | unfit h => exact absurd hinternal (Settings.error_sanitize h)
  | uncompiled hclean h =>
    exact ⟨_, _, hclean, (error_compile h).resolve_right (not_not_intro hinternal)⟩
  | compiled hclean hcompiled h =>
    exfalso
    cases h with
    | error hr h =>
      rcases bind_eq_error.mp h with h | ⟨p, -, h⟩
      · rcases error_program_of_mem hcompiled hr h with
          ⟨first, -, -, rfl⟩ | ⟨entry, -, cause, hcause, rfl⟩
        · exact hinternal
        · exact hcause.not_isInternal _ hinternal
      · exact absurd h pure_ne_error

/-- **No internal error is reached but through the library.** Whatever the schedule, the library and
the settings, and whichever resource fails first: an internal error is the answer of the library to
a question that the compilation has asked about a pulse of the schedule. The standard library gives
no such answer. And the program of a compiled resource fails in one of two ways: for its first
entry, exactly if that is before the start of the sequence, or for an operand of one of its entries,
a duration that is too short or a parameter out of range. -/
theorem internal_errors_unreachable (s : Schedule) (library : WaveformLibrary Float)
    (settings : Settings) :
    (∀ e, s.Yields library settings (.error e) → e.IsInternal →
      ∃ changes clean, settings.sanitize = .ok (changes, clean) ∧ s.AsksInVain library clean e) ∧
    (∀ e, s.Yields .standard settings (.error e) → ¬ e.IsInternal) ∧
    ∀ compiled, s.compile library settings = .ok compiled → ∀ r ∈ compiled.resources,
      ((∃ current, r.program compiled.duration settings
          = .error (.schedulingConflict none current)) ↔
        ∃ first, r.entries.head? = some first ∧ first.time < 0) ∧
      ∀ e, r.program compiled.duration settings = .error e →
        (∃ first, r.entries.head? = some first ∧ first.time < 0 ∧
          e = .schedulingConflict none (r.context first)) ∨
        ∃ entry ∈ r.entries, ∃ cause : EncodeError, cause.OfOperand ∧
          e = .within (r.context entry) (.encoding cause) := by
  refine ⟨fun e h => asksInVain_of_yields h, fun e h hinternal => ?_,
    fun compiled h r hr => ⟨?_, ?_⟩⟩
  · obtain ⟨_, _, -, before, p, c, q, left, -, -, hanswer, -⟩ := asksInVain_of_yields h hinternal
    exact WaveformLibrary.error_standard hanswer hinternal
  · constructor
    · rintro ⟨current, he⟩
      rcases error_program_of_mem h hr he with ⟨first, hfirst, hearly, -⟩ | ⟨_, -, _, -, hwithin⟩
      · exact ⟨first, hfirst, hearly⟩
      · cases hwithin
    · rintro ⟨first, hfirst, hearly⟩
      exact ⟨_, CompiledResource.program_of_early (ready_of_mem h hr).2 hfirst hearly⟩
  · exact fun e he => error_program_of_mem h hr he

/-- A library that takes every waveform to be longer than the sequence. -/
def overrunning : WaveformLibrary Float := fun _ _ _ => .error (.overrun "q0" 0 1)

/-- **An internal error of the library is passed on** as if it were one of the compiler. -/
theorem overrun_of_library :
    (((blank "solo").addResource (.plain "q0" .awg 1e9)).addPulse
        "drive" (.square "q0" 0 12e-9 0.5) 0).configure overrunning .standard
      = .error (.overrun "q0" 0 1) ∧
    (CompileError.overrun "q0" 0 1).IsInternal :=
  ⟨rfl, trivial⟩

/-- A pulse before the start of the sequence on one qubit, and one that is too short to be played on
another. -/
def faulty : Schedule :=
  ((((blank "faulty").addResource (.plain "q0" .awg 1e9)).addResource
    (.plain "q1" .awg 1e9)).addPulse "early" (.square "q0" 0 12e-9 0.5) (-4e-9)).addPulse
    "brief" (.square "q1" 0 2e-9 0.5) 0

theorem internal_errors_unreachable_faulty :
    ∃ compiled early brief, faulty.compile .standard .standard = .ok compiled ∧
      compiled.resources = [early, brief] ∧
      (∃ current, early.program compiled.duration .standard
        = .error (.schedulingConflict none current)) ∧
      (∃ entry ∈ brief.entries, ∃ cause : EncodeError, cause.OfOperand ∧
        brief.program compiled.duration .standard
          = .error (.within (brief.context entry) (.encoding cause))) ∧
      ∃ e, faulty.configure .standard .standard = .error e ∧ ¬ e.IsInternal := by
  have hvalue : (faulty.compile .standard .standard).toOption.map
      (fun c => c.resources.map fun r =>
        (r.entries.map Entry.time, (r.program c.duration .standard).toOption.isSome))
        = some [([-4], false), ([0], false)] := by decide +kernel
  have hfails : (faulty.configure .standard .standard).toOption.isSome = false := by decide +kernel
  obtain ⟨-, hstandard, hprograms⟩ := internal_errors_unreachable faulty .standard .standard
  obtain ⟨compiled, h, hc⟩ := exists_ok_of_toOption hvalue
  obtain ⟨early, rest, hresources, hearly, hrest⟩ := List.map_eq_cons_iff.mp hc
  obtain ⟨brief, rest, rfl, hbrief, hnil⟩ := List.map_eq_cons_iff.mp hrest
  obtain rfl := List.map_eq_nil_iff.mp hnil
  obtain ⟨first, _, hfirst, htime, -⟩ := List.map_eq_cons_iff.mp (Prod.mk.inj hearly).1
  obtain ⟨only, _, honly, honlytime, -⟩ := List.map_eq_cons_iff.mp (Prod.mk.inj hbrief).1
  obtain ⟨hconflict, -⟩ := hprograms compiled h early (by rw [hresources]; exact List.mem_cons_self)
  obtain ⟨-, herrors⟩ := hprograms compiled h brief (by simp [hresources])
  refine ⟨compiled, early, brief, h, hresources, ?_, ?_, ?_⟩
  · exact hconflict.mpr ⟨first, by rw [hfirst]; rfl, by omega⟩
  · obtain ⟨e, he⟩ := exists_error_of_toOption (Prod.mk.inj hbrief).2
    rcases herrors e he with ⟨first, hhead, hnegative, -⟩ | ⟨entry, hentry, cause, hcause, rfl⟩
    · rw [honly, List.head?_cons, Option.some.injEq] at hhead
      subst hhead
      omega
    · exact ⟨entry, hentry, cause, hcause, he⟩
  · obtain ⟨e, he⟩ := exists_error_of_toOption hfails
    exact ⟨e, he, hstandard e (he ▸ yields_configure faulty .standard .standard)⟩

end Schedule

end Sequencer
