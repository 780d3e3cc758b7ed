import Sequencer.Proofs.Failure

/-!
# The shape of a program

Labels and comments aside, a program is a fixed frame around one part per entry, and the part of an
entry is always built in the same way: waits, an empty line, the registers that the entry sets, and
the chunks of its waveform. Everything that a part addresses is in the bank of the slot where the
waveform lies.

`Performance` reads the same statements as sounds in time and does not see what is silent. Here the
statements themselves are kept, so that what is written to registers can be told as well, and for
how long: waits and sounds are spread over instructions of which all but the last are as long as
possible.

## Main definitions

* `RegisterValues`, `Modulations.values` — what is written to registers
* `Slot.instruction` — the instruction that sounds the waveform in a slot
* `Spread` — durations of which all but the last are as long as possible
* `Slot.IsPassage` — the part of an entry
* `CompiledResource.Passages` — one passage per entry

## Main results

* `CompiledResource.walk_passages` — the walk over the entries is one passage per entry
* `CompiledResource.program_passages` — a program is a frame around them
* `CompiledResource.program_shape` — the shape of every program
-/

namespace Sequencer

/-! ## Parts -/

/-- Values for registers. One that is missing is not written. -/
structure RegisterValues where
  /-- For the I and the Q path. -/
  gain : Option (Int × Int)
  /-- For both paths. -/
  offset : Option Int
  phase : Option Phase
  phaseDelta : Option Phase

namespace RegisterValues

/-- The instructions that write register values, with those of a bank. -/
def instructions (bank : Bank) (v : RegisterValues) : List Instruction :=
  (v.gain.map fun gain => Instruction.setGain bank gain.1 gain.2).toList
    ++ (v.offset.map fun offset => Instruction.setOffset bank offset offset).toList
    ++ (v.phase.map Instruction.setPhase).toList
    ++ (v.phaseDelta.map Instruction.setPhaseDelta).toList

/-- What holds of every instruction for a register holds of those that write register values. -/
theorem forall_mem_instructions {bank : Bank} {v : RegisterValues} {P : Instruction → Prop}
    (gain : ∀ i q, P (.setGain bank i q)) (offset : ∀ i q, P (.setOffset bank i q))
    (phase : ∀ p, P (.setPhase p)) (phaseDelta : ∀ p, P (.setPhaseDelta p)) :
    ∀ i ∈ v.instructions bank, P i := by
  intro i hi
  simp only [instructions, List.mem_append, Option.mem_toList, Option.map_eq_some_iff] at hi
  rcases hi with ((⟨_, _, rfl⟩ | ⟨_, _, rfl⟩) | ⟨_, _, rfl⟩) | ⟨_, _, rfl⟩
  · exact gain _ _
  · exact offset _ _
  · exact phase _
  · exact phaseDelta _

/-- There are values for those registers, and for no others, that are to be set. -/
structure Present (v : RegisterValues) (m : Modulations Float) : Prop where
  gain : v.gain.isSome = m.gain.isSome
  offset : v.offset.isSome = m.offset.isSome
  phase : v.phase.isSome = m.phase.isSome
  phaseDelta : v.phaseDelta.isSome = m.phaseDelta.isSome

end RegisterValues

namespace Traits

/-- The immediate of a normalized value. -/
def immediate (t : Traits) (value : Float) : Int :=
  Number.toInteger Dyadic.truncate (value * Float.ofNat t.immediateMax / 2.0)

/-- The immediate of a gain, which is given in volts. -/
def gainImmediate (t : Traits) (volts : Float) : Int := t.immediate (volts / t.outputVolt)

/-- The operands of an angle. -/
def phase (t : Traits) (degrees : Float) : Phase :=
  .stages t ((Number.wrap 360 degrees / 360.0 * Float.ofNat t.fullTurn).toUInt64.toNat % t.fullTurn)

end Traits

/-- The register values of modulations. A gain of the Q path counts only next to one of the I path,
which is used for both where it is the only one. -/
def Modulations.values (t : Traits) (m : Modulations Float) : RegisterValues where
  gain := m.gain.map fun gain => (t.gainImmediate gain, t.gainImmediate (m.gainQ.getD gain))
  offset := m.offset.map t.immediate
  phase := m.phase.map t.phase
  phaseDelta := m.phaseDelta.map t.phase

theorem Modulations.present_values (t : Traits) (m : Modulations Float) :
    (m.values t).Present m where
  gain := Option.isSome_map
  offset := Option.isSome_map
  phase := Option.isSome_map
  phaseDelta := Option.isSome_map

/-- The instruction that plays, or acquires with, the waveform in a slot. -/
def Slot.instruction (slot : Slot) (duration : Nat) : Instruction :=
  match slot.bank with
  | .awg => .play slot.pathI slot.pathQ duration
  | .acq => .acquire slot.pathI slot.pathQ duration

/-- Durations of which all but the last are as long as they can be. -/
def Spread (limit : Nat) (durations : List Nat) : Prop :=
  ∀ duration ∈ durations.dropLast, duration = limit

theorem spread_nil (limit : Nat) : Spread limit [] := by
  intro duration h
  cases h

theorem spread_chunks (limit duration : Nat) : Spread limit (chunks limit duration) := by
  intro chunk h
  rw [dropLast_chunks] at h
  exact List.eq_of_mem_replicate h

/-- The statements of an entry with a waveform in a slot, labels and comments aside. An empty line
is `none`. The wait and the sound are each one time, spread over instructions. -/
def Slot.IsPassage (slot : Slot) (limit : Nat) (m : Modulations Float)
    (part : List (Option Instruction)) : Prop :=
  ∃ (waits : List Nat) (values : RegisterValues) (chunks : List Nat),
    Spread limit waits ∧ values.Present m ∧ chunks ≠ [] ∧ Spread limit chunks ∧
    part = waits.map (fun duration => some (.wait duration))
      ++ none :: (values.instructions slot.bank).map some
      ++ chunks.map fun duration => some (slot.instruction duration)

/-! ## Operations -/

namespace Operation

variable {t : Traits} {added : List Statement}

theorem eq_immediate_of_quantize {parameter : String} {value : Float} {i : Int}
    (h : quantize parameter t.immediateMax value = .ok i) : i = t.immediate value := by
  rw [quantize] at h
  split at h
  · cases h
  · exact (Except.ok.inj h).symm

theorem eq_phase_of_ofDegrees {degrees : Float} {phase : Phase}
    (h : Phase.ofDegrees t degrees = .ok phase) : phase = t.phase degrees := by
  obtain ⟨ticks, hticks, h⟩ := bind_eq_ok.mp h
  rw [ticksOfDegrees] at hticks
  rw [Phase.ofTicks] at h
  split at hticks
  · cases hticks
  split at h
  · rw [← Except.ok.inj h, ← Except.ok.inj hticks, Traits.phase]
  · cases h

theorem instructions_setGain {bank : Bank} {gainI : Float} {gainQ : Option Float}
    {comment : Option String} (h : (setGain bank gainI gainQ comment).statements t = .ok added) :
    added.map Statement.instruction?
      = [some (.setGain bank (t.gainImmediate gainI) (t.gainImmediate (gainQ.getD gainI)))] := by
  obtain ⟨i, hi, h⟩ := bind_eq_ok.mp h
  obtain rfl := eq_immediate_of_quantize hi
  cases gainQ with
  | none =>
    obtain rfl := Except.ok.inj h
    rfl
  | some own =>
    obtain ⟨q, hq, h⟩ := bind_eq_ok.mp h
    obtain rfl := eq_immediate_of_quantize hq
    obtain rfl := Except.ok.inj h
    rfl

theorem instructions_setOffset {bank : Bank} {offset : Float}
    (h : (setOffset bank offset).statements t = .ok added) :
    added.map Statement.instruction?
      = [some (.setOffset bank (t.immediate offset) (t.immediate offset))] := by
  obtain ⟨value, hvalue, h⟩ := bind_eq_ok.mp h
  obtain rfl := eq_immediate_of_quantize hvalue
  obtain rfl := Except.ok.inj h
  rfl

theorem instructions_setPhase {degrees : Float} (h : (setPhase degrees).statements t = .ok added) :
    added.map Statement.instruction? = [some (.setPhase (t.phase degrees))] := by
  obtain ⟨phase, hphase, h⟩ := bind_eq_ok.mp h
  obtain rfl := eq_phase_of_ofDegrees hphase
  obtain rfl := Except.ok.inj h
  rfl

theorem instructions_setPhaseDelta {degrees : Float}
    (h : (setPhaseDelta degrees).statements t = .ok added) :
    added.map Statement.instruction? = [some (.setPhaseDelta (t.phase degrees))] := by
  obtain ⟨phase, hphase, h⟩ := bind_eq_ok.mp h
  obtain rfl := eq_phase_of_ofDegrees hphase
  obtain rfl := Except.ok.inj h
  rfl

end Operation

/-! ## Steps -/

variable {t : Traits} {statements : List Statement}

/-- An operation that is only there for a setting that is present leaves at most one instruction. -/
theorem instructions_option {α : Type} {setting : Option α} {op : α → Operation}
    {make : α → Instruction} {context : Option Context}
    (hop : ∀ a added, (op a).statements t = .ok added →
      added.map Statement.instruction? = [some (make a)])
    (h : Encodes t ((setting.map op).toList.map (.emit context)) statements) :
    statements.map Statement.instruction? = (setting.map make).toList.map some := by
  cases setting with
  | none =>
    obtain rfl := encodes_nil.mp h
    rfl
  | some a => exact hop a statements (encodes_emit.mp h)

namespace CompiledResource

variable {r : CompiledResource} {settings : Settings}

theorem instructions_waitSteps {context : Context} {duration : Int} {comment : String}
    (h : Encodes t (waitSteps settings context duration comment) statements) :
    ∃ waits : List Nat, Spread t.immediateMax waits ∧
      statements.map Statement.instruction? = waits.map fun duration => some (.wait duration) := by
  rw [waitSteps] at h
  split at h
  · exact ⟨_, spread_chunks _ _, Operation.instructions_timed (encodes_emit.mp h)⟩
  · obtain rfl := encodes_nil.mp h
    exact ⟨[], spread_nil _, rfl⟩

theorem instructions_modulate {context : Option Context} {bank : Bank} {m : Modulations Float}
    (h : Encodes t ((modulate settings bank m).map (.emit context)) statements) :
    statements.map Statement.instruction? = ((m.values t).instructions bank).map some := by
  simp only [modulate, List.map_append] at h
  obtain ⟨_, _, hthree, hdelta, rfl⟩ := encodes_append.mp h
  obtain ⟨_, _, htwo, hphase, rfl⟩ := encodes_append.mp hthree
  obtain ⟨_, _, hgain, hoffset, rfl⟩ := encodes_append.mp htwo
  simp only [List.map_append, instructions_option (fun _ _ => Operation.instructions_setGain) hgain,
    instructions_option (fun _ _ => Operation.instructions_setOffset) hoffset,
    instructions_option (fun _ _ => Operation.instructions_setPhase) hphase,
    instructions_option (fun _ _ => Operation.instructions_setPhaseDelta) hdelta,
    RegisterValues.instructions, Modulations.values, Option.map_map, Function.comp_def]

theorem instructions_sound {slot : Slot} {duration : Nat}
    (h : (sound slot duration).statements t = .ok statements) :
    statements.map Statement.instruction?
      = (chunks t.immediateMax duration).map fun duration => some (slot.instruction duration) := by
  rw [sound] at h
  cases hbank : slot.bank with
  | awg =>
    simp only [hbank] at h
    simpa only [Slot.instruction, hbank] using Operation.instructions_timed h
  | acq =>
    simp only [hbank] at h
    simpa only [Slot.instruction, hbank] using Operation.instructions_timed h

/-- What the steps of an entry are encoded as. -/
theorem instructions_entrySteps {e : Entry} {wait duration : Int}
    (h : Encodes t (r.entrySteps settings e wait duration) statements) :
    ∃ slot waits, r.memory.lookup e.key = some slot ∧ Spread t.immediateMax waits ∧
      statements.map Statement.instruction?
        = waits.map (fun duration => some (.wait duration))
          ++ none :: ((e.modulations.values t).instructions slot.bank).map some
          ++ (chunks t.immediateMax duration.toNat).map fun duration =>
            some (slot.instruction duration) := by
  simp only [entrySteps] at h
  obtain ⟨waiting, rest, hwait, hrest, rfl⟩ := encodes_append.mp h
  obtain ⟨blank, rest, hblank, hsound, rfl⟩ := encodes_cons.mp hrest
  cases hslot : r.memory.lookup e.key with
  | none =>
    rw [hslot] at hsound
    exact absurd hsound not_encodes_fail
  | some slot =>
    simp only [hslot, List.map_append, List.map_cons, List.map_nil] at hsound
    obtain ⟨setting, playing, hset, hplay, rfl⟩ := encodes_append.mp hsound
    obtain rfl := Except.ok.inj (Step.encode_emit_eq_ok.mp hblank)
    obtain ⟨waits, hspread, hwaits⟩ := instructions_waitSteps hwait
    refine ⟨slot, waits, rfl, hspread, ?_⟩
    simp only [List.map_append, List.map_cons, hwaits, instructions_modulate hset,
      instructions_sound (encodes_emit.mp hplay), List.append_assoc, List.cons_append,
        List.nil_append]
    rfl

/-- The steps of an entry are its part. -/
theorem entrySteps_passage {e : Entry} {wait duration : Int}
    (h : Encodes t (r.entrySteps settings e wait duration) statements) :
    ∃ slot, r.memory.lookup e.key = some slot ∧
      slot.IsPassage t.immediateMax e.modulations (statements.map Statement.instruction?) := by
  obtain ⟨slot, waits, hslot, hspread, hstatements⟩ := instructions_entrySteps h
  exact ⟨slot, hslot, waits, e.modulations.values t, _, hspread, e.modulations.present_values t,
    chunks_ne_nil _ _, spread_chunks _ _, hstatements⟩

/-- A list of parts, one for each entry and in the order of the entries. -/
def Passages (r : CompiledResource) (limit : Nat) (entries : List Entry)
    (parts : List (List Statement)) : Prop :=
  List.Forall₂ (fun e part => ∃ slot, r.memory.lookup e.key = some slot ∧
    slot.IsPassage limit e.modulations (part.map Statement.instruction?)) entries parts

/-- **The walk over the entries is one part per entry**, in the order of the entries and nothing
else. -/
theorem walk_passages {previous : Option Entry} {clock : Int} {entries : List Entry}
    (h : Encodes t (r.walk settings previous clock entries).1 statements) :
    ∃ parts, statements = parts.flatten ∧ r.Passages t.immediateMax entries parts := by
  induction entries generalizing previous clock statements with
  | nil =>
    obtain rfl := encodes_nil.mp h
    exact ⟨[], rfl, .nil⟩
  | cons e rest ih =>
    obtain ⟨-, waveform, -, hwalk⟩ := encodes_walk_cons h
    rw [hwalk] at h
    obtain ⟨now, later, hnow, hlater, rfl⟩ := encodes_append.mp h
    obtain ⟨parts, rfl, hparts⟩ := ih hlater
    exact ⟨now :: parts, rfl, .cons (entrySteps_passage hnow) hparts⟩

/-- The padding is one wait, spread over instructions. -/
theorem instructions_padding {remaining : Int}
    (h : Encodes t (r.padding settings remaining) statements) :
    ∃ waits : List Nat, Spread t.immediateMax waits ∧
      statements.map Statement.instruction? = waits.map fun duration => some (.wait duration) := by
  rw [padding] at h
  split at h
  · exact instructions_waitSteps h
  · obtain rfl := encodes_nil.mp h
    exact ⟨[], spread_nil _, rfl⟩

/-- **A program is a frame around the parts of its entries.** -/
theorem program_passages {duration : Int} {p : Program} (h : r.program duration settings = .ok p) :
    ∃ (parts : List (List Statement)) (pad : List Statement) (waits : List Nat),
      p.statements
        = [.commented none .waitSync (settings.comment "#Sync with other sequencers"),
            .commented (some startLabel) (.setMarker 1) none] ++ (parts.flatten ++ (pad ++
          [.lineBreak,
            .commented none (.jump startLabel) (settings.comment "#Loop back to start")])) ∧
      r.Passages r.traits.immediateMax r.entries parts ∧
      Spread r.traits.immediateMax waits ∧
      pad.map Statement.instruction? = waits.map fun duration => some (.wait duration) := by
  obtain ⟨-, body, pad, hstatements, hbody, hpad⟩ := encodes_plan_eq (encodes_program h)
  obtain ⟨parts, rfl, hparts⟩ := walk_passages hbody
  obtain ⟨waits, hspread, hwaits⟩ := instructions_padding hpad
  exact ⟨parts, pad, waits, hstatements, hparts, hspread, hwaits⟩

/-! ## Labels, jumps and moves -/

/-- Entries that can be encoded have been sampled and have a place. -/
theorem ready_of_encodes {previous : Option Entry} {clock : Int} {entries : List Entry}
    (sorted : entries.Pairwise fun a b => a.time ≤ b.time)
    (h : Encodes t (r.walk settings previous clock entries).1 statements) :
    r.Ready entries ∧ ∀ e ∈ entries, clock ≤ e.time := by
  induction entries generalizing previous clock statements with
  | nil => exact ⟨⟨sorted, by simp, by simp⟩, by simp⟩
  | cons e rest ih =>
    obtain ⟨hclock, waveform, hw, hwalk⟩ := encodes_walk_cons h
    have hlater : ∀ later ∈ rest, e.time ≤ later.time := (List.pairwise_cons.mp sorted).1
    rw [hwalk] at h
    obtain ⟨now, later, hnow, hrest, rfl⟩ := encodes_append.mp h
    obtain ⟨slot, hslot, -⟩ := entrySteps_passage hnow
    obtain ⟨hready, -⟩ := ih (List.pairwise_cons.mp sorted).2 hrest
    refine ⟨⟨sorted, ?_, ?_⟩, ?_⟩
    · exact List.forall_mem_cons.mpr ⟨⟨waveform, hw⟩, hready.sampled⟩
    · exact List.forall_mem_cons.mpr ⟨⟨slot, hslot⟩, hready.allocated⟩
    · refine List.forall_mem_cons.mpr ⟨hclock, fun later hmem => ?_⟩
      have := hlater later hmem
      omega

/-- A program has one label and one jump, which goes there. -/
theorem labels_program {duration : Int} {p : Program}
    (sorted : r.entries.Pairwise fun a b => a.time ≤ b.time)
    (h : r.program duration settings = .ok p) :
    p.labels = [startLabel] ∧ p.targets = [startLabel] := by
  have hplan := encodes_program h
  obtain ⟨hfinish, body, -, -, hbody, -⟩ := encodes_plan_eq hplan
  obtain ⟨hready, hstart⟩ := ready_of_encodes sorted hbody
  exact labels_of_encodes hready hfinish hstart hplan

/-- No part moves anything into a register. -/
theorem not_move_of_isPassage {slot : Slot} {limit : Nat} {m : Modulations Float}
    {part : List (Option Instruction)} (h : slot.IsPassage limit m part) (source : Int)
    (target : String) : some (.move source target) ∉ part := by
  obtain ⟨waits, values, chunks, -, -, -, -, rfl⟩ := h
  intro hmem
  rcases List.mem_append.mp hmem with hmem | hmem
  · rcases List.mem_append.mp hmem with hmem | hmem
    · obtain ⟨duration, -, hwait⟩ := List.mem_map.mp hmem
      cases hwait
    · rcases List.mem_cons.mp hmem with hblank | hmem
      · cases hblank
      · obtain ⟨i, hi, hmove⟩ := List.mem_map.mp hmem
        obtain rfl := Option.some.inj hmove
        exact RegisterValues.forall_mem_instructions (P := (· ≠ .move source target))
          (fun _ _ h => by cases h) (fun _ _ h => by cases h) (fun _ h => by cases h)
          (fun _ h => by cases h) _ hi rfl
  · obtain ⟨duration, -, hsound⟩ := List.mem_map.mp hmem
    rw [Slot.instruction] at hsound
    split at hsound <;> cases hsound

theorem not_move_program {duration : Int} {p : Program} (h : r.program duration settings = .ok p)
    {s : Statement} (hs : s ∈ p.statements) (source : Int) (target : String) :
    s.instruction? ≠ some (.move source target) := by
  obtain ⟨parts, pad, waits, hstatements, hparts, -, hwaits⟩ := program_passages h
  intro hmove
  rw [hstatements] at hs
  simp only [List.mem_append, List.mem_cons, List.not_mem_nil, or_false] at hs
  rcases hs with (rfl | rfl) | hs | hs | rfl | rfl
  · cases hmove
  · cases hmove
  · obtain ⟨part, hpart, hs⟩ := List.mem_flatten.mp hs
    obtain ⟨e, -, slot, -, hpassage⟩ := exists_of_mem_right hparts hpart
    exact not_move_of_isPassage hpassage source target (hmove ▸ List.mem_map_of_mem hs)
  · have hmem : s.instruction? ∈ pad.map Statement.instruction? := List.mem_map_of_mem hs
    rw [hwaits, hmove] at hmem
    obtain ⟨_, -, hwait⟩ := List.mem_map.mp hmem
    cases hwait
  · cases hmove
  · cases hmove

/-- **The shape of every program.** It waits for the other sequencers and marks the start; then, for
each entry in order, it waits, leaves a line empty, sets the registers that the entry sets in the
order gain, offset, phase and phase increment, those of a bank in the bank of the entry's waveform,
and sounds that waveform from one pair of slots; then it waits, leaves a line empty and jumps back
to the start. The start is the only label, that jump the only one, and nothing is moved. Each wait
and each sound is one time, spread over instructions of which all but the last are full. -/
theorem program_shape {duration : Int} {p : Program}
    (sorted : r.entries.Pairwise fun a b => a.time ≤ b.time)
    (h : r.program duration settings = .ok p) :
    (∃ (parts : List (List Statement)) (pad : List Statement) (waits : List Nat),
      p.statements
        = [.commented none .waitSync (settings.comment "#Sync with other sequencers"),
            .commented (some startLabel) (.setMarker 1) none] ++ (parts.flatten ++ (pad ++
          [.lineBreak,
            .commented none (.jump startLabel) (settings.comment "#Loop back to start")])) ∧
      r.Passages r.traits.immediateMax r.entries parts ∧
      Spread r.traits.immediateMax waits ∧
      pad.map Statement.instruction? = waits.map fun duration => some (.wait duration)) ∧
    p.labels = [startLabel] ∧ p.targets = [startLabel] ∧
    ∀ s ∈ p.statements, ∀ source target, s.instruction? ≠ some (.move source target) := by
  obtain ⟨hlabels, htargets⟩ := labels_program sorted h
  exact ⟨program_passages h, hlabels, htargets, fun s hs => not_move_program h hs⟩

/-- A waveform that is played with a gain and a phase, and acquired with after a wait that is too
long for one instruction, with an offset and a phase increment. -/
def modulated : CompiledResource :=
  { sample with
    entries :=
      [⟨0, ⟨"a"⟩, { Modulations.none with gain := some 0.5, phase := some 90 }⟩,
       ⟨70000, ⟨"b"⟩, { Modulations.none with offset := some 0.25, phaseDelta := some 45 }⟩] }

theorem program_shape_modulated :
    ∃ p, modulated.program 70010 .standard = .ok p ∧
      p.statements.map Statement.instruction?
        = [some .waitSync, some (.setMarker 1), none, some (.setGain .awg 6553 6553),
          some (.setPhase ⟨100, 0, 0⟩),
           some (.play 0 1 6), some (.wait 65535), some (.wait 4459), none,
             some (.setOffset .acq 8191 8191),
           some (.setPhaseDelta ⟨50, 0, 0⟩), some (.acquire 0 1 4), some (.wait 6), none,
             some (.jump startLabel)] ∧
      p.labels = [startLabel] ∧ p.targets = [startLabel] := by
  have h : modulated.program 70010 .standard = .ok _ := rfl
  obtain ⟨-, hlabels, htargets, -⟩ := program_shape (by decide) h
  exact ⟨_, h, by decide +kernel, hlabels, htargets⟩

end CompiledResource

end Sequencer
