import Mathlib.Logic.Function.Basic
import Sequencer.Proofs.MissingParameters
import Sequencer.Proofs.Outcome
import Sequencer.Proofs.Shape

/-!
# What the registers hold

A waveform is stored with unit amplitude. How loud it is, and in which phase, is left to registers
that are set before it is played, and a register that is not set keeps what an earlier entry has
left there. So the instructions of a program are executed here on a register file, and the file is
read whenever a waveform sounds.

There is one instruction for the gains of both paths. It is emitted for a gain of the I path only: a
gain of the Q path that stands alone is dropped, and everything else arrives. It stands alone for a
pulse with a derivative amplitude and no other. Normalization has taken that amplitude out of the
waveform, so there it is lost.

## Main definitions

* `Registers`, `Registers.run` — the register file, and its change by instructions
* `Registers.heard` — the instructions that sound, each with the registers at that time
* `Modulations.Applied` — what becomes of the registers
* `Modulations.asked` — what should become of them
* `CompiledResource.Heard` — each entry sounds with its modulations applied to what the entries
  before it have left

## Main results

* `Registers.run_instructions` — register values are written where they belong
* `Modulations.Applied.gainQ_eq_iff`, `Modulations.Applied.eq_asked_iff` — when a gain of the Q path
  arrives
* `CompiledResource.heard_program` — with which registers the entries of a program sound
* `Schedule.lone_gainQ_dropped` — all modulations of a schedule arrive, but for a gain of the Q path
  that stands alone
-/

namespace Sequencer

/-! ## The register file -/

/-- The registers of a bank. -/
@[ext]
structure BankRegisters where
  gainI : Int
  gainQ : Int
  offsetI : Int
  offsetQ : Int
deriving DecidableEq

/-- The registers of a sequencer that have to do with how a waveform sounds. -/
@[ext]
structure Registers where
  bank : Bank → BankRegisters
  phase : Phase
  phaseDelta : Phase

/-- The instructions during which a waveform sounds. -/
def Instruction.sounds : Instruction → Bool
  | .play .. | .acquire .. => true
  | _ => false

/-- The instructions of a program. -/
def Program.instructions (p : Program) : List Instruction :=
  p.statements.filterMap Statement.instruction?

namespace Registers

/-- The registers after an instruction. -/
def execute (before : Registers) : Instruction → Registers
  | .setGain bank i q =>
    { before with
      bank := Function.update before.bank bank
        { before.bank bank with gainI := i, gainQ := q } }
  | .setOffset bank i q =>
    { before with
      bank := Function.update before.bank bank
        { before.bank bank with offsetI := i, offsetQ := q } }
  | .setPhase phase => { before with phase := phase }
  | .setPhaseDelta phase => { before with phaseDelta := phase }
  | _ => before

/-- The registers after a list of instructions. -/
def run (before : Registers) (instructions : List Instruction) : Registers :=
  instructions.foldl execute before

/-- The instructions of a list that sound, each with the registers when it is reached. -/
def heard (before : Registers) : List Instruction → List (Instruction × Registers)
  | [] => []
  | i :: rest => (if i.sounds then [(i, before)] else []) ++ heard (before.execute i) rest

/-- The registers after register values have been written, those of a bank in a given one. -/
def write (before : Registers) (bank : Bank) (v : RegisterValues) : Registers where
  bank := Function.update before.bank bank
    { gainI := (v.gain.map Prod.fst).getD (before.bank bank).gainI
      gainQ := (v.gain.map Prod.snd).getD (before.bank bank).gainQ
      offsetI := v.offset.getD (before.bank bank).offsetI
      offsetQ := v.offset.getD (before.bank bank).offsetQ }
  phase := v.phase.getD before.phase
  phaseDelta := v.phaseDelta.getD before.phaseDelta

variable (before : Registers)

theorem run_append (xs ys : List Instruction) : before.run (xs ++ ys) = (before.run xs).run ys :=
  List.foldl_append

theorem heard_append (xs ys : List Instruction) :
    before.heard (xs ++ ys) = before.heard xs ++ (before.run xs).heard ys := by
  induction xs generalizing before with
  | nil => rfl
  | cons i xs ih => simp only [List.cons_append, heard, ih, List.append_assoc, run, List.foldl_cons]

theorem heard_eq_nil {xs : List Instruction} (h : ∀ i ∈ xs, i.sounds = false) :
    before.heard xs = [] := by
  induction xs generalizing before with
  | nil => rfl
  | cons i xs ih =>
    rw [heard, h i List.mem_cons_self,
      ih (before.execute i) fun j hj => h j (List.mem_cons_of_mem i hj)]
    rfl

theorem run_wait (waits : List Nat) : before.run (waits.map .wait) = before := by
  induction waits with
  | nil => rfl
  | cons _ _ ih => exact ih

theorem heard_wait (waits : List Nat) : before.heard (waits.map .wait) = [] := by
  refine before.heard_eq_nil fun i hi => ?_
  obtain ⟨duration, -, rfl⟩ := List.mem_map.mp hi
  rfl

/-- A sound changes no register. -/
theorem execute_sound (slot : Slot) (duration : Nat) :
    before.execute (slot.instruction duration) = before := by
  rw [Slot.instruction]
  split <;> rfl

theorem run_sound (slot : Slot) (durations : List Nat) :
    before.run (durations.map slot.instruction) = before := by
  induction durations with
  | nil => rfl
  | cons duration durations ih =>
    rw [List.map_cons, run, List.foldl_cons, execute_sound]
    exact ih

theorem heard_sound (slot : Slot) (durations : List Nat) :
    before.heard (durations.map slot.instruction)
      = durations.map fun duration => (slot.instruction duration, before) := by
  have hsounds : ∀ duration, (slot.instruction duration).sounds = true := fun duration => by
    rw [Slot.instruction]
    split <;> rfl
  induction durations with
  | nil => rfl
  | cons duration durations ih => simp [heard, hsounds, execute_sound, ih]

/-- **Register values are written where they belong**, and nowhere else. -/
theorem run_instructions (bank : Bank) (v : RegisterValues) :
    before.run (v.instructions bank) = before.write bank v := by
  obtain ⟨gain, offset, phase, phaseDelta⟩ := v
  simp only [RegisterValues.instructions, run_append, write]
  cases gain <;> cases offset <;> cases phase <;> cases phaseDelta <;> simp [run, execute]

theorem heard_instructions (bank : Bank) (v : RegisterValues) :
    before.heard (v.instructions bank) = [] :=
  before.heard_eq_nil
    (RegisterValues.forall_mem_instructions (fun _ _ => rfl) (fun _ _ => rfl) (fun _ => rfl)
      fun _ => rfl)

end Registers

/-! ## Modulations -/

namespace Modulations

variable {m : Modulations Float} {t : Traits} {bank : Bank} {before after : Registers}

/-- What becomes of the registers. A gain of the Q path is looked at only next to one of the I
path. -/
structure Applied (m : Modulations Float) (t : Traits) (bank : Bank) (before after : Registers) :
    Prop where
  gainI : (after.bank bank).gainI = (m.gain.map t.gainImmediate).getD (before.bank bank).gainI
  gainQ : (after.bank bank).gainQ
    = (m.gain.map fun gain => t.gainImmediate (m.gainQ.getD gain)).getD (before.bank bank).gainQ
  offsetI : (after.bank bank).offsetI = (m.offset.map t.immediate).getD (before.bank bank).offsetI
  offsetQ : (after.bank bank).offsetQ = (m.offset.map t.immediate).getD (before.bank bank).offsetQ
  phase : after.phase = (m.phase.map t.phase).getD before.phase
  phaseDelta : after.phaseDelta = (m.phaseDelta.map t.phase).getD before.phaseDelta
  other : ∀ other, other ≠ bank → after.bank other = before.bank other

/-- What should become of the registers: each is set to the value of its own modulation, if that is
present, and kept otherwise. The gain of the Q path is that of the I path where it has none of its
own. -/
def asked (m : Modulations Float) (t : Traits) (bank : Bank) (before : Registers) : Registers where
  bank := Function.update before.bank bank
    { gainI := (m.gain.map t.gainImmediate).getD (before.bank bank).gainI
      gainQ := ((m.gainQ.or m.gain).map t.gainImmediate).getD (before.bank bank).gainQ
      offsetI := (m.offset.map t.immediate).getD (before.bank bank).offsetI
      offsetQ := (m.offset.map t.immediate).getD (before.bank bank).offsetQ }
  phase := (m.phase.map t.phase).getD before.phase
  phaseDelta := (m.phaseDelta.map t.phase).getD before.phaseDelta

theorem applied_write (m : Modulations Float) (t : Traits) (bank : Bank) (before : Registers) :
    m.Applied t bank before (before.write bank (m.values t)) where
  gainI := by simp [Registers.write, values, Function.comp_def]
  gainQ := by simp [Registers.write, values, Function.comp_def]
  offsetI := by simp [Registers.write, values]
  offsetQ := by simp [Registers.write, values]
  phase := rfl
  phaseDelta := rfl
  other := fun _ h => Function.update_of_ne h _ _

namespace Applied

/-- **A gain of the Q path arrives next to one of the I path**, or if it was there already. -/
theorem gainQ_eq_iff (h : m.Applied t bank before after) {gainQ : Float}
    (hgainQ : m.gainQ = some gainQ) :
    (after.bank bank).gainQ = t.gainImmediate gainQ ↔
      m.gain.isSome = true ∨ (before.bank bank).gainQ = t.gainImmediate gainQ := by
  rw [h.gainQ, hgainQ]
  cases m.gain <;> simp

/-- All registers but one are as they should be. -/
theorem eq_asked_iff_gainQ (h : m.Applied t bank before after) :
    after = m.asked t bank before ↔
      (after.bank bank).gainQ = ((m.asked t bank before).bank bank).gainQ := by
  constructor
  · intro heq
    rw [← heq]
  · intro hgainQ
    refine Registers.ext (funext fun other => ?_) h.phase h.phaseDelta
    by_cases hother : other = bank
    · subst hother
      refine BankRegisters.ext ?_ hgainQ ?_ ?_
      · simp [asked, h.gainI]
      · simp [asked, h.offsetI]
      · simp [asked, h.offsetQ]
    · exact (h.other other hother).trans (Function.update_of_ne hother _ _).symm

/-- **The registers are as they should be, unless a gain of the Q path stands alone** and was not
there already. -/
theorem eq_asked_iff (h : m.Applied t bank before after) :
    after = m.asked t bank before ↔
      (m.gain = Option.none →
        ∀ gainQ ∈ m.gainQ, (before.bank bank).gainQ = t.gainImmediate gainQ) := by
  have hasked : ((m.asked t bank before).bank bank).gainQ
      = ((m.gainQ.or m.gain).map t.gainImmediate).getD (before.bank bank).gainQ := by simp [asked]
  rw [h.eq_asked_iff_gainQ, h.gainQ, hasked]
  cases m.gain <;> cases m.gainQ <;> simp

end Applied

end Modulations

/-! ## Programs -/

theorem exists_encodes_of_faults {t : Traits} {ops : List Operation} (context : Option Context)
    (h : (ops.findSome? fun op => fault (op.statements t)) = none) :
    ∃ statements, Encodes t (ops.map (.emit context)) statements := by
  have hfault : fault ((ops.map (Step.emit context)).mapM (Step.encode t)) = none := by
    rw [fault_mapM, List.findSome?_map, List.findSome?_eq_none_iff]
    intro op hop
    rw [Function.comp_apply, Step.encode, fault_mapError, List.findSome?_eq_none_iff.mp h op hop]
    rfl
  obtain ⟨parts, hparts⟩ := fault_eq_none_iff.mp hfault
  exact ⟨parts.flatten, parts, hparts, rfl⟩

namespace CompiledResource

variable {r : CompiledResource} {settings : Settings}

/-- Entries sound one after the other, each at least once and with its modulations applied to what
the one before it has left. -/
inductive Heard (r : CompiledResource) :
    Registers → List Entry → List (Instruction × Registers) → Prop
  | nil (before : Registers) : r.Heard before [] []
  | cons {before after : Registers} {e : Entry} {rest : List Entry} {slot : Slot}
      {durations : List Nat} {later : List (Instruction × Registers)} :
      r.memory.lookup e.key = some slot →
      e.modulations.Applied r.traits slot.bank before after → durations ≠ [] →
      r.Heard after rest later →
      r.Heard before (e :: rest)
        (durations.map (fun duration => (slot.instruction duration, after)) ++ later)

/-- Instructions do not depend on labels, comments and empty lines. -/
theorem filterMap_instruction? {statements : List Statement}
    {instructions : List (Option Instruction)}
    (h : statements.map Statement.instruction? = instructions) :
    statements.filterMap Statement.instruction? = instructions.filterMap id := by
  rw [← h, List.filterMap_map, Function.id_comp]

/-- **Modulations in range are encoded, and applied when that is executed.** -/
theorem exists_encodes_modulate {t : Traits} (ht : t.ResolvesPhase) {m : Modulations Float}
    (hm : m.InRange t.outputVolt) (settings : Settings) (context : Option Context) (bank : Bank) :
    ∃ statements, Encodes t ((modulate settings bank m).map (.emit context)) statements ∧
      ∀ before : Registers, m.Applied t bank before
        (before.run (statements.filterMap Statement.instruction?)) := by
  have hfaults := (faults_modulate ht settings bank m).trans (Modulations.fault_eq_none_iff.mpr hm)
  obtain ⟨statements, hstatements⟩ := exists_encodes_of_faults context hfaults
  refine ⟨statements, hstatements, fun before => ?_⟩
  have hwrite : statements.filterMap Statement.instruction? = (m.values t).instructions bank := by
    rw [filterMap_instruction? (instructions_modulate hstatements), List.filterMap_map,
      Function.id_comp, List.filterMap_some]
  rw [hwrite, Registers.run_instructions]
  exact m.applied_write t bank before

/-- The instructions of an entry are its waits, its register values and its sound. -/
theorem filterMap_entrySteps {statements : List Statement} {e : Entry} {wait duration : Int}
    (h : Encodes r.traits (r.entrySteps settings e wait duration) statements) :
    ∃ (slot : Slot) (waits : List Nat), r.memory.lookup e.key = some slot ∧
      statements.filterMap Statement.instruction?
        = waits.map Instruction.wait ++ (e.modulations.values r.traits).instructions slot.bank
          ++ (chunks r.traits.immediateMax duration.toNat).map slot.instruction := by
  obtain ⟨slot, waits, hslot, -, hstatements⟩ := instructions_entrySteps h
  refine ⟨slot, waits, hslot, ?_⟩
  rw [filterMap_instruction? hstatements]
  simp [List.filterMap_map]

/-- **The entries of a walk sound with their own modulations.** -/
theorem heard_walk {statements : List Statement} {previous : Option Entry} {clock : Int}
    {entries : List Entry}
    (h : Encodes r.traits (r.walk settings previous clock entries).1 statements)
    (before : Registers) :
    r.Heard before entries (before.heard (statements.filterMap Statement.instruction?)) := by
  induction entries generalizing previous clock statements before with
  | nil =>
    obtain rfl := encodes_nil.mp h
    exact .nil before
  | cons e rest ih =>
    obtain ⟨-, waveform, -, hwalk⟩ := encodes_walk_cons h
    rw [hwalk] at h
    obtain ⟨now, later, hnow, hlater, rfl⟩ := encodes_append.mp h
    obtain ⟨slot, waits, hslot, hinstructions⟩ := filterMap_entrySteps hnow
    have hlast := ih hlater (before.write slot.bank (e.modulations.values r.traits))
    rw [List.filterMap_append, hinstructions]
    simp only [Registers.heard_append, Registers.run_append, Registers.heard_wait,
      Registers.run_wait, Registers.heard_instructions, Registers.run_instructions,
      Registers.heard_sound, Registers.run_sound, List.nil_append]
    exact .cons hslot (e.modulations.applied_write _ _ _) (chunks_ne_nil _ _) hlast

/-- **The entries of a program sound with their own modulations**, in a pass that starts with any
registers. -/
theorem heard_program {duration : Int} {p : Program} (h : r.program duration settings = .ok p)
    (before : Registers) : r.Heard before r.entries (before.heard p.instructions) := by
  obtain ⟨-, body, pad, hstatements, hbody, hpad⟩ := encodes_plan_eq (encodes_program h)
  obtain ⟨waits, -, hwaits⟩ := instructions_padding hpad
  have hpad' : pad.filterMap Statement.instruction? = waits.map Instruction.wait := by
    rw [filterMap_instruction? hwaits]
    simp [List.filterMap_map]
  have hinstructions : p.instructions
      = [.waitSync, .setMarker 1] ++ (body.filterMap Statement.instruction? ++
          (waits.map Instruction.wait ++ [.jump startLabel])) := by
    rw [Program.instructions, hstatements]
    simp only [List.filterMap_append, hpad']
    rfl
  have hframe : before.heard p.instructions
      = before.heard (body.filterMap Statement.instruction?) := by
    rw [hinstructions]
    simp only [Registers.heard_append, Registers.heard_wait, Registers.run_wait]
    simp [Registers.heard, Registers.run, Registers.execute, Instruction.sounds]
  rw [hframe]
  exact heard_walk hbody before

end CompiledResource

/-! ## Schedules -/

namespace Schedule

/-- All modulations arrive, but for a gain of the Q path that stands alone. -/
structure LoneGainQDropped (s : Schedule) (settings : Settings) : Prop where
  /-- Modulations in range are encoded, and are applied when that is executed. -/
  applied :
    ∀ (kind : Resource.Kind) (bank : Bank) (context : Option Context) (m : Modulations Float),
    m.InRange kind.traits.outputVolt → ∃ statements,
      Encodes kind.traits ((CompiledResource.modulate settings bank m).map (.emit context))
        statements ∧
      ∀ before : Registers,
        m.Applied kind.traits bank before (before.run (statements.filterMap Statement.instruction?))
  /-- Then the registers are as they should be, unless a gain of the Q path stands alone and was not
  there already. -/
  asked_iff : ∀ (t : Traits) (bank : Bank) (m : Modulations Float) (before after : Registers),
    m.Applied t bank before after → (after = m.asked t bank before ↔
      (m.gain = none → ∀ gainQ ∈ m.gainQ, (before.bank bank).gainQ = t.gainImmediate gainQ))
  /-- Every entry of a program sounds with its modulations applied to what the entries before it
  have left. -/
  heard : ∀ (r : CompiledResource) (duration : Int) (p : Program),
    r.program duration settings = .ok p →
    ∀ before : Registers, r.Heard before r.entries (before.heard p.instructions)
  /-- A pulse with a derivative has an entry, whose gains are its amplitudes. So its derivative
  amplitude arrives if it has the other one, or if it was there already. -/
  drag : ∀ library compiled, s.compile library settings = .ok compiled →
    ∀ p, s.Sounds p "drag" .drag →
    ∃ r ∈ compiled.resources, ∃ e ∈ r.entries, p.goesTo settings r.name = true ∧
      e.modulations.gain = p.gaussAmplitude ∧ e.modulations.gainQ = p.derivativeAmplitude ∧
      ∀ bank before after, e.modulations.Applied r.traits bank before after →
        ∀ gainQ ∈ p.derivativeAmplitude,
        ((after.bank bank).gainQ = r.traits.gainImmediate gainQ ↔
          p.gaussAmplitude.isSome = true ∨ (before.bank bank).gainQ = r.traits.gainImmediate gainQ)

/-- **All modulations arrive, but for a gain of the Q path that stands alone.** Whenever a waveform
sounds, every other register holds what it was last asked to hold. The amplitude of a derivative is
a gain of the Q path: it arrives with every pulse that has the other amplitude too, and is dropped
with one that has not. -/
theorem lone_gainQ_dropped (s : Schedule) (settings : Settings) : s.LoneGainQDropped settings where
  applied := fun kind bank context _ hm =>
    CompiledResource.exists_encodes_modulate kind.resolvesPhase_traits hm settings context bank
  asked_iff := fun _ _ _ _ _ h => h.eq_asked_iff
  heard := fun _ _ _ h before => CompiledResource.heard_program h before
  drag := by
    intro library compiled h p hp
    obtain ⟨r, hr, e, he, hgoes, hmodulations⟩ := exists_entry h hp
    have hgain : e.modulations.gain = p.gaussAmplitude := by rw [hmodulations]; rfl
    have hgainQ : e.modulations.gainQ = p.derivativeAmplitude := by rw [hmodulations]; rfl
    refine ⟨r, hr, e, he, hgoes, hgain, hgainQ, fun bank before after happlied gainQ hmem => ?_⟩
    rw [← hgain]
    exact happlied.gainQ_eq_iff (hgainQ.trans hmem)

end Schedule

/-- A drag pulse. An amplitude may be missing. -/
def Pulse.dragging (gauss derivative : Option Float) : Pulse Float :=
  { Pulse.silent (some "q0") 0 20e-9 with
    function := some "drag", gaussAmplitude := gauss, derivativeAmplitude := derivative }

namespace CompiledResource

/-- A drag pulse, followed by one that has the derivative amplitude only. -/
def muted : CompiledResource :=
  { sample with
    entries :=
      [⟨0, ⟨"a"⟩, ((Pulse.dragging (some 0.5) (some 0.25)).split .drag).1⟩,
       ⟨10, ⟨"a"⟩, ((Pulse.dragging none (some 0.1)).split .drag).1⟩]
    finish := 16 }

/-- **A derivative amplitude that does not arrive.** The second pulse asks for 1310 on the Q path,
in range and by its normalization, and sounds with the 3276 that the first has left there. -/
theorem muted_gainQ_dropped :
    (∃ normalized, (Pulse.dragging none (some 0.1)).normalize
      = .ok ({ Modulations.none with gainQ := some 0.1 }, normalized)) ∧
    Normalized (0.1 / muted.traits.outputVolt) ∧ muted.traits.gainImmediate 0.1 = 1310 ∧
    ∃ p, muted.program 20 .standard = .ok p ∧ ∀ before : Registers,
      (before.heard p.instructions).map
        (fun now => (now.1, (now.2.bank .awg).gainI, (now.2.bank .awg).gainQ))
        = [(.play 0 1 6, 6553, 3276), (.play 0 1 6, 6553, 3276)] := by
  have hprogram : (muted.program 20 .standard).toOption.map Program.instructions
      = some [.waitSync, .setMarker 1, .setGain .awg 6553 3276, .play 0 1 6, .wait 4, .play 0 1 6,
        .wait 4, .jump startLabel] := by decide +kernel
  obtain ⟨p, hp, hinstructions⟩ := exists_ok_of_toOption hprogram
  refine ⟨⟨_, rfl⟩, by decide +kernel, by decide +kernel, p, hp, fun before => ?_⟩
  rw [hinstructions]
  rfl

end CompiledResource

end Sequencer
