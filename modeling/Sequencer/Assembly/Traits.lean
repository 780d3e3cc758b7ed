/-!
# Sequencer traits

The numbers that a kind of sequencer fixes: the range of its immediates, the shortest instruction,
the resolution of its phase registers, its output voltage and its waveform memory. Phases are
counted in ticks, and a full turn is divided in three stages, each `lutDepth` times finer than the
one before.

## Main definitions

* `Traits` — the numbers, with `Traits.controlModule` and `Traits.readoutModule`
* `Traits.fullTurn`, `Traits.coarseFactor`, `Traits.fineFactor` — ticks in a turn and in a step of
  the two upper stages
* `Traits.ResolvesPhase` — when phases can be divided into the three stages
-/

namespace Sequencer

/-- What a kind of sequencer fixes about its programs. -/
structure Traits where
  /-- The largest duration one instruction can carry. -/
  immediateMax : Nat
  /-- The shortest duration, in clock cycles, of a timed instruction. -/
  minDuration : Nat
  /-- Samples per clock cycle. -/
  samplePathWidth : Nat
  /-- The clock frequency in megahertz. -/
  clockMegahertz : Nat
  /-- The number of steps into which a phase stage divides the one before it. -/
  lutDepth : Nat
  /-- The full-scale output voltage, by which gains are divided. -/
  outputVolt : Float
  /-- Waveform slots per memory bank, one for each I or Q path. -/
  slotCapacity : Nat

namespace Traits

/-- Ticks in a full turn: one for each sample of a second. -/
def fullTurn (t : Traits) : Nat := t.samplePathWidth * t.clockMegahertz * 1000000

/-- Ticks in one coarse step. -/
def coarseFactor (t : Traits) : Nat := t.fullTurn / t.lutDepth

/-- Ticks in one fine step. It is zero exactly when some stage has no ticks to count. -/
def fineFactor (t : Traits) : Nat := t.coarseFactor / t.lutDepth

/-- Phases can be divided into stages: a turn fits in a register of 64 bits, and each stage has
ticks to count. -/
def ResolvesPhase (t : Traits) : Prop := t.fullTurn < 18446744073709551616 ∧ 0 < t.fineFactor

instance decidableResolvesPhase (t : Traits) : Decidable t.ResolvesPhase := instDecidableAnd

/-- The traits of a control module, which plays waveforms. -/
def controlModule : Traits where
  immediateMax := 65535
  minDuration := 4
  samplePathWidth := 4
  clockMegahertz := 250
  lutDepth := 400
  outputVolt := 2.5
  slotCapacity := 1024

/-- The traits of a readout module, which also acquires; it shares the numbers of a control
module. -/
def readoutModule : Traits := controlModule

theorem coarseFactor_pos_of_fineFactor_pos {t : Traits} (h : 0 < t.fineFactor) :
    0 < t.coarseFactor :=
  Nat.pos_of_ne_zero fun h0 => by simp [fineFactor, h0] at h

theorem fullTurn_pos_of_fineFactor_pos {t : Traits} (h : 0 < t.fineFactor) : 0 < t.fullTurn :=
  Nat.pos_of_ne_zero fun h0 => by
    have := coarseFactor_pos_of_fineFactor_pos h
    simp [coarseFactor, h0] at this

@[simp] theorem fineFactor_controlModule : controlModule.fineFactor = 6250 := by decide

@[simp] theorem resolvesPhase_controlModule : controlModule.ResolvesPhase := by decide

end Traits

end Sequencer
