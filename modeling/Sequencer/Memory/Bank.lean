import Sequencer.Memory.Cache

/-!
# Waveform memory

The waveforms of a resource are allocated in two banks, those of acquisitions in one and all others
in the other. One pass over the cache serves both: each waveform takes the next index of its bank,
and the one with the index `k` occupies the slots `2 k` and `2 k + 1`, one for each path.

## Main definitions

* `Allocation`, `Allocations`, `Allocations.place` — the waveforms of a bank, and placing one more
* `Memory`, `Memory.allocate` — both banks, and the memory of a cache
* `Slot`, `Memory.find`, `Memory.lookup` — where a waveform lies
-/

namespace Sequencer

/-- The place of a waveform: its bank, and its index there. -/
structure Slot where
  bank : Bank
  index : Nat
deriving DecidableEq

namespace Slot

/-- The memory slot of the I path. -/
def pathI (s : Slot) : Nat := 2 * s.index

/-- The memory slot of the Q path. -/
def pathQ (s : Slot) : Nat := 2 * s.index + 1

end Slot

/-- A waveform in a bank, with the index that it has been given. -/
structure Allocation where
  index : Nat
  waveform : Waveform Float

/-- The waveforms of a bank by content, in the order in which they were placed. -/
abbrev Allocations := OrderedMap ContentKey Allocation

namespace Allocations

/-- The number of slots in use. -/
def slots (a : Allocations) : Nat := 2 * a.size

/-- The number of indices that there are: an index is written in 32 bits. -/
def indexLimit : Nat := 4294967296

/-- Place a waveform, at the next index unless its content has one already. Returns that index and
the bank afterwards. -/
def place (a : Allocations) (key : ContentKey) (waveform : Waveform Float) :
    Except CompileError (Nat × Allocations) :=
  match a.get? key with
  | some existing => .ok (existing.index, a)
  | none =>
    if a.size < indexLimit then .ok (a.size, a.insert key ⟨a.size, waveform⟩) else .error .unindexed

end Allocations

/-- The two banks of a resource. -/
structure Memory where
  awg : Allocations
  acq : Allocations

namespace Memory

/-- A memory without waveforms. -/
def empty : Memory := ⟨.empty, .empty⟩

/-- The waveforms of a bank. -/
def bank (m : Memory) : Bank → Allocations
  | .awg => m.awg
  | .acq => m.acq

/-- A memory with other waveforms in a bank. -/
def set (m : Memory) (bank : Bank) (a : Allocations) : Memory :=
  match bank with
  | .awg => { m with awg := a }
  | .acq => { m with acq := a }

/-- The number of slots in use in a bank. -/
def slots (m : Memory) (bank : Bank) : Nat := (m.bank bank).slots

/-- The bank of a content: the second one if it is acquired. -/
def bankFor (acquisitions : List ContentKey) (key : ContentKey) : Bank :=
  if key ∈ acquisitions then .acq else .awg

/-- Place a waveform of a cache in its bank. -/
def place (acquisitions : List ContentKey) (m : Memory) (entry : ContentKey × Waveform Float) :
    Except CompileError Memory := do
  let bank := bankFor acquisitions entry.1
  let (_, a) ← (m.bank bank).place entry.1 entry.2
  return m.set bank a

/-- Check that a bank has enough slots. -/
def fits (m : Memory) (resource : String) (capacity : Nat) (bank : Bank) :
    Except CompileError Unit :=
  if capacity < m.slots bank then
    .error (.bankCapacityExceeded resource bank (m.slots bank) capacity)
  else .ok ()

/-- Place the waveforms of a cache, in banks of limited capacity if one is given. -/
def allocate (resource : String) (c : Cache) (acquisitions : List ContentKey)
    (capacity : Option Nat) : Except CompileError Memory := do
  let m ← c.entries.foldlM (place acquisitions) empty
  match capacity with
  | none => return m
  | some capacity =>
    m.fits resource capacity .awg
    m.fits resource capacity .acq
    return m

/-- The bank of a content, and its allocation there. -/
def find (m : Memory) (key : ContentKey) : Option (Bank × Allocation) :=
  match m.acq.get? key with
  | some allocation => some (.acq, allocation)
  | none => (m.awg.get? key).map fun allocation => (.awg, allocation)

/-- Where the waveform of a content lies. -/
def lookup (m : Memory) (key : ContentKey) : Option Slot :=
  (m.find key).map fun found => ⟨found.1, found.2.index⟩

end Memory

end Sequencer
