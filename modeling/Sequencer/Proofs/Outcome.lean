import Sequencer.Proofs.Failure

/-!
# Which resources have a program

A program is encoded step by step, and the first step that fails ends it. So a failure says two
things: what is wrong, and that nothing before it is. Here both are read off the entries of a
resource, without its plan. The clock of an index is the time when all entries before it have been
played; entries are sorted, so it is never ahead of the entry at the index. What can be wrong with
an entry is, in this order, the wait for it, its gain, its offset and the time it is played.

The gaps that cannot be waited for are those of one to three samples, and those that exceed a
multiple of the longest instruction by as little. Entries at the same time leave nothing to play of
all but the last.

## Main definitions

* `fault` — the error of a computation
* `Emittable`, `Normalized` — durations and register values that can be encoded
* `CompiledResource.played`, `CompiledResource.clock` — the timing of entries by their index
* `CompiledResource.Playable` — a resource that has a program
* `CompiledResource.obstacle` — why a resource has none

## Main results

* `not_one_lt_iff` — doubles that are not NaN are compared with one in a total order
* `CompiledResource.faults_walk` — the walk over the entries fails where an entry does
* `CompiledResource.fault_program` — a program fails for its obstacle
* `CompiledResource.program_outcome` — when there is a program, and which error there is otherwise
-/

namespace Sequencer

/-! ## The error of a computation -/

section Faults

variable {ε ε' α β : Type}

/-- The error of a computation, if it fails. -/
def fault : Except ε α → Option ε
  | .error e => some e
  | .ok _ => none

theorem fault_eq_some_iff {x : Except ε α} {e : ε} : fault x = some e ↔ x = .error e := by
  cases x <;> simp [fault]

theorem fault_eq_none_iff {x : Except ε α} : fault x = none ↔ ∃ a, x = .ok a := by
  cases x <;> simp [fault]

/-- What cannot fail does not change the error. -/
theorem fault_bind_of_ok {x : Except ε α} {f : α → Except ε β}
    (h : ∀ a, x = .ok a → fault (f a) = none) : fault (x >>= f) = fault x := by
  cases x with
  | error e => rfl
  | ok a => exact h a rfl

theorem fault_mapError (x : Except ε α) (g : ε → ε') : fault (x.mapError g) = (fault x).map g := by
  cases x <;> rfl

/-- A list of computations fails with the first of them that does. -/
theorem fault_mapM (f : α → Except ε β) (xs : List α) :
    fault (xs.mapM f) = xs.findSome? fun x => fault (f x) := by
  induction xs with
  | nil => rfl
  | cons x xs ih =>
    rw [List.mapM_cons, List.findSome?_cons]
    cases hx : f x with
    | error e => rfl
    | ok y =>
      show fault (xs.mapM f >>= fun ys => pure (y :: ys)) = _
      rw [fault_bind_of_ok fun ys _ => rfl]
      exact ih

theorem findSome?_toList_map {γ : Type} (o : Option α) (g : α → γ) (f : γ → Option β) :
    (o.map g).toList.findSome? f = o.bind fun a => f (g a) := by
  cases o with
  | none => rfl
  | some a => simp

end Faults

/-! ## Magnitudes -/

section Magnitudes

open Float.Model (UnpackedFloat Format)

/-- Only the greatest exponent is that of a NaN. -/
theorem isNaN_unpack_packComponents {spec : Format} {sign : UnpackedFloat.Sign}
    {exponent : BitVec spec.exponentBits} {mantissa : BitVec spec.mantissaBitsWithoutImplicit}
    (h : exponent ≠ -BitVec.ofNat spec.exponentBits 1) :
    (UnpackedFloat.unpack spec (UnpackedFloat.packComponents spec sign exponent mantissa)).isNaN
      = false := by
  have hexponent := @UnpackedFloat.unpackExponent_packComponents spec sign exponent mantissa
  generalize UnpackedFloat.packComponents spec sign exponent mantissa = bits at hexponent
  delta UnpackedFloat.unpack
  rw [if_neg (by rwa [hexponent])]
  by_cases hleast : UnpackedFloat.unpackExponent bits = BitVec.ofNat spec.exponentBits 0
  · rw [if_pos hleast]
    by_cases hzero : UnpackedFloat.unpackMantissa bits
      = BitVec.ofNat spec.mantissaBitsWithoutImplicit 0
    · rw [dif_pos hzero]
      rfl
    · rw [dif_neg hzero]
      rfl
  · rw [if_neg hleast]
    rfl

/-- Rounding a value to a double makes a NaN of none. -/
theorem isNaN_pack (u : UnpackedFloat) : (Float.Model.pack u).isNaN = u.isNaN := by
  show (UnpackedFloat.unpack .binary64 (UnpackedFloat.pack .binary64 u)).isNaN = u.isNaN
  cases u with
  | notANumber => rfl
  | infinity s => cases s <;> rfl
  | zero s => cases s <;> rfl
  | finite s m e hm =>
    show (UnpackedFloat.unpack .binary64 (UnpackedFloat.pack .binary64 (.finite s m e hm))).isNaN
      = false
    delta UnpackedFloat.pack
    dsimp only
    split
    · cases s <;> rfl
    · next hfits =>
      split
      · refine isNaN_unpack_packComponents fun h => hfits ?_
        have hbits := congrArg BitVec.toNat h
        change _ % 2 ^ 11 = 2 ^ 11 - 1 at hbits
        omega
      · exact isNaN_unpack_packComponents (by decide)

theorem isNaN_abs (x : Float) : x.abs.isNaN = x.isNaN := by
  show (Float.Model.pack x.toModel.unpack.abs).isNaN = x.toModel.unpack.isNaN
  rw [isNaN_pack]
  cases x.toModel.unpack <;> rfl

/-- A double that is not NaN is beyond one, or it is not. -/
theorem not_one_lt_iff {x : Float} (h : x.isNaN = false) : ¬ 1.0 < x ↔ x ≤ 1.0 := by
  change x.toModel.unpack.isNaN = false at h
  show ¬ decide (UnpackedFloat.lt (1.0 : Float).toModel.unpack x.toModel.unpack = true) = true ↔
    decide (UnpackedFloat.le x.toModel.unpack (1.0 : Float).toModel.unpack = true) = true
  have hone : (1.0 : Float).toModel.unpack
      = .finite .positive 4503599627370496 (Int.negSucc 51) (by decide) := rfl
  rw [hone]
  generalize x.toModel.unpack = u at h
  cases u with
  | notANumber => cases h
  | infinity s => cases s <;> decide
  | zero s => cases s <;> decide
  | finite s m e hm =>
    cases s with
    | negative => exact iff_of_true (of_decide_eq_true rfl) rfl
    | positive =>
      have hswap : (compare (Int.negSucc 51) e).then (compare 4503599627370496 m)
          = ((compare e (Int.negSucc 51)).then (compare m 4503599627370496)).swap := by
        rw [Ordering.swap_then, ← Std.OrientedCmp.eq_swap, ← Std.OrientedCmp.eq_swap]
      show ¬ decide ((some _ == some Ordering.lt) = true) = true ↔
        decide (Ordering.isLE _ = true) = true
      rw [hswap]
      cases (compare e (Int.negSucc 51)).then (compare m 4503599627370496) <;> decide

end Magnitudes

/-! ## What can be encoded -/

/-- A duration whose last chunk is long enough for an instruction. -/
def Emittable (duration : Int) : Prop := 1 ≤ duration ∧ 4 ≤ (duration - 1) % 65535 + 1

instance decidableEmittable (duration : Int) : Decidable (Emittable duration) := instDecidableAnd

/-- A value that a register can hold: not NaN, and at most one in magnitude. -/
def Normalized (value : Float) : Prop := value.isNaN = false ∧ value.abs ≤ 1.0

instance decidableNormalized (value : Float) : Decidable (Normalized value) := instDecidableAnd

/-- Why no instruction can take a duration. -/
def timeFault (duration : Int) : Option EncodeError :=
  if Emittable duration then none
  else some (.tooShort (if duration ≤ 0 then 0 else ((duration - 1) % 65535 + 1).toNat) 4)

/-- Why a duration cannot be waited for. There is nothing to do for one that is over. -/
def waitFault (duration : Int) : Option EncodeError :=
  if duration ≤ 0 then none else timeFault duration

/-- Why a register cannot be set to a value. -/
def rangeFault (parameter : String) (value : Float) : Option EncodeError :=
  if Normalized value then none else some (.outOfRange parameter value)

/-- Gains, in units of the output voltage, and offsets can be written to registers. The gain of the
Q path only counts next to that of the I path. -/
structure Modulations.InRange (m : Modulations Float) (outputVolt : Float) : Prop where
  gain : ∀ gain ∈ m.gain, Normalized (gain / outputVolt)
  gainQ : ∀ gain ∈ m.gain, ∀ gainQ ∈ m.gainQ, Normalized (gainQ / outputVolt)
  offset : ∀ offset ∈ m.offset, Normalized offset

/-- Why register settings cannot be applied: for a gain, that of the I path first, or else for an
offset. -/
def Modulations.fault (m : Modulations Float) (outputVolt : Float) : Option EncodeError :=
  (m.gain.bind fun gain =>
    (rangeFault "Gain" (gain / outputVolt)).or
      (m.gainQ.bind fun gainQ => rangeFault "Gain" (gainQ / outputVolt))).or
  (m.offset.bind (rangeFault "Offset"))

theorem timeFault_eq_none_iff {duration : Int} :
    timeFault duration = none ↔ Emittable duration := by
  simp [timeFault]

theorem waitFault_eq_none_iff {duration : Int} :
    waitFault duration = none ↔ duration ≤ 0 ∨ Emittable duration := by
  by_cases h : duration ≤ 0 <;> simp [waitFault, h, timeFault_eq_none_iff]

theorem rangeFault_eq_none_iff {parameter : String} {value : Float} :
    rangeFault parameter value = none ↔ Normalized value := by
  simp [rangeFault]

theorem Modulations.fault_eq_none_iff {m : Modulations Float} {outputVolt : Float} :
    m.fault outputVolt = Option.none ↔ m.InRange outputVolt := by
  simp only [Modulations.fault, Option.or_eq_none_iff, Option.bind_eq_none_iff,
    rangeFault_eq_none_iff]
  constructor
  · rintro ⟨hgain, hoffset⟩
    exact ⟨fun gain h => (hgain gain h).1, fun gain h => (hgain gain h).2, hoffset⟩
  · rintro ⟨hgain, hgainQ, hoffset⟩
    exact ⟨fun gain h => ⟨hgain gain h, hgainQ gain h⟩, hoffset⟩

/-! ## Faults of operations -/

section Operations

variable {t : Traits}

theorem fault_timed (ht : t.immediateMax = 65535 ∧ t.minDuration = 4) (label : Option String)
    (duration : Int) (comment : Option String) (make : Nat → Instruction) :
    fault (Operation.timed t label duration.toNat comment make) = timeFault duration := by
  have hlast : lastChunk 65535 duration.toNat
      = if duration ≤ 0 then 0 else ((duration - 1) % 65535 + 1).toNat := by
    rw [lastChunk_eq]
    split <;> split <;> omega
  have hshort : lastChunk 65535 duration.toNat < 4 ↔ ¬ Emittable duration := by
    rw [hlast, Emittable]
    split <;> omega
  have hchunks : fault (t.chunks duration.toNat) = timeFault duration := by
    simp only [Traits.chunks, ht, timeFault, hshort, ite_not]
    rw [hlast]
    split <;> rfl
  rw [Operation.timed, fault_bind_of_ok, hchunks]
  intro cs _
  cases cs <;> rfl

theorem fault_quantize (parameter : String) (immediateMax : Nat) (value : Float) :
    fault (quantize parameter immediateMax value) = rangeFault parameter value := by
  rw [quantize, rangeFault]
  have hiff : Normalized value ↔ ¬ (value.isNaN || decide (1.0 < value.abs)) = true := by
    rw [Normalized, Bool.or_eq_true, decide_eq_true_iff, not_or, Bool.not_eq_true]
    exact and_congr_right fun h => (not_one_lt_iff ((isNaN_abs value).trans h)).symm
  by_cases h : Normalized value
  · rw [if_pos h, if_neg (hiff.mp h)]
    rfl
  · rw [if_neg h, if_pos (not_not.mp (h ∘ hiff.mpr))]
    rfl

theorem fault_gain (bank : Bank) (gain : Float) (gainQ : Option Float) (comment : Option String) :
    fault (Operation.gain t bank gain gainQ comment)
      = (rangeFault "Gain" (gain / t.outputVolt)).or
          (gainQ.bind fun gainQ => rangeFault "Gain" (gainQ / t.outputVolt)) := by
  rw [Operation.gain, ← fault_quantize "Gain" t.immediateMax]
  cases quantize "Gain" t.immediateMax (gain / t.outputVolt) with
  | error e => rfl
  | ok i =>
    cases gainQ with
    | none => rfl
    | some own =>
      show fault (quantize "Gain" t.immediateMax (own / t.outputVolt) >>= fun q =>
        .ok [Statement.commented none (.setGain bank i q) comment])
          = rangeFault "Gain" (own / t.outputVolt)
      rw [fault_bind_of_ok fun q _ => rfl, fault_quantize]

theorem fault_phase (ht : t.ResolvesPhase) (degrees : Float) (make : Phase → Instruction) :
    fault (do .ok [.commented none (make (← Phase.ofDegrees t degrees)) none] :
      Except EncodeError (List Statement)) = none := by
  obtain ⟨phase, hphase⟩ := exists_ofDegrees ht degrees
  rw [hphase]
  rfl

/-- Setting the registers of a bank fails for a gain or an offset. Phases are never out of range. -/
theorem faults_modulate (ht : t.ResolvesPhase) (settings : Settings) (bank : Bank)
    (m : Modulations Float) :
    ((CompiledResource.modulate settings bank m).findSome? fun op => fault (op.statements t))
      = m.fault t.outputVolt := by
  have hphase : ∀ degrees, fault ((Operation.setPhase degrees).statements t) = none :=
    fun degrees => fault_phase ht degrees .setPhase
  have hdelta : ∀ degrees, fault ((Operation.setPhaseDelta degrees).statements t) = none :=
    fun degrees => fault_phase ht degrees .setPhaseDelta
  have hoffset : ∀ offset, fault ((Operation.setOffset bank offset).statements t)
      = rangeFault "Offset" offset :=
    fun offset => (fault_bind_of_ok fun value _ => rfl).trans (fault_quantize _ _ _)
  have hgain : ∀ gain,
      fault ((Operation.setGain bank gain m.gainQ (settings.comment "#Set gain")).statements t)
        = (rangeFault "Gain" (gain / t.outputVolt)).or
          (m.gainQ.bind fun gainQ => rangeFault "Gain" (gainQ / t.outputVolt)) :=
    fun gain => fault_gain bank gain m.gainQ _
  rw [CompiledResource.modulate, Modulations.fault, List.findSome?_append,
    List.findSome?_append, List.findSome?_append, findSome?_toList_map, findSome?_toList_map,
    findSome?_toList_map, findSome?_toList_map]
  simp only [hphase, hdelta, hoffset, hgain, Option.bind_fun_none, Option.or_none]

end Operations

/-! ## Faults of entries -/

namespace CompiledResource

variable {r : CompiledResource} {settings : Settings}

/-- How long the entry at an index is played: for the whole waveform, unless the next entry cuts it
short. -/
def played (r : CompiledResource) (i : Nat) : Int :=
  r.entries[i]?.elim 0 fun e => span (r.cache.samples e.key) e r.entries[i + 1]?

/-- The time when the entries before an index have been played. -/
def clock (r : CompiledResource) : Nat → Int
  | 0 => 0
  | i + 1 => r.entries[i]?.elim 0 fun e => e.time + r.played i

/-- A resource that has a program in a sequence of a given duration. -/
structure Playable (r : CompiledResource) (duration : Int) : Prop where
  finish : r.finish ≤ duration
  start : ∀ first ∈ r.entries.head?, 0 ≤ first.time
  wait : ∀ i, ∀ e ∈ r.entries[i]?, e.time - r.clock i = 0 ∨ Emittable (e.time - r.clock i)
  play : ∀ i < r.entries.length, Emittable (r.played i)
  registers : ∀ e ∈ r.entries, e.modulations.InRange r.traits.outputVolt
  rest : r.entries ≠ [] →
    duration - r.clock r.entries.length ≤ 0 ∨ Emittable (duration - r.clock r.entries.length)

/-- An error about an operand of an entry, with the place of the entry. -/
def blame (r : CompiledResource) (e : Entry) (cause : EncodeError) : CompileError :=
  .within (r.context e) (.encoding cause)

/-- What is wrong with the entry at an index: the wait for it, its registers, or the time it is
played. -/
def entryFault (r : CompiledResource) (e : Entry) (i : Nat) : Option EncodeError :=
  (waitFault (e.time - r.clock i)).or
    ((e.modulations.fault r.traits.outputVolt).or (timeFault (r.played i)))

/-- A first entry before the start of the sequence. -/
def earlyFault (r : CompiledResource) : Option CompileError :=
  r.entries.head?.bind fun first =>
    if first.time < 0 then some (.schedulingConflict none (r.context first)) else none

/-- What is wrong with the wait for the end of the sequence. -/
def restFault (r : CompiledResource) (duration : Int) : Option CompileError :=
  r.entries.getLast?.bind fun last => (waitFault (duration - r.clock r.entries.length)).map
    (r.blame last)

/-- Why a resource has no program in a sequence of a given duration: it takes longer than the
sequence; or else it starts before the sequence; or else its first entry that has a fault; or else
the wait for the end. -/
def obstacle (r : CompiledResource) (duration : Int) : Option CompileError :=
  if duration < r.finish then some (.overrun r.name duration r.finish)
  else r.earlyFault.or
    ((r.entries.zipIdx.findSome? fun entry =>
      (r.entryFault entry.1 entry.2).map (r.blame entry.1)).or (r.restFault duration))

/-- All kinds of resources share the limits on durations. -/
theorem timing_traits (r : CompiledResource) :
    r.traits.immediateMax = 65535 ∧ r.traits.minDuration = 4 := by
  rw [traits]
  cases r.resource.kind <;> exact ⟨rfl, rfl⟩

theorem faults_waitSteps (e : Entry) (duration : Int) (comment : String) :
    ((waitSteps settings (r.context e) duration comment).findSome? fun step =>
      fault (step.encode r.traits))
      = (waitFault duration).map (r.blame e) := by
  rw [waitSteps, waitFault]
  by_cases h : 0 < duration
  · rw [if_pos h, if_neg (Int.not_le.mpr h), List.findSome?_singleton]
    show fault ((Operation.timed r.traits none duration.toNat _ .wait).mapError (r.blame e)) = _
    rw [fault_mapError, fault_timed r.timing_traits]
  · rw [if_neg h, if_pos (Int.not_lt.mp h)]
    rfl

theorem fault_sound (slot : Slot) (duration : Int) :
    fault ((sound slot duration.toNat).statements r.traits) = timeFault duration := by
  rw [sound]
  split <;> exact fault_timed r.timing_traits none duration none _

/-- The steps of an entry that has a place fail for the wait, the registers or the time, in this
order. -/
theorem faults_entrySteps {e : Entry} {slot : Slot} (hslot : r.memory.lookup e.key = some slot)
    (wait duration : Int) :
    ((r.entrySteps settings e wait duration).findSome? fun step => fault (step.encode r.traits))
      = ((waitFault wait).or
        ((e.modulations.fault r.traits.outputVolt).or (timeFault duration))).map (r.blame e) := by
  have hops : ∀ ops : List Operation,
      ((ops.map (Step.emit (some (r.context e)))).findSome? fun step =>
        fault (step.encode r.traits))
        = (ops.findSome? fun op => fault (op.statements r.traits)).map (r.blame e) := by
    intro ops
    rw [List.findSome?_map, List.map_findSome?]
    congr 1
    funext op
    exact fault_mapError _ _
  have hplay :
      ((modulate settings slot.bank e.modulations ++ [sound slot duration.toNat]).findSome?
          fun op => fault (op.statements r.traits))
        = (e.modulations.fault r.traits.outputVolt).or (timeFault duration) := by
    have hphase : r.traits.ResolvesPhase := r.resource.kind.resolvesPhase_traits
    rw [List.findSome?_append, List.findSome?_singleton, faults_modulate hphase, fault_sound]
  have hbreak : fault ((Step.emit none .lineBreak).encode r.traits) = none := rfl
  simp only [entrySteps, hslot]
  rw [List.findSome?_append, faults_waitSteps, List.findSome?_cons, hbreak, Option.map_or]
  show Option.or _ (List.findSome? _ (List.map _ _)) = _
  rw [hops, hplay]

/-! ## Programs -/

theorem clock_succ {i : Nat} {e : Entry} (h : r.entries[i]? = some e) :
    r.clock (i + 1) = e.time + r.played i := by
  rw [clock, h]
  rfl

/-- Each entry is cut where the next one starts, so the clock is never ahead. -/
theorem clock_le (hstart : ∀ first ∈ r.entries.head?, 0 ≤ first.time) {i : Nat} {e : Entry}
    (h : r.entries[i]? = some e) : r.clock i ≤ e.time := by
  cases i with
  | zero => exact hstart e (List.head?_eq_getElem?.trans h)
  | succ i =>
    have hi : i < r.entries.length := by
      have := (List.getElem?_eq_some_iff.mp h).1
      omega
    have hprevious : r.entries[i]? = some r.entries[i] := List.getElem?_eq_getElem hi
    have hcut : r.played i ≤ e.time - r.entries[i].time := by
      rw [played, hprevious, h]
      exact Int.min_le_right _ _
    rw [clock_succ hprevious]
    omega

/-- **The walk over the entries fails where an entry does**, and ends at the last clock. The
induction is on the entries that remain; those before them give the index and the clock. -/
theorem faults_walk (previous : Option Entry) (before : List Entry) {entries : List Entry}
    (hentries : r.entries = before ++ entries) (hready : r.Ready entries)
    (hclock : ∀ e ∈ entries, r.clock before.length ≤ e.time) :
    ((r.walk settings previous (r.clock before.length) entries).1.findSome? fun step =>
      fault (step.encode r.traits))
        = ((entries.zipIdx before.length).findSome? fun entry =>
            (r.entryFault entry.1 entry.2).map (r.blame entry.1)) ∧
      (r.walk settings previous (r.clock before.length) entries).2 = r.clock r.entries.length := by
  induction entries generalizing previous before with
  | nil => exact ⟨rfl, by rw [hentries, List.append_nil]; rfl⟩
  | cons e rest ih =>
    obtain ⟨w, hw⟩ := hready.sampled e List.mem_cons_self
    obtain ⟨slot, hslot⟩ := hready.allocated e List.mem_cons_self
    have hnot : ¬ e.time < r.clock before.length := Int.not_lt.mpr (hclock e List.mem_cons_self)
    have hhere : r.entries[before.length]? = some e := by simp [hentries]
    have hnext : r.entries[before.length + 1]? = rest.head? := by
      rw [hentries, List.getElem?_append_right (Nat.le_succ _), Nat.succ_eq_add_one,
        Nat.add_sub_cancel_left, List.getElem?_cons_succ, List.head?_eq_getElem?]
    have hplay : playTime w.length e rest = r.played before.length := by
      rw [played, hhere, playTime_eq_span, ← hnext]
      exact congrArg (fun length => span length e _) (Cache.samples_of_get? hw).symm
    have hafter : e.time + r.played before.length = r.clock (before ++ [e]).length := by
      rw [List.length_append, List.length_singleton, clock_succ hhere]
    have hrest := ih (some e) (before ++ [e]) (by simp [hentries]) hready.tail
      (by rw [← hafter, ← hplay]; exact clock_le_of_mem hready.sorted)
    simp only [walk, if_neg hnot, hw, hplay, hafter]
    refine ⟨?_, hrest.2⟩
    rw [List.findSome?_append, faults_entrySteps hslot, hrest.1, List.zipIdx_cons,
      List.findSome?_cons, List.length_append, List.length_singleton]
    show Option.or (Option.map _ (r.entryFault e before.length)) _ = _
    cases (r.entryFault e before.length).map (r.blame e) <;> rfl

theorem faults_padding (remaining : Int) :
    ((r.padding settings remaining).findSome? fun step => fault (step.encode r.traits))
      = r.entries.getLast?.bind fun last => (waitFault remaining).map (r.blame last) := by
  rw [padding]
  cases r.entries.getLast? with
  | none => rfl
  | some last => exact faults_waitSteps last remaining _

theorem earlyFault_eq_none_iff :
    r.earlyFault = none ↔ ∀ first ∈ r.entries.head?, 0 ≤ first.time := by
  simp [earlyFault, Option.bind_eq_none_iff]

theorem Ready.start_le (hready : r.Ready r.entries)
    (hstart : ∀ first ∈ r.entries.head?, 0 ≤ first.time) : ∀ e ∈ r.entries, 0 ≤ e.time := by
  cases hentries : r.entries with
  | nil => simp
  | cons first rest =>
    rw [hentries] at hready hstart
    have hfirst : 0 ≤ first.time := hstart first rfl
    intro e he
    rcases List.mem_cons.mp he with rfl | he
    · exact hfirst
    · exact Int.le_trans hfirst ((List.pairwise_cons.mp hready.sorted).1 e he)

/-- **A program fails for its obstacle**, if its entries are sorted and have waveforms and
places. -/
theorem fault_program (duration : Int) (settings : Settings) (hready : r.Ready r.entries) :
    fault (r.program duration settings) = r.obstacle duration := by
  by_cases hover : duration < r.finish
  · rw [obstacle, if_pos hover, program, plan, if_pos hover]
    rfl
  rw [obstacle, if_neg hover]
  have hfinish : r.finish ≤ duration := Int.not_lt.mp hover
  cases hearly : r.earlyFault with
  | some e =>
    obtain ⟨first, hfirst, h⟩ := Option.bind_eq_some_iff.mp hearly
    obtain ⟨htime, h⟩ := Option.ite_none_right_eq_some.mp h
    rw [program_of_early hfinish hfirst htime, ← h]
    rfl
  | none =>
    have hstart := hready.start_le (earlyFault_eq_none_iff.mp hearly)
    have hvalid : fault (r.program duration settings)
        = (r.plan duration settings).findSome? fun step => fault (step.encode r.traits) := by
      rw [program_eq, fault_bind_of_ok, fault_mapM]
      intro parts hparts
      simp only [validate_of_encodes hready hfinish hstart ⟨parts, hparts, rfl⟩]
      rfl
    obtain ⟨hbody, hclock⟩ := faults_walk none [] (List.nil_append r.entries).symm hready hstart
    simp only [List.length_nil, clock] at hbody hclock
    rw [hvalid, plan, if_neg hover]
    show List.findSome? _ (_ ++ _ ++ _) = _
    rw [List.findSome?_append, List.findSome?_append, hbody, faults_padding, hclock]
    exact Option.or_none

theorem entryFault_eq_none_iff (hstart : ∀ first ∈ r.entries.head?, 0 ≤ first.time) {i : Nat}
    {e : Entry} (h : r.entries[i]? = some e) :
    r.entryFault e i = none ↔ (e.time - r.clock i = 0 ∨ Emittable (e.time - r.clock i)) ∧
      e.modulations.InRange r.traits.outputVolt ∧ Emittable (r.played i) := by
  have hwait : e.time - r.clock i ≤ 0 ↔ e.time - r.clock i = 0 := by
    have := clock_le hstart h
    omega
  rw [entryFault, Option.or_eq_none_iff, Option.or_eq_none_iff, waitFault_eq_none_iff, hwait,
    Modulations.fault_eq_none_iff, timeFault_eq_none_iff]

theorem restFault_eq_none_iff {duration : Int} :
    r.restFault duration = none ↔ (r.entries ≠ [] →
      duration - r.clock r.entries.length ≤ 0 ∨
        Emittable (duration - r.clock r.entries.length)) := by
  rw [restFault]
  cases hlast : r.entries.getLast? with
  | none => simp [List.getLast?_eq_none_iff.mp hlast]
  | some last =>
    have hne : r.entries ≠ [] := List.ne_nil_of_mem (List.mem_of_getLast? hlast)
    simp [hne, waitFault_eq_none_iff]

/-- A resource is playable exactly when it has no obstacle. -/
theorem obstacle_eq_none_iff {duration : Int} :
    r.obstacle duration = none ↔ r.Playable duration := by
  rw [obstacle]
  split
  · next hover => exact ⟨nofun, fun h => absurd h.finish (Int.not_le.mpr hover)⟩
  next hover =>
  rw [Option.or_eq_none_iff, Option.or_eq_none_iff, List.findSome?_eq_none_iff,
    earlyFault_eq_none_iff, restFault_eq_none_iff]
  constructor
  · rintro ⟨hstart, hentries, hrest⟩
    have hentry : ∀ i e, r.entries[i]? = some e → r.entryFault e i = none := fun i e h =>
      Option.map_eq_none_iff.mp (hentries (e, i) (List.mem_zipIdx_iff_getElem?.mpr h))
    exact {
      finish := Int.not_lt.mp hover
      start := hstart
      wait := fun i e h => ((entryFault_eq_none_iff hstart h).mp (hentry i e h)).1
      play := fun i hi =>
        have h := List.getElem?_eq_getElem hi
        ((entryFault_eq_none_iff hstart h).mp (hentry i _ h)).2.2
      registers := fun e he =>
        have ⟨i, h⟩ := List.mem_iff_getElem?.mp he
        ((entryFault_eq_none_iff hstart h).mp (hentry i e h)).2.1
      rest := hrest }
  · intro h
    refine ⟨h.start, ?_, h.rest⟩
    rintro ⟨e, i⟩ hmem
    have hget : r.entries[i]? = some e := List.mem_zipIdx_iff_getElem?.mp hmem
    rw [Option.map_eq_none_iff, entryFault_eq_none_iff h.start hget]
    exact ⟨h.wait i e hget, h.registers e (List.mem_of_getElem? hget),
      h.play i (List.getElem?_eq_some_iff.mp hget).1⟩

/-- **Which resources have a program, and why the others have none.** The entries of the resource
are sorted and have waveforms and places. Then there is a program exactly if the resource is
playable; and otherwise the error is its first obstacle. -/
theorem program_outcome (r : CompiledResource) (duration : Int) (settings : Settings)
    (hready : r.Ready r.entries) :
    ((∃ p, r.program duration settings = .ok p) ↔ r.Playable duration) ∧
      ∀ e, r.program duration settings = .error e ↔ r.obstacle duration = some e := by
  have hfault := fault_program duration settings hready
  constructor
  · rw [← fault_eq_none_iff, hfault, obstacle_eq_none_iff]
  · intro e
    rw [← fault_eq_some_iff, hfault]

/-- The second entry leaves one sample to wait for after a longest wait, and its gain is too
high. -/
def cramped : CompiledResource :=
  { sample with
    entries := [⟨0, ⟨"a"⟩, .none⟩, ⟨65542, ⟨"a"⟩, { Modulations.none with gain := some 3 }⟩]
    finish := 65548 }

theorem program_outcome_cramped :
    sample.Playable 70010 ∧
      sample.program 70007 .standard = .error
        (.within ⟨"q0", ⟨"b"⟩, 70000⟩ (.encoding (.tooShort 3 4))) ∧
      cramped.program 65548 .standard = .error
        (.within ⟨"q0", ⟨"a"⟩, 65542⟩ (.encoding (.tooShort 1 4))) ∧
      ¬ cramped.Playable 65548 := by
  have hsample : sample.Ready sample.entries := {
    sorted := by decide
    sampled := fun e he => Option.isSome_iff_exists.mp (by decide +revert)
    allocated := fun e he => Option.isSome_iff_exists.mp (by decide +revert) }
  have hcramped : cramped.Ready cramped.entries := {
    sorted := by decide
    sampled := fun e he => Option.isSome_iff_exists.mp (by decide +revert)
    allocated := fun e he => Option.isSome_iff_exists.mp (by decide +revert) }
  have herror := ((program_outcome cramped 65548 .standard hcramped).2 _).mpr rfl
  refine ⟨(program_outcome sample 70010 .standard hsample).1.mp ⟨_, rfl⟩,
    ((program_outcome sample 70007 .standard hsample).2 _).mpr rfl, herror, fun hplayable => ?_⟩
  obtain ⟨p, hp⟩ := (program_outcome cramped 65548 .standard hcramped).1.mpr hplayable
  rw [herror] at hp
  cases hp

end CompiledResource

end Sequencer
