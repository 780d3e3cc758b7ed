import Mathlib.Algebra.Field.Basic
import Mathlib.Analysis.SpecialFunctions.Trigonometric.Basic
import Mathlib.Tactic.Ring
import Sequencer.Modulation
import Sequencer.Waveform.Library

/-!
# A normalized pulse sounds like the pulse itself

Amplitudes and phases are taken out of a pulse before it is sampled, and the sequencer puts them
back by its registers: it scales each path by a gain and rotates the result. Nothing in the compiler
compares the two. If normalization set a register for a parameter that the samples still contain, or
rewrote a parameter without setting its register, some pulses would be distorted and every check
would pass.

Doubles round after every operation, so on doubles the two agree up to rounding only. The waveform
functions are written over any scalars, though, and over exact numbers the agreement is exact. What
carries it is that each shape is linear in its amplitudes: a constant, its convolution with a window
that does not depend on it, and the two envelopes of a drag pulse, also after their offsets have
been taken off. Nothing is assumed of the elementary functions but that a rotation by zero degrees
leaves everything in place.

## Main definitions

* `Pulse.Carries` — a pulse has the amplitudes that its waveform function cannot do without
* `Waveform.signal` — the two paths of a waveform, sample by sample
* `Modulations.emit` — what the registers make of a sample

## Main results

* `Convolution.centre_map_mul`, `Shape.soft_eq_map` — a soft square is linear in its amplitude
* `Shape.envelope_eq_map` — so is a drag pulse, in both of its amplitudes
* `Pulse.signal_normalize` — a normalized pulse, modulated, is the pulse itself
-/

namespace Sequencer

variable {R : Type}

/-- A pulse has the amplitudes that a waveform function cannot do without. -/
def Pulse.Carries (p : Pulse R) : Shape → Prop
  | .square | .softSquare => p.amplitude.isSome = true
  | .drag => p.gaussAmplitude.isSome = true ∧ p.derivativeAmplitude.isSome = true

instance Pulse.decidableCarries (p : Pulse R) (shape : Shape) : Decidable (p.Carries shape) :=
  match shape with
  | .square | .softSquare => inferInstanceAs (Decidable (p.amplitude.isSome = true))
  | .drag =>
    inferInstanceAs
    (Decidable (p.gaussAmplitude.isSome = true ∧ p.derivativeAmplitude.isSome = true))

theorem Pulse.normalize_of_shape [NatCast R] {p : Pulse R} {function : String} {shape : Shape}
    (hfunction : p.function = some function) (hshape : Shape.ofName? function = some shape) :
    p.normalize = .ok (p.split shape) := by
  simp only [normalize, hfunction, hshape]

/-- The samples of both paths, side by side. -/
def Waveform.signal [NatCast R] (w : Waveform R) : List (R × R) := w.inPhase.zip w.quadrature

/-! ## What the standard functions sample -/

namespace WaveformLibrary

variable [NatCast R] [Add R] [Sub R] [Mul R] [Div R] [Neg R] [LE R] [DecidableLE R]
  (f : Elementary R) {function : String} (times : List R) {p : Pulse R} {a g d : R}

theorem standardOver_square (hshape : Shape.ofName? function = some .square)
    (ha : p.amplitude = some a) :
    standardOver f function times p = .ok (.real (Shape.flat times a)) := by
  simp only [standardOver, hshape, ha, require]
  rfl

theorem standardOver_softSquare (hshape : Shape.ofName? function = some .softSquare)
    (ha : p.amplitude = some a) :
    standardOver f function times p = .ok (.real (Shape.soft f times a)) := by
  simp only [standardOver, hshape, ha, require]
  rfl

theorem standardOver_drag (hshape : Shape.ofName? function = some .drag)
    (hg : p.gaussAmplitude = some g) (hd : p.derivativeAmplitude = some d) :
    standardOver f function times p = .ok (.complex (Shape.envelope f
      ⟨g, d, p.duration, p.sigmas.getD ((3 : Nat) : R), p.phase.getD ((0 : Nat) : R)⟩ times)) := by
  simp only [standardOver, hshape, hg, hd, require]
  rfl

end WaveformLibrary

variable [Field R]

/-- What the registers make of a sample: the paths are scaled, by one gain unless the second path
has its own, and rotated if there is a phase. -/
def Modulations.emit (f : Elementary R) (m : Modulations R) (gain : R) (z : R × R) : R × R :=
  Shape.multiply (gain * z.1, m.gainQ.getD gain * z.2) (Shape.rotation f (m.phase.getD 0))

/-! ## Convolutions -/

namespace Convolution

/-- A coefficient is linear in the data. The loop over the kernel is the same on both sides, and
each of its steps commutes with the factor. -/
theorem coefficient_map_mul (a : R) (data : List R) (kernel : Array R) (index : Nat) :
    coefficient (data.map (a * ·)).toArray kernel index
      = a * coefficient data.toArray kernel index := by
  have hstart : ((0 : Nat) : R) = a * ((0 : Nat) : R) := by simp
  rw [coefficient, coefficient]
  conv_lhs => rw [hstart]
  refine List.foldl_hom (a * ·) fun sum j => ?_
  simp only [List.size_toArray, List.length_map, List.getElem_toArray, List.getElem_map]
  split
  · ring
  · rfl

theorem centre_map_mul (a : R) (data kernel : List R) :
    centre (data.map (a * ·)) kernel = (centre data kernel).map (a * ·) := by
  simp only [centre, List.length_map, List.map_map, coefficient_map_mul]
  rfl

end Convolution

/-! ## Shapes -/

namespace Shape

theorem flat_eq_map (times : List R) (a : R) : flat times a = (flat times 1).map (a * ·) := by
  simp [flat]

/-- A soft square is linear in its amplitude: the window and its weight do not depend on it. -/
theorem soft_eq_map [LE R] [DecidableLE R] (f : Elementary R) (times : List R) (a : R) :
    soft f times a = (soft f times 1).map (a * ·) := by
  simp only [soft]
  split
  · exact flat_eq_map times a
  · rw [flat_eq_map, Convolution.centre_map_mul, List.map_map, List.map_map]
    refine List.map_congr_left fun x _ => ?_
    exact mul_div_assoc a x _

theorem multiply_rotation_zero {f : Elementary R} (hturn : rotation f 0 = (1, 0)) (z : R × R) :
    multiply z (rotation f 0) = z := by
  simp [hturn, multiply]

/-- A drag pulse is linear in its amplitudes, one for each path, and is rotated last. -/
theorem envelope_eq_map {f : Elementary R} (hturn : rotation f 0 = (1, 0)) (p : Drag R)
    (times : List R) :
    envelope f p times = (envelope f { p with gauss := 1, derivative := 1, phase := 0 } times).map
      fun z => multiply (p.gauss * z.1, p.derivative * z.2) (rotation f p.phase) := by
  cases times with
  | nil => rfl
  | cons first rest =>
    simp only [envelope, List.map_map]
    refine List.map_congr_left fun x _ => ?_
    simp only [Function.comp_apply, multiply_rotation_zero hturn]
    congr 2
    · ring
    · ring

end Shape

/-! ## Signals -/

namespace Waveform

theorem signal_real (samples : List R) : (real samples).signal = samples.map fun x => (x, 0) := by
  induction samples with
  | nil => rfl
  | cons x samples ih =>
    simp only [signal, inPhase, quadrature, List.length_cons, List.replicate_succ,
      List.zip_cons_cons, List.map_cons, Nat.cast_zero] at ih ⊢
    rw [ih]

theorem signal_complex (samples : List (R × R)) : (complex samples).signal = samples :=
  (List.zip_of_prod rfl rfl).symm

end Waveform

/-- Without a phase and a gain for the second path, the registers scale real samples. -/
theorem Modulations.signal_map_emit {f : Elementary R} (hturn : Shape.rotation f 0 = (1, 0))
    {m : Modulations R} (hgainQ : m.gainQ = Option.none) (hphase : m.phase = Option.none) (a : R)
    (samples : List R) :
    (Waveform.real (samples.map (a * ·))).signal = (Waveform.real samples).signal.map
      (m.emit f a) := by
  rw [Waveform.signal_real, Waveform.signal_real, List.map_map, List.map_map]
  refine List.map_congr_left fun x _ => ?_
  simp only [Function.comp_apply, emit, hgainQ, hphase, Option.getD_none, mul_zero,
    Shape.multiply_rotation_zero hturn]

namespace Pulse

variable [LE R] [DecidableLE R] {p : Pulse R} {function : String} {shape : Shape}

/-- **A normalized pulse, modulated, is the pulse itself.** Over any field with an order, and
whatever the elementary functions are as long as a rotation by zero degrees does nothing: a pulse
with its amplitudes can be sampled at any times, and so can its normalized form, and the samples of
the first are those of the second after the registers have scaled and rotated them. -/
theorem signal_normalize (f : Elementary R) (hturn : Shape.rotation f 0 = (1, 0))
    (hfunction : p.function = some function) (hshape : Shape.ofName? function = some shape)
    (hcarries : p.Carries shape) (times : List R) :
    ∃ modulations normalized played stored gain,
      p.normalize = .ok (modulations, normalized) ∧ normalized.function = some function ∧
      WaveformLibrary.standardOver f function times p = .ok played ∧
      WaveformLibrary.standardOver f function times normalized = .ok stored ∧
      modulations.gain = some gain ∧
        played.signal = stored.signal.map (modulations.emit f gain) := by
  have hnormalize := normalize_of_shape hfunction hshape
  cases shape with
  | square =>
    obtain ⟨a, ha⟩ := Option.isSome_iff_exists.mp hcarries
    refine ⟨_, _, _, _, a, hnormalize, hfunction,
      WaveformLibrary.standardOver_square f times hshape ha,
      WaveformLibrary.standardOver_square f times hshape rfl, ha, ?_⟩
    rw [Nat.cast_one, Shape.flat_eq_map]
    exact Modulations.signal_map_emit hturn rfl rfl a _
  | softSquare =>
    obtain ⟨a, ha⟩ := Option.isSome_iff_exists.mp hcarries
    refine ⟨_, _, _, _, a, hnormalize, hfunction,
      WaveformLibrary.standardOver_softSquare f times hshape ha,
      WaveformLibrary.standardOver_softSquare f times hshape rfl, ha, ?_⟩
    rw [Nat.cast_one, Shape.soft_eq_map]
    exact Modulations.signal_map_emit hturn rfl rfl a _
  | drag =>
    obtain ⟨g, hg⟩ := Option.isSome_iff_exists.mp hcarries.1
    obtain ⟨d, hd⟩ := Option.isSome_iff_exists.mp hcarries.2
    refine ⟨_, _, _, _, g, hnormalize, hfunction,
      WaveformLibrary.standardOver_drag f times hshape hg hd,
      WaveformLibrary.standardOver_drag f times hshape rfl rfl, hg, ?_⟩
    rw [Waveform.signal_complex, Waveform.signal_complex, Shape.envelope_eq_map hturn]
    simp only [hd, Option.getD_some, Nat.cast_one, Nat.cast_zero]
    rfl

end Pulse

/-- The elementary functions of real numbers. -/
noncomputable def Elementary.real : Elementary ℝ := ⟨Real.exp, Real.cos, Real.sin, Real.pi⟩

theorem Pulse.signal_normalize_drag :
    let p : Pulse ℝ := .drag "q0" 0 4 (1 / 2) (1 / 4) 90
    Shape.rotation .real 0 = (1, 0) ∧ p.Carries .drag ∧
      ∃ modulations normalized played stored gain,
        p.normalize = .ok (modulations, normalized) ∧ normalized.function = some "drag" ∧
        WaveformLibrary.standardOver .real "drag" [0, 1, 2, 3] p = .ok played ∧
        WaveformLibrary.standardOver .real "drag" [0, 1, 2, 3] normalized = .ok stored ∧
        modulations.gain = some gain ∧
          played.signal = stored.signal.map (modulations.emit .real gain) := by
  have hturn : Shape.rotation .real 0 = (1, 0) := by simp [Shape.rotation, Elementary.real]
  have hcarries : (Pulse.drag "q0" 0 4 (1 / 2) (1 / 4) 90 : Pulse ℝ).Carries .drag := ⟨rfl, rfl⟩
  exact ⟨hturn, hcarries, signal_normalize .real hturn rfl rfl hcarries [0, 1, 2, 3]⟩

end Sequencer
