import Sequencer.Proofs.Doubles
import Sequencer.Proofs.Layout
import Sequencer.Proofs.Signal

/-!
# Waveforms and the sign of zero

The text of a content has no negative zeros. Pulses whose parameters differ in the sign of a zero
therefore have the same key, and whichever of them comes first is the one that is sampled. So
samples had better not depend on the sign of a parameter that is zero.

For a normalized pulse there are two such parameters. Without a duration there are no samples,
whatever the sign. A drag pulse that spans zero standard deviations is the other case: its standard
deviation is infinite, with the sign of the zero. Squares of it are the same for both signs. What is
divided by it once is zero, with one sign or the other, or not a number in both cases, and the same
holds of everything that is made of such numbers. In the end they are added to numbers that do not
depend on the sign, so the samples are the same numbers; and they are the very same doubles if the
elementary functions have the values at zero that everyone expects of them.

## Main definitions

* `Waveform.Same` — the same samples, the two zeros being one
* `Elementary.IsExactAtZero` — what is expected of elementary functions at zero

## Main results

* `Shape.envelope_same`, `Shape.envelope_eq` — the sign of the standard deviations of a drag pulse
* `Pulse.render_normalized` — what is sampled from a normalized pulse
* `Pulse.SameContent.render` — pulses with the same content have the same samples
-/

namespace Sequencer

/-! ## Drag pulses -/

/-- The values at zero that everyone expects of the elementary functions. -/
structure Elementary.IsExactAtZero (f : Elementary Float) : Prop where
  exp_nought : ∀ x, Number.IsNought x → f.exp x = ((1 : Nat) : Float)
  exp_nan : f.exp Float.nan = Float.nan
  /-- A rotation by zero degrees. -/
  rotation : Shape.rotation f ((0 : Nat) : Float) = (((1 : Nat) : Float), ((0 : Nat) : Float))

namespace Shape

open Number

/-- The Gaussian of a drag pulse with a given mean and standard deviation. -/
def bell (f : Elementary Float) (mean sigma x : Float) : Float :=
  f.exp (-half * ((x - mean) * (x - mean)) / (sigma * sigma))

/-- Its derivative, scaled by an amplitude. -/
def slope (f : Elementary Float) (derivative mean sigma x : Float) : Float :=
  -derivative * (x - mean) / sigma * bell f mean sigma x

/-- A sample of a path without the mean of the first and the last one. -/
def centred (path : Float → Float) (first last x : Float) : Float :=
  path x - (path first + path last) / ((2 : Nat) : Float)

/-- A drag pulse, path by path. -/
theorem envelope_cons (f : Elementary Float) (p : Drag Float) (first : Float) (rest : List Float) :
    envelope f p (first :: rest) = (first :: rest).map fun x =>
      multiply
        (centred (fun x => p.gauss * bell f (first + p.duration / ((2 : Nat) : Float))
            (p.duration / (((2 : Nat) : Float) * p.sigmas)) x)
          first ((first :: rest).getLast (by simp)) x,
         centred (slope f p.derivative (first + p.duration / ((2 : Nat) : Float))
            (p.duration / (((2 : Nat) : Float) * p.sigmas)))
          first ((first :: rest).getLast (by simp)) x)
        (rotation f p.phase) := rfl

/-- Noughts that are rotated together with a number leave the same number. -/
theorem multiply_same {a b b' : Float} (hb : Noughts b b') (turn : Float × Float) :
    Same (multiply (a, b) turn).1 (multiply (a, b') turn).1 ∧
      Same (multiply (a, b) turn).2 (multiply (a, b') turn).2 :=
  ⟨same_sub (hb.mul turn.2) _, same_add (hb.mul turn.1) _⟩

/-- Not rotated, they leave the very same doubles if the number is zero. -/
theorem multiply_eq {a b b' : Float} (ha : a = 0.0 ∨ a = Float.nan) (hb : Noughts b b') :
    multiply (a, b) (((1 : Nat) : Float), ((0 : Nat) : Float))
      = multiply (a, b') (((1 : Nat) : Float), ((0 : Nat) : Float)) := by
  rcases ha with rfl | rfl <;> rcases hb with ⟨rfl, rfl⟩ | ⟨rfl | rfl, rfl | rfl⟩ <;> decide

section Sigma

variable {f : Elementary Float} {sigma sigma' : Float} (h : Interchangeable sigma sigma')

include h

/-- The Gaussian does not see the sign, because it is made with the square. -/
theorem bell_eq (mean : Float) : bell f mean sigma = bell f mean sigma' := by
  funext x
  rw [bell, bell, h.square]

theorem noughts_slope (derivative mean x : Float) :
    Noughts (slope f derivative mean sigma x) (slope f derivative mean sigma' x) := by
  rw [slope, slope, bell_eq h]
  exact (h.div _).mul _

theorem noughts_centred_slope (derivative mean first last x : Float) :
    Noughts (centred (slope f derivative mean sigma) first last x)
      (centred (slope f derivative mean sigma') first last x) := by
  have hslope := noughts_slope (f := f) h derivative mean
  exact (hslope x).sub ((hslope first).add (hslope last)).halve

/-- Divided by the square, every exponent is a nought, so the Gaussian is flat. -/
theorem bell_flat (hf : f.IsExactAtZero) (mean x : Float) :
    bell f mean sigma x = ((1 : Nat) : Float) ∨ bell f mean sigma x = Float.nan := by
  rcases h.div_square (-half * ((x - mean) * (x - mean))) with ⟨hnan, -⟩ | ⟨hnought, -⟩
  · rw [bell, hnan]
    exact Or.inr hf.exp_nan
  · exact Or.inl (hf.exp_nought _ hnought)

theorem centred_bell (hf : f.IsExactAtZero) (mean first last x : Float) :
    centred (fun x => ((1 : Nat) : Float) * bell f mean sigma x) first last x = 0.0 ∨
      centred (fun x => ((1 : Nat) : Float) * bell f mean sigma x) first last x = Float.nan := by
  simp only [centred]
  rcases bell_flat h hf mean x with hx | hx <;> rcases bell_flat h hf mean first with
    hfirst | hfirst <;>
    rcases bell_flat h hf mean last with hlast | hlast <;> rw [hx, hfirst, hlast] <;> decide

end Sigma

theorem interchangeable_sigma {x y : Float} (hx : IsNought x) (hy : IsNought y) (duration : Float) :
    Interchangeable (duration / (((2 : Nat) : Float) * x))
      (duration / (((2 : Nat) : Float) * y)) := by
  have htwice : ∀ {z : Float}, IsNought z → IsNought (((2 : Nat) : Float) * z) := by
    rintro z (rfl | rfl)
    · decide
    · decide
  exact interchangeable_div (htwice hx) (htwice hy) duration

/-- **The sign of zero standard deviations is not heard.** -/
theorem envelope_same (f : Elementary Float) (p : Drag Float) {x y : Float} (hx : IsNought x)
    (hy : IsNought y) (times : List Float) :
    List.Forall₂ (fun z w => Same z.1 w.1 ∧ Same z.2 w.2) (envelope f { p with sigmas := x } times)
      (envelope f { p with sigmas := y } times) := by
  cases times with
  | nil => exact .nil
  | cons first rest =>
    have hsigma := interchangeable_sigma hx hy p.duration
    rw [envelope_cons, envelope_cons, List.forall₂_map_left_iff, List.forall₂_map_right_iff,
      List.forall₂_same]
    intro time _
    rw [bell_eq hsigma]
    exact multiply_same (noughts_centred_slope hsigma _ _ _ _ time) _

/-- It is not even written, if the elementary functions are exact at zero and the pulse is
normalized. -/
theorem envelope_eq {f : Elementary Float} (hf : f.IsExactAtZero) (derivative duration : Float)
    {x y : Float} (hx : IsNought x) (hy : IsNought y) (times : List Float) :
    envelope f ⟨((1 : Nat) : Float), derivative, duration, x, ((0 : Nat) : Float)⟩ times
      = envelope f ⟨((1 : Nat) : Float), derivative, duration, y, ((0 : Nat) : Float)⟩ times := by
  cases times with
  | nil => rfl
  | cons first rest =>
    have hsigma := interchangeable_sigma hx hy duration
    rw [envelope_cons, envelope_cons]
    refine List.map_congr_left fun time _ => ?_
    simp only [hf.rotation]
    rw [← bell_eq hsigma]
    exact multiply_eq (centred_bell hsigma hf _ _ _ time)
      (noughts_centred_slope hsigma _ _ _ _ time)

end Shape

/-! ## Samples -/

/-- The same samples, the two zeros being one. -/
def Waveform.Same : Waveform Float → Waveform Float → Prop
  | .real xs, .real ys => List.Forall₂ Number.Same xs ys
  | .complex xs, .complex ys =>
    List.Forall₂ (fun z w => Number.Same z.1 w.1 ∧ Number.Same z.2 w.2) xs ys
  | _, _ => False

theorem Waveform.Same.refl (w : Waveform Float) : w.Same w := by
  cases w with
  | real xs => exact List.forall₂_same.mpr fun x _ => Number.Same.refl x
  | complex xs =>
    exact List.forall₂_same.mpr fun z _ => ⟨Number.Same.refl z.1, Number.Same.refl z.2⟩

theorem Waveform.Same.length {w w' : Waveform Float} (h : w.Same w') : w.length = w'.length := by
  cases w <;> cases w'
  · exact h.length_eq
  · exact h.elim
  · exact h.elim
  · exact h.length_eq

open Number in
/-- Without a duration there are no samples. -/
theorem sampleTimes_nought {duration : Float} (h : IsNought duration) (rate : Float) :
    sampleTimes duration rate = [] := by
  have hproduct : Noughts (duration * rate) (duration * rate) := Noughts.mul (Or.inr ⟨h, h⟩) rate
  have hcount : sampleCount duration rate = 0 := by
    rw [sampleCount]
    rcases hproduct with ⟨hnan, -⟩ | ⟨hpos | hneg, -⟩
    · rw [hnan]
      decide
    · rw [hpos]
      decide
    · rw [hneg]
      decide
  rw [sampleTimes, hcount]
  rfl

namespace Pulse

/-- The waveform of a normalized pulse, with unit amplitudes and without a phase. -/
def unitWaveform (f : Elementary Float) (p : Pulse Float) (times : List Float) :
    Option Shape → Waveform Float
  | none => .real (List.replicate times.length 0.0)
  | some .square => .real (Shape.flat times ((1 : Nat) : Float))
  | some .softSquare => .real (Shape.soft f times ((1 : Nat) : Float))
  | some .drag =>
    .complex (Shape.envelope f
      ⟨((1 : Nat) : Float), ((1 : Nat) : Float), p.duration, p.sigmas.getD ((3 : Nat) : Float),
        ((0 : Nat) : Float)⟩ times)

theorem render_normalized {p written : Pulse Float} {modulations : Modulations Float}
    (f : Elementary Float) (h : written.normalize = .ok (modulations, p)) (rate : Float) :
    (WaveformLibrary.standardOver f).render p rate
      = .ok (p.unitWaveform f (sampleTimes p.duration rate) (p.function.bind Shape.ofName?)) := by
  rcases normalize_eq_ok h with ⟨hnone, -, rfl⟩ | ⟨function, shape, hfunction, hshape, -, rfl⟩
  · rw [WaveformLibrary.render_of_none hnone, hnone]
    rfl
  · have hkept : (written.split shape).2.function = some function := by
      cases shape <;> exact hfunction
    rw [WaveformLibrary.render_of_some hkept, hkept, Option.bind_some, hshape]
    cases shape with
    | square =>
      exact WaveformLibrary.standardOver_square f _ hshape rfl
    | softSquare =>
      exact WaveformLibrary.standardOver_softSquare f _ hshape rfl
    | drag =>
      exact WaveformLibrary.standardOver_drag f _ hshape rfl rfl

namespace SameContent

open Number

variable {p q : Pulse Float}

theorem sigmas (h : p.SameContent q) : Option.Rel Same p.sigmas q.sigmas := h.fields "nr_sigma"

/-- Normalized pulses with the same content have the same waveform, unless they are drag pulses of
zero standard deviations. -/
theorem unitWaveform_cases (h : p.SameContent q) (f : Elementary Float) (rate : Float)
    (shape : Option Shape) :
    p.unitWaveform f (sampleTimes p.duration rate) shape
        = q.unitWaveform f (sampleTimes q.duration rate) shape ∨
      shape = some .drag ∧ p.duration = q.duration ∧
        ∃ x y, p.sigmas = some x ∧ q.sigmas = some y ∧ IsNought x ∧ IsNought y := by
  rcases h.duration with hduration | ⟨hp, hq⟩
  · rw [hduration]
    rcases shape with _ | _ | _ | _
    · exact Or.inl rfl
    · exact Or.inl rfl
    · exact Or.inl rfl
    · rcases rel_same_cases h.sigmas with hsigmas | hnoughts
      · left
        rw [unitWaveform, unitWaveform, hduration, hsigmas]
      · exact Or.inr ⟨rfl, rfl, hnoughts⟩
  · -- without a duration there is nothing to compare
    left
    rw [sampleTimes_nought (isNought_iff.mpr hp), sampleTimes_nought (isNought_iff.mpr hq)]
    rcases shape with _ | _ | _ | _ <;> rfl

/-- **Pulses with the same content have the same samples**, if they are normalized. The samples are
the same doubles if no number of standard deviations is negative zero, or if the elementary
functions are exact at zero. -/
theorem render (h : p.SameContent q) {written written' : Pulse Float}
    {modulations modulations' : Modulations Float} (hp : written.normalize = .ok (modulations, p))
    (hq : written'.normalize = .ok (modulations', q)) (f : Elementary Float) (rate : Float) :
    ∃ w w', (WaveformLibrary.standardOver f).render p rate = .ok w ∧
      (WaveformLibrary.standardOver f).render q rate = .ok w' ∧ w.Same w' ∧
      (f.IsExactAtZero ∨ p.sigmas ≠ some (-0.0) ∧ q.sigmas ≠ some (-0.0) → w = w') := by
  refine ⟨_, _, render_normalized f hp rate, render_normalized f hq rate, ?_⟩
  rw [h.function]
  rcases h.unitWaveform_cases f rate (q.function.bind Shape.ofName?) with
    heq | ⟨hshape, hduration, x, y, hx, hy, hxn, hyn⟩
  · rw [heq]
    exact ⟨.refl _, fun _ => rfl⟩
  · rw [hshape, unitWaveform, unitWaveform, hduration, hx, hy, Option.getD_some, Option.getD_some]
    refine ⟨Shape.envelope_same f ⟨_, _, _, x, _⟩ hxn hyn _, ?_⟩
    rintro (hf | ⟨hxpos, hypos⟩)
    · rw [Shape.envelope_eq hf _ _ hxn hyn]
    · -- neither is negative, so both are the positive zero
      have hzero : ∀ {z : Float}, IsNought z → some z ≠ some (-0.0) → z = 0.0 := by
        intro z hz hne
        exact hz.resolve_right fun heq => hne (congrArg some heq)
      rw [hzero hxn hxpos, hzero hyn hypos]

end SameContent

end Pulse

end Sequencer
