import Mathlib
import Sequencer.Number.Scalar
import Sequencer.Proofs.Content

/-!
# Doubles near zero

Comparison takes the two zeros for one number, and arithmetic tells them apart only by the sign of
what it makes of them: a product with a zero is a zero again, a quotient by one is an infinity, and
a sum with one is what it was. Here this is said of doubles as they are, with infinities and what is
not a number.

A double is told by its parts: sign, mantissa and exponent, or one of the values that have none.
Where one of the operands is a zero or an infinity nothing is rounded, and the parts of the result
can be read off. This is the only module that needs the whole library, since the lemmas about the
parts of a double are in no smaller piece of it.

## Main definitions

* `Number.IsNought`, `Number.IsInfinity`, `Number.IsProper` — zeros, infinities, and all other
  numbers
* `Number.Noughts` — doubles that differ in the sign of zero, or are no numbers
* `Number.Interchangeable` — doubles that make no difference below a fraction bar, up to noughts

## Main results

* `Number.same_of_beq` — what compares as equal is the same number
* `Number.Noughts.mul`, `Number.same_add`, `Number.same_sub` — noughts in products, sums and
  differences
* `Number.interchangeable_div` — quotients by zeros
-/

namespace Sequencer

namespace Number

open Float.Model (UnpackedFloat)

variable {x y z : Float}

instance decidableSame (x y : Float) : Decidable (Same x y) := inferInstanceAs (Decidable (_ ∨ _))

theorem Same.refl (x : Float) : Same x x := Or.inl rfl

/-- Doubles that compare as equal are the same number. -/
theorem same_of_beq (h : (x == y) = true) : Same x y := by
  obtain ⟨-, -, rfl | ⟨rfl, rfl⟩ | ⟨rfl, rfl⟩⟩ := Float.beq_iff_ne_nan_and_eq.mp h
  · exact Or.inl rfl
  · exact Or.inr (by decide)
  · exact Or.inr (by decide)

theorem beq_self_of_isFinite (h : x.isFinite = true) : (x == x) = true := by
  refine Float.beq_self_iff.mpr ?_
  rintro rfl
  exact absurd h (by decide)

/-- One of the two zeros. -/
def IsNought (x : Float) : Prop := x = 0.0 ∨ x = -0.0

instance decidableIsNought (x : Float) : Decidable (IsNought x) :=
  inferInstanceAs (Decidable (_ ∨ _))

theorem isNought_iff : IsNought x ↔ (x == 0.0) = true := by
  constructor
  · rintro (rfl | rfl)
    · decide
    · decide
  · intro h
    obtain ⟨-, -, rfl | ⟨-, h⟩ | ⟨rfl, -⟩⟩ := Float.beq_iff_ne_nan_and_eq.mp h
    · exact Or.inl rfl
    · exact absurd h (by decide)
    · exact Or.inr (by decide)

/-- Two zeros, or two doubles that are not numbers. -/
def Noughts (x y : Float) : Prop := x = Float.nan ∧ y = Float.nan ∨ IsNought x ∧ IsNought y

instance decidableNoughts (x y : Float) : Decidable (Noughts x y) :=
  inferInstanceAs (Decidable (_ ∨ _))

/-- A double that is neither zero nor infinite, and is a number. -/
def IsProper (x : Float) : Prop := ∃ s m e hm, x.toModel.unpack = .finite s m e hm

theorem rel_same_cases {x y : Option Float} (h : Option.Rel Same x y) :
    x = y ∨ ∃ a b, x = some a ∧ y = some b ∧ IsNought a ∧ IsNought b := by
  cases h with
  | none => exact Or.inl rfl
  | @some a b hab =>
    rcases hab with rfl | ⟨ha, hb⟩
    · exact Or.inl rfl
    · exact Or.inr ⟨a, b, rfl, rfl, isNought_iff.mpr ha, isNought_iff.mpr hb⟩

theorem eq_pack (x : Float) : x = .ofModel (.pack x.toModel.unpack) := (Float.ofBits_toBits x).symm

/-- Apart from five values, all doubles are proper numbers. -/
theorem isProper_or (x : Float) :
    IsProper x ∨ x = Float.nan ∨ x = Float.inf ∨ x = -Float.inf ∨ x = 0.0 ∨ x = -0.0 := by
  have hx := eq_pack x
  cases h : x.toModel.unpack with
  | finite s m e hm => exact Or.inl ⟨s, m, e, hm, h⟩
  | notANumber =>
    rw [hx, h]
    exact Or.inr (by decide)
  | infinity s =>
    rw [hx, h]
    cases s <;> exact Or.inr (by decide)
  | zero s =>
    rw [hx, h]
    cases s <;> exact Or.inr (by decide)

theorem IsNought.unpack (h : IsNought x) : ∃ t, x.toModel.unpack = .zero t := by
  rcases h with rfl | rfl
  · exact ⟨.positive, rfl⟩
  · exact ⟨.negative, rfl⟩

/-- One of the two infinities. -/
def IsInfinity (x : Float) : Prop := x = Float.inf ∨ x = -Float.inf

instance decidableIsInfinity (x : Float) : Decidable (IsInfinity x) :=
  inferInstanceAs (Decidable (_ ∨ _))

theorem IsInfinity.unpack (h : IsInfinity x) : ∃ t, x.toModel.unpack = .infinity t := by
  rcases h with rfl | rfl
  · exact ⟨.positive, rfl⟩
  · exact ⟨.negative, rfl⟩

/-! Between proper numbers on one side and zeros or infinities on the other, nothing is rounded. -/

section Proper

variable (hz : IsProper z)

include hz

theorem isNought_mul (h : IsNought x) : IsNought (x * z) := by
  obtain ⟨s, m, e, hm, hz⟩ := hz
  obtain ⟨t, hx⟩ := h.unpack
  have hproduct : x * z = .ofModel (.pack (.zero (t * s))) := by
    show Float.ofModel (.pack (UnpackedFloat.mul .binary64 x.toModel.unpack z.toModel.unpack)) = _
    rw [hx, hz]
    rfl
  rw [hproduct]
  cases t <;> cases s <;> decide

theorem isNought_div (h : IsInfinity x) : IsNought (z / x) := by
  obtain ⟨s, m, e, hm, hz⟩ := hz
  obtain ⟨t, hx⟩ := h.unpack
  have hquotient : z / x = .ofModel (.pack (.zero (s / t))) := by
    show Float.ofModel (.pack (UnpackedFloat.div .binary64 z.toModel.unpack x.toModel.unpack)) = _
    rw [hx, hz]
    rfl
  rw [hquotient]
  cases t <;> cases s <;> decide

theorem isInfinity_div (h : IsNought x) : IsInfinity (z / x) := by
  obtain ⟨s, m, e, hm, hz⟩ := hz
  obtain ⟨t, hx⟩ := h.unpack
  have hquotient : z / x = .ofModel (.pack (.infinity (s / t))) := by
    show Float.ofModel (.pack (UnpackedFloat.div .binary64 z.toModel.unpack x.toModel.unpack)) = _
    rw [hx, hz]
    rfl
  rw [hquotient]
  cases t <;> cases s <;> decide

theorem add_nought (h : IsNought x) : z + x = z := by
  have hpack := eq_pack z
  obtain ⟨s, m, e, hm, hz⟩ := hz
  obtain ⟨t, hx⟩ := h.unpack
  show Float.ofModel (.pack (UnpackedFloat.add .binary64 z.toModel.unpack x.toModel.unpack)) = z
  rw [hz] at hpack
  rw [hx, hz]
  exact hpack.symm

theorem sub_nought (h : IsNought x) : z - x = z := by
  have hpack := eq_pack z
  obtain ⟨s, m, e, hm, hz⟩ := hz
  obtain ⟨t, hx⟩ := h.unpack
  show Float.ofModel (.pack (UnpackedFloat.sub .binary64 z.toModel.unpack x.toModel.unpack)) = z
  rw [hz] at hpack
  rw [hx, hz]
  exact hpack.symm

end Proper

namespace Noughts

variable {x' y' : Float}

theorem add (h : Noughts x y) (h' : Noughts x' y') : Noughts (x + x') (y + y') := by
  rcases h with ⟨rfl, rfl⟩ | ⟨rfl | rfl, rfl | rfl⟩ <;>
    rcases h' with ⟨rfl, rfl⟩ | ⟨rfl | rfl, rfl | rfl⟩ <;> decide

theorem sub (h : Noughts x y) (h' : Noughts x' y') : Noughts (x - x') (y - y') := by
  rcases h with ⟨rfl, rfl⟩ | ⟨rfl | rfl, rfl | rfl⟩ <;>
    rcases h' with ⟨rfl, rfl⟩ | ⟨rfl | rfl, rfl | rfl⟩ <;> decide

theorem halve (h : Noughts x y) : Noughts (x / ((2 : Nat) : Float)) (y / ((2 : Nat) : Float)) := by
  rcases h with ⟨rfl, rfl⟩ | ⟨rfl | rfl, rfl | rfl⟩ <;> decide

/-- Whatever noughts are multiplied by, they stay noughts. -/
theorem mul (h : Noughts x y) (z : Float) : Noughts (x * z) (y * z) := by
  rcases isProper_or z with hz | hz
  · rcases h with ⟨rfl, rfl⟩ | ⟨hx, hy⟩
    · exact Or.inl ⟨rfl, rfl⟩
    · exact Or.inr ⟨isNought_mul hz hx, isNought_mul hz hy⟩
  · rcases h with ⟨rfl, rfl⟩ | ⟨rfl | rfl, rfl | rfl⟩ <;> rcases hz with rfl | rfl | rfl | rfl | rfl
      <;> decide

end Noughts

/-- A number does not see which zero is added to it, unless it is zero itself. -/
theorem same_add (h : Noughts x y) (z : Float) : Same (z + x) (z + y) := by
  rcases isProper_or z with hz | hz
  · rcases h with ⟨rfl, rfl⟩ | ⟨hx, hy⟩
    · exact Same.refl _
    · rw [add_nought hz hx, add_nought hz hy]
      exact Same.refl z
  · rcases h with ⟨rfl, rfl⟩ | ⟨rfl | rfl, rfl | rfl⟩ <;> rcases hz with rfl | rfl | rfl | rfl | rfl
      <;> decide

theorem same_sub (h : Noughts x y) (z : Float) : Same (z - x) (z - y) := by
  rcases isProper_or z with hz | hz
  · rcases h with ⟨rfl, rfl⟩ | ⟨hx, hy⟩
    · exact Same.refl _
    · rw [sub_nought hz hx, sub_nought hz hy]
      exact Same.refl z
  · rcases h with ⟨rfl, rfl⟩ | ⟨rfl | rfl, rfl | rfl⟩ <;> rcases hz with rfl | rfl | rfl | rfl | rfl
      <;> decide

/-- Divided by infinities, everything becomes a nought, or not a number. -/
theorem noughts_div (hx : IsInfinity x) (hy : IsInfinity y) (z : Float) :
    Noughts (z / x) (z / y) := by
  rcases isProper_or z with hz | hz
  · exact Or.inr ⟨isNought_div hz hx, isNought_div hz hy⟩
  · rcases hx with rfl | rfl <;> rcases hy with rfl | rfl <;> rcases hz with
      rfl | rfl | rfl | rfl | rfl <;> decide

theorem div_nan (z : Float) : z / Float.nan = Float.nan := by
  rcases isProper_or z with ⟨s, m, e, hm, hz⟩ | hz
  · show Float.ofModel
      (.pack (UnpackedFloat.div .binary64 z.toModel.unpack Float.nan.toModel.unpack)) = _
    rw [hz]
    rfl
  · rcases hz with rfl | rfl | rfl | rfl | rfl <;> decide

/-- Two doubles that can stand for each other below a fraction bar, up to noughts. -/
structure Interchangeable (x y : Float) : Prop where
  square : x * x = y * y
  div : ∀ z, Noughts (z / x) (z / y)
  /-- By the square itself, everything is divided down to a nought, or not a number. -/
  div_square : ∀ z, Noughts (z / (x * x)) (z / (x * x))

theorem interchangeable_nan : Interchangeable Float.nan Float.nan := by
  have hdiv : ∀ z, Noughts (z / Float.nan) (z / Float.nan) := fun z => Or.inl ⟨div_nan z, div_nan z⟩
  refine ⟨rfl, hdiv, ?_⟩
  rw [show Float.nan * Float.nan = Float.nan by decide]
  exact hdiv

theorem interchangeable_infinities (hx : IsInfinity x) (hy : IsInfinity y) :
    Interchangeable x y := by
  have hsquare : ∀ {z : Float}, IsInfinity z → z * z = Float.inf := by
    rintro z (rfl | rfl)
    · decide
    · decide
  refine ⟨(hsquare hx).trans (hsquare hy).symm, noughts_div hx hy, ?_⟩
  rw [hsquare hx]
  exact noughts_div (Or.inl rfl) (Or.inl rfl)

/-- Divided by zeros, a number gives infinities, or nothing. -/
theorem interchangeable_div (hx : IsNought x) (hy : IsNought y) (z : Float) :
    Interchangeable (z / x) (z / y) := by
  rcases isProper_or z with hz | hz
  · exact interchangeable_infinities (isInfinity_div hz hx) (isInfinity_div hz hy)
  · rcases hz with rfl | rfl | rfl | rfl | rfl
    · rcases hx with rfl | rfl <;> rcases hy with rfl | rfl <;> exact interchangeable_nan
    · rcases hx with rfl | rfl <;> rcases hy with rfl | rfl <;>
        exact interchangeable_infinities (by decide) (by decide)
    · rcases hx with rfl | rfl <;> rcases hy with rfl | rfl <;>
        exact interchangeable_infinities (by decide) (by decide)
    · rcases hx with rfl | rfl <;> rcases hy with rfl | rfl <;> exact interchangeable_nan
    · rcases hx with rfl | rfl <;> rcases hy with rfl | rfl <;> exact interchangeable_nan

end Number

end Sequencer
