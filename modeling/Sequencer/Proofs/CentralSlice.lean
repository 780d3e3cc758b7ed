import Mathlib.Algebra.BigOperators.Fin
import Mathlib.Algebra.Polynomial.Coeff
import Mathlib.Data.List.GetD
import Mathlib.Data.Nat.PSub
import Sequencer.Waveform.Convolution

/-!
# The central slice of a product

A soft square is a constant convolved with a window, cut to the length of the constant. What is cut
is decided by a few subtractions: half of the kernel stands out at the start, and at both ends some
kernel samples meet no data. A margin that is off by one, or a test that drops one term too many,
changes the edges of a pulse and nothing else.

Samples are the coefficients of a polynomial, and the full convolution is then a product. One round
of the loop over the kernel adds what one monomial of the kernel contributes to a coefficient of the
product. A monomial that meets no data contributes nothing, which is why the rounds that the test
skips may be skipped.

`coefficient` has indices in range by their types, so it cannot show that its test is what keeps
them there. `centre?` is the same loop on plain numbers: a difference below zero fails, and so does
a look-up beyond the end. Its agreement with `centre` is not about sums, and holds of doubles as
well.

## Main definitions

* `Convolution.centre?` — the central part, by subtractions and look-ups that can fail
* `Convolution.polynomial` — the polynomial with given samples as coefficients

## Main results

* `Convolution.centre?_eq_some` — nothing fails unless the kernel is empty
* `Convolution.coefficient_eq_coeff` — the loop computes a coefficient of the product
* `Convolution.exists_polynomial_append` — the central part lies in the middle of the product
* `Convolution.central_slice` — the central part is the slice of the product that starts half a
  kernel in
-/

namespace Sequencer.Convolution

open Polynomial

/-! ## Look-ups that can fail -/

section Guarded

variable {R : Type} [Add R] [Mul R]

/-- One round of the loop over the kernel. -/
def accumulate (data kernel : List R) (index : Nat) (sum : R) (j : Fin kernel.length) : R :=
  if h : j.val ≤ index ∧ index - j.val < data.length then sum + kernel.get j * data.get
    ⟨index - j.val, h.2⟩
  else sum

theorem coefficient_eq_foldl [NatCast R] (data kernel : List R) (index : Nat) :
    coefficient data.toArray kernel.toArray index =
      (List.finRange kernel.length).foldl (accumulate data kernel index) ((0 : Nat) : R) := rfl

/-- One round of the loop, where a difference below zero and a look-up beyond the end fail. The
difference is taken only after the comparison, and the samples are looked up only after both
tests. -/
def accumulate? (data kernel : List R) (index : Nat) (sum : R) (j : Nat) : Option R :=
  if j ≤ index then do
    let position ← Nat.psub index j
    if position < data.length then
      let weight ← kernel[j]?
      let sample ← data[position]?
      return sum + weight * sample
    else return sum
  else return sum

/-- The central part of the full convolution, if no index is out of range on the way. -/
def centre? [NatCast R] (data kernel : List R) : Option (List R) := do
  let degree ← Nat.psub kernel.length 1
  (List.range data.length).mapM fun k =>
    (List.range kernel.length).foldlM (accumulate? data kernel (k + degree / 2)) ((0 : Nat) : R)

theorem accumulate?_eq_some (data kernel : List R) (index : Nat) (sum : R) (j : Fin kernel.length) :
    accumulate? data kernel index sum j = some (accumulate data kernel index sum j) := by
  by_cases hle : j.val ≤ index
  · by_cases hlt : index - j.val < data.length
      <;> simp [accumulate?, accumulate, hle, hlt, Nat.psub_eq_sub]
  · simp [accumulate?, accumulate, hle]

theorem foldlM_accumulate? (data kernel : List R) (index : Nat) (start : R) :
    (List.range kernel.length).foldlM (accumulate? data kernel index) start =
      some ((List.finRange kernel.length).foldl (accumulate data kernel index) start) := by
  rw [← List.map_coe_finRange_eq_range, List.foldlM_map]
  simp only [accumulate?_eq_some]
  exact List.foldlM_pure

/-- **Nothing fails unless the kernel is empty**, and the result is the central part. -/
theorem centre?_eq_some [NatCast R] (data : List R) {kernel : List R}
    (hkernel : 1 ≤ kernel.length) : centre? data kernel = some (centre data kernel) := by
  simp only [centre?, Nat.psub_eq_sub hkernel, foldlM_accumulate?, ← coefficient_eq_foldl]
  exact List.mapM_pure

example : centre? [1, 2] ([] : List Nat) = none := rfl

end Guarded

/-! ## Samples as coefficients -/

section Product

variable {R : Type} [CommSemiring R]

/-- The polynomial with the samples as coefficients, the first at degree zero. -/
noncomputable def polynomial (samples : List R) : R[X] :=
  ∑ i : Fin samples.length, monomial i.val (samples.get i)

theorem coeff_polynomial (samples : List R) (i : Nat) :
    (polynomial samples).coeff i = samples.getD i 0 := by
  rw [polynomial, finsetSum_coeff]
  simp only [coeff_monomial]
  by_cases hi : i < samples.length
  · rw [Finset.sum_eq_single ⟨i, hi⟩]
    · simp [hi]
    · intro j _ hj
      exact if_neg fun h => hj (Fin.ext h)
    · simp
  · rw [List.getD_eq_default _ _ (Nat.le_of_not_lt hi)]
    refine Finset.sum_eq_zero fun j _ => if_neg ?_
    omega

/-- What a monomial of the kernel contributes: the data sample that it meets, or nothing if it meets
none. -/
theorem coeff_polynomial_mul_monomial (data : List R) (j : Nat) (weight : R) (index : Nat) :
    (polynomial data * monomial j weight).coeff index =
      if h : j ≤ index ∧ index - j < data.length then weight * data.get ⟨index - j, h.2⟩
        else 0 := by
  rw [← C_mul_X_pow_eq_monomial, ← mul_assoc, coeff_mul_X_pow', coeff_mul_C, coeff_polynomial]
  by_cases hle : j ≤ index
  · by_cases hlt : index - j < data.length
    · rw [if_pos hle, dif_pos ⟨hle, hlt⟩, List.getD_eq_getElem _ _ hlt, mul_comm]
      rfl
    · rw [if_pos hle, dif_neg fun h => hlt h.2, List.getD_eq_default _ _ (Nat.le_of_not_lt hlt),
        zero_mul]
  · rw [if_neg hle, dif_neg fun h => hle h.1]

theorem coeff_polynomial_mul (data kernel : List R) (index : Nat) :
    (polynomial data * polynomial kernel).coeff index =
      ∑ j : Fin kernel.length, (polynomial data * monomial j.val (kernel.get j)).coeff index := by
  rw [show polynomial kernel = ∑ j : Fin kernel.length, monomial j.val (kernel.get j) from rfl,
    Finset.mul_sum, finsetSum_coeff]

/-- One round adds what its monomial contributes. -/
theorem accumulate_eq_add_coeff (data kernel : List R) (index : Nat) (sum : R)
    (j : Fin kernel.length) :
    accumulate data kernel index sum j
      = sum + (polynomial data * monomial j.val (kernel.get j)).coeff index := by
  rw [coeff_polynomial_mul_monomial, accumulate]
  by_cases h : j.val ≤ index ∧ index - j.val < data.length
  · rw [dif_pos h, dif_pos h]
  · rw [dif_neg h, dif_neg h, add_zero]

/-- **The loop computes a coefficient of the product.** -/
theorem coefficient_eq_coeff (data kernel : List R) (index : Nat) :
    coefficient data.toArray kernel.toArray index
      = (polynomial data * polynomial kernel).coeff index := by
  rw [coefficient_eq_foldl, coeff_polynomial_mul, Fin.sum_univ_def, List.sum_eq_foldl,
    List.foldl_map, Nat.cast_zero]
  -- two loops over the same positions, with the same rounds
  congr 1
  funext sum j
  exact accumulate_eq_add_coeff data kernel index sum j

/-! ## The slice -/

theorem centre_eq_map (data kernel : List R) :
    centre data kernel = (List.range data.length).map fun k =>
      (polynomial data * polynomial kernel).coeff (k + (kernel.length - 1) / 2) := by
  simp only [centre, coefficient_eq_coeff]

/-- From the length of the full convolution on, no monomial of the kernel meets data. -/
theorem coeff_polynomial_mul_of_le {data kernel : List R} {index : Nat}
    (h : data.length + kernel.length ≤ index + 1) :
    (polynomial data * polynomial kernel).coeff index = 0 := by
  rw [coeff_polynomial_mul]
  refine Finset.sum_eq_zero fun j _ => ?_
  rw [coeff_polynomial_mul_monomial, dif_neg]
  omega

theorem polynomial_map_coeff {p : R[X]} {count : Nat} (h : ∀ i, count ≤ i → p.coeff i = 0) :
    polynomial ((List.range count).map p.coeff) = p := by
  ext i
  rw [coeff_polynomial]
  by_cases hi : i < count
  · simp [hi]
  · simp [hi, h i (Nat.le_of_not_lt hi)]

/-- **The central part lies in the middle of the product.** The samples cut off at the end are as
many as those cut off at the start, or one more. -/
theorem exists_polynomial_append (data : List R) {kernel : List R} (hkernel : 1 ≤ kernel.length) :
    ∃ before after : List R, before.length = (kernel.length - 1) / 2 ∧
      after.length = kernel.length / 2 ∧
      polynomial (before ++ centre data kernel ++ after) = polynomial data * polynomial kernel := by
  let margin := (kernel.length - 1) / 2
  let product := polynomial data * polynomial kernel
  refine ⟨(List.range margin).map product.coeff,
    (List.range (kernel.length / 2)).map fun k => product.coeff (margin + data.length + k),
    ?_, by simp, ?_⟩
  · rw [List.length_map, List.length_range]
  -- the three pieces are one range of degrees, which ends where the product does
  have hfull : (List.range margin).map product.coeff ++ centre data kernel ++
      (List.range (kernel.length / 2)).map (fun k => product.coeff (margin + data.length + k)) =
      (List.range (margin + data.length + kernel.length / 2)).map product.coeff := by
    rw [List.range_add, List.range_add, List.map_append, List.map_append, List.map_map,
      List.map_map, centre_eq_map]
    simp only [Function.comp_def, Nat.add_comm, margin, product]
  rw [hfull]
  exact polynomial_map_coeff fun i hi => coeff_polynomial_mul_of_le (by omega)

/-- **The central part is the slice of the product that starts half a kernel in.** Over any
commutative semiring, for any data and any kernel with a sample: all differences exist and all
look-ups succeed, there are as many samples as data, and each is the coefficient of the product that
lies half a kernel further. That is a coefficient of the full convolution, and equally much is cut
off on both sides, up to one sample. -/
theorem central_slice (data kernel : List R) (hkernel : 1 ≤ kernel.length) :
    centre? data kernel = some (centre data kernel) ∧ (centre data kernel).length = data.length ∧
      (∀ k < data.length, k + (kernel.length - 1) / 2 < data.length + kernel.length - 1 ∧
        (centre data kernel)[k]? =
          some ((polynomial data * polynomial kernel).coeff (k + (kernel.length - 1) / 2))) ∧
      ∃ before after : List R, before.length = (kernel.length - 1) / 2 ∧
        after.length = kernel.length / 2 ∧
        polynomial (before ++ centre data kernel ++ after)
          = polynomial data * polynomial kernel := by
  refine ⟨centre?_eq_some data hkernel, length_centre data kernel, fun k hk => ⟨by omega, ?_⟩,
    exists_polynomial_append data hkernel⟩
  rw [centre_eq_map]
  simp [hk]

end Product

/-- A kernel of even length that is longer than the data. -/
theorem central_slice_long :
    1 ≤ [1, 3, 5, 7].length ∧ centre? [1, 2] [1, 3, 5, 7] = some [5, 11] ∧
      (polynomial [1, 2] * polynomial [1, 3, 5, 7]).coeff 2 = 11 := by
  have hkernel : 1 ≤ [1, 3, 5, 7].length := by decide
  have hsamples : centre [1, 2] [1, 3, 5, 7] = [5, 11] := by decide
  obtain ⟨hcentre, -, hcoeff, -⟩ := central_slice [1, 2] [1, 3, 5, 7] hkernel
  rw [hsamples] at hcentre hcoeff
  exact ⟨hkernel, hcentre, (Option.some.inj (hcoeff 1 (by decide)).2).symm⟩

end Sequencer.Convolution
