/-!
# Convolution

The full convolution of `n` samples with a kernel of length `m` has `n + m - 1` samples; its central
part has as many samples as the data. All indices are in range by their types.

## Main definitions

* `Convolution.coefficient` — one sample of the full convolution
* `Convolution.centre` — the central part
-/

namespace Sequencer.Convolution

variable {R : Type} [NatCast R] [Add R] [Mul R]

/-- The sample at `index` of the full convolution: the sum of `kernel[j] * data[index - j]` over the
`j` for which both exist, in ascending order. -/
def coefficient (data kernel : Array R) (index : Nat) : R :=
  (List.finRange kernel.size).foldl
    (fun sum j =>
      if h : j.val ≤ index ∧ index - j.val < data.size then sum + kernel[j] * data[index - j.val]
      else sum)
    ((0 : Nat) : R)

/-- The central part of the full convolution. -/
def centre (data kernel : List R) : List R :=
  let d := data.toArray
  let k := kernel.toArray
  (List.range data.length).map fun i => coefficient d k (i + (kernel.length - 1) / 2)

@[simp] theorem length_centre (data kernel : List R) :
    (centre data kernel).length = data.length := by
  simp [centre]

end Sequencer.Convolution
