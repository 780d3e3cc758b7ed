import Sequencer.Waveform.Basic
import Sequencer.Waveform.Convolution

/-!
# Waveform functions

The three standard shapes, over any scalars. The order of the arithmetic is part of the definition:
doubles round after every step.

## Main definitions

* `Shape` — the standard waveform functions and their names
* `Shape.flat`, `Shape.soft`, `Shape.envelope` — the samples of a square, a soft square and a drag
  pulse
-/

namespace Sequencer

/-- The standard waveform functions. -/
inductive Shape where
  | square
  | softSquare
  | drag
deriving DecidableEq

namespace Shape

/-- The waveform function with a given name. -/
def ofName? (name : String) : Option Shape :=
  if name = "square" then some .square
  else if name = "soft_square" then some .softSquare
  else if name = "drag" then some .drag
  else none

section Samples

variable {R : Type} [NatCast R] [Add R] [Sub R] [Mul R] [Div R] [Neg R]

/-- A constant. -/
def flat (times : List R) (amplitude : R) : List R := List.replicate times.length amplitude

/-- One half. -/
def half : R := ((1 : Nat) : R) / ((2 : Nat) : R)

/-- A raised cosine over `n` samples that starts and ends at zero. A single sample is one. -/
def window (f : Elementary R) (n : Nat) : List R :=
  if n = 1 then [((1 : Nat) : R)]
  else (List.range n).map fun i =>
    half - half * f.cos (((2 : Nat) : R) * f.pi * ((i : Nat) : R) / ((n - 1 : Nat) : R))

/-- A square whose edges are smoothed by a window of half its length. One too short for a window
with some weight stays a square. -/
def soft [LE R] [DecidableLE R] (f : Elementary R) (times : List R) (amplitude : R) : List R :=
  let data := flat times amplitude
  let kernel := window f (times.length / 2)
  let weight := kernel.foldl (· + ·) ((0 : Nat) : R)
  if weight ≤ ((0 : Nat) : R) then data else (Convolution.centre data kernel).map (· / weight)

/-- The numbers that a drag pulse depends on. -/
structure Drag (R : Type) where
  gauss : R
  derivative : R
  duration : R
  sigmas : R
  phase : R

/-- The product of two complex numbers. -/
def multiply (z w : R × R) : R × R := (z.1 * w.1 - z.2 * w.2, z.1 * w.2 + z.2 * w.1)

/-- The rotation by an angle in degrees, as a complex number. -/
def rotation (f : Elementary R) (degrees : R) : R × R :=
  let angle := degrees * (f.pi / ((180 : Nat) : R))
  (f.cos angle, f.sin angle)

/-- A Gaussian on one path with its derivative on the other, rotated. The mean of the first and the
last sample is taken off each path, so that the pulse starts and ends close to zero. -/
def envelope (f : Elementary R) (p : Drag R) : List R → List (R × R)
  | [] => []
  | first :: rest =>
    let last := (first :: rest).getLast (by simp)
    let two : R := ((2 : Nat) : R)
    let mean := first + p.duration / two
    let sigma := p.duration / (two * p.sigmas)
    let bell := fun x : R => f.exp (-half * ((x - mean) * (x - mean)) / (sigma * sigma))
    let gauss := fun x : R => p.gauss * bell x
    let slope := fun x : R => -p.derivative * (x - mean) / sigma * bell x
    let gaussOffset := (gauss first + gauss last) / two
    let slopeOffset := (slope first + slope last) / two
    let turn := rotation f p.phase
    (first :: rest).map fun x => multiply (gauss x - gaussOffset, slope x - slopeOffset) turn

end Samples

end Shape

end Sequencer
