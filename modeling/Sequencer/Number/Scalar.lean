/-!
# Scalars

Waveform arithmetic is written over any type of scalars, so that it can be read over exact numbers
as well as over doubles. Constants are casts of natural numbers, and the functions that ordered
fields do not have come in a record of their own.

## Main definitions

* `Elementary` — exponential, cosine, sine and the circle number
* `Elementary.double` — those of doubles
-/

namespace Sequencer

/-- A natural number as a double is the nearest one. -/
instance natCastFloat : NatCast Float := ⟨Float.ofNat⟩

/-- The elementary functions that waveforms need. -/
structure Elementary (R : Type) where
  exp : R → R
  cos : R → R
  sin : R → R
  pi : R

/-- The elementary functions of doubles. -/
def Elementary.double : Elementary Float where
  exp := Float.exp
  cos := Float.cos
  sin := Float.sin
  pi := 3.141592653589793

end Sequencer
