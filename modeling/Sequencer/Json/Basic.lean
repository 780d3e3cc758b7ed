import Sequencer.Number.Format

/-!
# JSON values

A JSON value keeps the members of its objects in order, and tells integers from other numbers.

## Main definitions

* `Json` — values
* `Json.get?` — a member of an object
* `Json.number` — how numbers are written
-/

namespace Sequencer

/-- A JSON value. -/
inductive Json where
  | null
  | bool (value : Bool)
  | int (value : Int)
  | real (value : Float)
  | text (value : String)
  | list (items : List Json)
  | object (members : List (String × Json))

namespace Json

/-- Numbers are written positionally from `0.00001` up to sixteen digits before the point, always
with a point, and scientifically with a signed exponent otherwise. -/
def number : NumberFormat where
  tie := .even
  positional := fun e => decide (-5 ≤ e ∧ e ≤ 15)
  keepPoint := true
  plusSign := true

/-- The member of an object with a given key. -/
def get? : Json → String → Option Json
  | .object members, key => members.lookup key
  | _, _ => none

/-- An optional value, absent ones being null. -/
def ofOption {α : Type} (f : α → Json) : Option α → Json
  | some a => f a
  | none => .null

end Json

end Sequencer
