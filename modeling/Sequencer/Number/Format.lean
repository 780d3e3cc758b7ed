import Sequencer.Number.Shortest

/-!
# Writing doubles

All texts of doubles in this library use the shortest digits that read back; they differ in where
positional notation ends and in details of the exponent. A `NumberFormat` records these decisions,
and the module that owns an output owns its format.

## Main definitions

* `NumberFormat` — the decisions
* `NumberFormat.write` — the text of a double
-/

namespace Sequencer

/-- How a double is written. -/
structure NumberFormat where
  /-- Which of two equally near shortest decimals is taken. -/
  tie : Tie
  /-- Whether a value `d.ddd · 10 ^ e` is written without an exponent. -/
  positional : Int → Bool
  /-- Whether an integer is written with `.0`. -/
  keepPoint : Bool
  /-- Whether a positive exponent has a `+`. -/
  plusSign : Bool

namespace NumberFormat

/-- A text of `n` zeros. -/
def zeros (n : Nat) : String := String.ofList (List.replicate n '0')

/-- Positional notation of `digits · 10 ^ exponent`. -/
def writePositional (f : NumberFormat) (d : Decimal) : String :=
  let text := toString d.digits
  if 0 ≤ d.exponent then
    text ++ zeros d.exponent.toNat ++ (if f.keepPoint then ".0" else "")
  else
    let places := d.exponent.natAbs
    if places < text.length then
      let whole := text.length - places
      String.ofList (text.toList.take whole) ++ "." ++ String.ofList (text.toList.drop whole)
    else "0." ++ zeros (places - text.length) ++ text

/-- Scientific notation of `digits · 10 ^ exponent`, the first digit having the weight `10 ^
order`. -/
def writeScientific (f : NumberFormat) (d : Decimal) (order : Int) : String :=
  let text := toString d.digits
  let mantissa :=
    match text.toList with
    | [] => ""
    | [c] => String.ofList [c]
    | c :: rest => String.ofList (c :: '.' :: rest)
  mantissa ++ "e" ++ (if f.plusSign ∧ 0 ≤ order then "+" else "") ++ toString order

/-- The text of a non-negative decimal in canonical form. -/
def writeDecimal (f : NumberFormat) (d : Decimal) : String :=
  let order := (Decimal.length d.digits : Int) - 1 + d.exponent
  if f.positional order then f.writePositional d else f.writeScientific d order

/-- The text of a double. The sign of zero is kept. -/
def write (f : NumberFormat) (x : Float) : String :=
  match Dyadic.ofFloat? x with
  | none => if x.isNaN then "NaN" else if x < 0.0 then "-inf" else "inf"
  | some d =>
    let decimal := if d.mantissa = 0 then ⟨0, 0⟩ else Shortest.digits f.tie x.abs d
    (if d.negative then "-" else "") ++ f.writeDecimal decimal

end NumberFormat

end Sequencer
