import Sequencer.Json.Decode
import Sequencer.Json.Printer
import Sequencer.Json.Reader

/-!
# Reading written numbers

A number is not closed by a character of its own. It is read up to the first character that cannot
continue it, so what follows a number decides whether it is read as it was written. A *spelling* is
a number by its characters: sign, digits, fraction and power of ten. All numbers that are written
into JSON texts have a proper spelling, and a proper spelling is read as its numeral in front of
anything that is no part of a number.

A double is always written with a point or with a power of ten, so it is never read as an integer.
Whether it is read as the same double is another matter, since digits that are read are not rounded
once; a double for which this holds *reads back*.

## Main definitions

* `Spelling`, `Spelling.text`, `Spelling.numeral` — a number by its characters
* `Reader.Detached` — texts that cannot continue a number
* `Json.ReadsBack` — a double that is read as it was written

## Main results

* `Spelling.number_text` — a proper spelling is read as its numeral
* `Spelling.exists_int` — integers have a spelling, and those of 64 bits are read as they were
  written
* `Spelling.exists_write` — doubles have a spelling, which is not that of an integer
-/

namespace Sequencer

/-! ## Digits -/

/-- The digits of a number start with a zero only if the number is zero. -/
theorem eq_zero_of_head?_toDigits (n : Nat) (h : (Nat.toDigits 10 n).head? = some '0') : n = 0 := by
  induction n using Nat.strongRecOn with
  | ind n ih =>
    rw [Nat.toDigits_eq_if (by decide)] at h
    split at h
    · next hlt =>
      have hdigit : ∀ n < 10, n.digitChar = '0' → n = 0 := by decide
      exact hdigit n hlt (by simpa using h)
    · next hlt =>
      obtain ⟨c, cs, hcs⟩ :=
        List.exists_cons_of_ne_nil (Nat.toDigits_ne_nil (n := n / 10) (b := 10))
      rw [hcs] at h
      have := ih (n / 10) (by omega) (by rw [hcs]; exact h)
      omega

theorem toList_toString_nat (n : Nat) : (toString n).toList = Nat.toDigits 10 n := by
  rw [Nat.toString_eq_repr, Nat.toList_repr]

/-- Digits, of which there is at least one. -/
structure IsDigits (cs : List Char) : Prop where
  ne_nil : cs ≠ []
  all : ∀ c ∈ cs, c.isDigit = true

/-- The digits before a point: without a leading zero, unless there is nothing but a zero. -/
structure IsWhole (cs : List Char) : Prop extends IsDigits cs where
  single : cs.head? = some '0' → cs = ['0']

theorem IsDigits.toDigits (n : Nat) : IsDigits (Nat.toDigits 10 n) :=
  ⟨Nat.toDigits_ne_nil, fun _ => Nat.isDigit_of_mem_toDigits (by decide) (by decide)⟩

theorem IsWhole.toDigits (n : Nat) : IsWhole (Nat.toDigits 10 n) where
  toIsDigits := .toDigits n
  single := by
    intro h
    rw [eq_zero_of_head?_toDigits n h]
    rfl

theorem IsWhole.singleton {c : Char} (h : c.isDigit = true) : IsWhole [c] where
  ne_nil := List.cons_ne_nil c []
  all := by simpa using h
  single := by simp

/-- The values of digits. -/
def digitValues (cs : List Char) : List Nat := cs.map fun c => c.toNat - 48

/-! ## Spellings -/

/-- A number by its characters. -/
structure Spelling where
  negative : Bool
  /-- The digits before the point. -/
  whole : List Char
  /-- The digits after the point; without any, there is no point either. -/
  fraction : List Char
  /-- The sign and the digits of the power of ten, if there is one. -/
  power : Option (Char × List Char)

namespace Spelling

/-- The point and the digits after it. -/
def fractionText : List Char → List Char
  | [] => []
  | c :: cs => '.' :: c :: cs

theorem fractionText_of_ne_nil {cs : List Char} (h : cs ≠ []) : fractionText cs = '.' :: cs := by
  cases cs with
  | nil => exact absurd rfl h
  | cons c cs => rfl

/-- The power of ten. -/
def powerText : Option (Char × List Char) → List Char
  | none => []
  | some (sign, cs) => 'e' :: sign :: cs

/-- The characters of a number in order. -/
def text (w : Spelling) : List Char :=
  (if w.negative then ['-'] else []) ++ (w.whole ++ (fractionText w.fraction ++ powerText w.power))

/-- The value of a power of ten. -/
def powerValue (power : Char × List Char) : Int :=
  if power.1 = '-' then -(Nat.ofDigitChars 10 power.2 0 : Int) else Nat.ofDigitChars 10 power.2 0

/-- The number that is spelled. -/
def numeral (w : Spelling) : Numeral :=
  ⟨w.negative, digitValues w.whole, digitValues w.fraction, w.power.map powerValue⟩

/-- The parts of a number are digits, and a power of ten has a sign. -/
structure Proper (w : Spelling) : Prop where
  whole : IsWhole w.whole
  fraction : ∀ c ∈ w.fraction, c.isDigit = true
  power : ∀ p ∈ w.power, (p.1 = '+' ∨ p.1 = '-') ∧ IsDigits p.2

end Spelling

/-! ## Scanning -/

namespace Reader

/-- A character that can start a number. -/
def IsStart (c : Char) : Prop := c = '-' ∨ c.isDigit = true

theorem IsStart.ne {c d : Char} (hc : IsStart c) (hd : d ≠ '-' ∧ d.isDigit = false) : c ≠ d := by
  rintro rfl
  rcases hc with hc | hc
  · exact hd.1 hc
  · simp [hd.2] at hc

theorem IsStart.isSpace {c : Char} (hc : IsStart c) : isSpace c = false := by
  have hblank : c ≠ ' ' ∧ c ≠ '\n' ∧ c ≠ '\t' ∧ c ≠ '\r' :=
    ⟨hc.ne (by decide), hc.ne (by decide), hc.ne (by decide), hc.ne (by decide)⟩
  simp [Reader.isSpace, hblank]

theorem skipSpaces_cons {c : Char} (h : isSpace c = false) (cs : List Char) :
    skipSpaces (c :: cs) = c :: cs :=
  List.dropWhile_cons_of_neg (by simp [h])

/-- A text that starts with no digit. -/
def NoDigit (cs : List Char) : Prop := ∀ c ∈ cs.head?, c.isDigit = false

/-- A text that cannot continue a number. -/
structure Detached (cs : List Char) : Prop where
  noDigit : NoDigit cs
  noPoint : cs.head? ≠ some '.'
  noPower : cs.head? ≠ some 'e' ∧ cs.head? ≠ some 'E'

theorem Detached.nil : Detached [] := ⟨by simp [NoDigit], by simp, by simp⟩

theorem NoDigit.cons {c : Char} (h : c.isDigit = false) (cs : List Char) : NoDigit (c :: cs) := by
  intro c' hc
  obtain rfl := Option.some.inj hc
  exact h

theorem NoDigit.takeWhile {cs : List Char} (h : NoDigit cs) : cs.takeWhile Char.isDigit = [] := by
  cases cs with
  | nil => rfl
  | cons c cs => exact List.takeWhile_cons_of_neg (by simp [h c rfl])

theorem NoDigit.dropWhile {cs : List Char} (h : NoDigit cs) : cs.dropWhile Char.isDigit = cs := by
  cases cs with
  | nil => rfl
  | cons c cs => exact List.dropWhile_cons_of_neg (by simp [h c rfl])

variable {cs rest : List Char}

theorem digits_append (hcs : ∀ c ∈ cs, c.isDigit = true) (hrest : NoDigit rest) :
    digits (cs ++ rest) = digitValues cs := by
  rw [digits, List.takeWhile_append_of_pos hcs, hrest.takeWhile, List.append_nil]
  rfl

theorem afterDigits_append (hcs : ∀ c ∈ cs, c.isDigit = true) (hrest : NoDigit rest) :
    afterDigits (cs ++ rest) = rest := by
  rw [afterDigits, List.dropWhile_append_of_pos hcs, hrest.dropWhile]

theorem powerPart_append (n : Numeral) (hn : n.power = none) {power : Option (Char × List Char)}
    (hpower : ∀ p ∈ power, (p.1 = '+' ∨ p.1 = '-') ∧ IsDigits p.2) (hrest : Detached rest) :
    powerPart n (Spelling.powerText power ++ rest)
      = (numeric { n with power := power.map Spelling.powerValue }, some rest) := by
  cases power with
  | none =>
    obtain ⟨negative, whole, fraction, _⟩ := n
    obtain rfl : _ = none := hn
    show powerPart _ rest = _
    cases rest with
    | nil => rfl
    | cons c rest =>
      have hnot := hrest.noPower
      simp only [List.head?_cons, ne_eq, Option.some.injEq] at hnot
      simp [powerPart, hnot]
  | some p =>
    obtain ⟨sign, cs⟩ := p
    obtain ⟨hsign, hcs⟩ := hpower _ rfl
    have hdigits := digits_append hcs.all hrest.noDigit
    have hafter := afterDigits_append hcs.all hrest.noDigit
    have hsize : (digitValues cs).foldl (fun size digit => 10 * size + digit) 0
        = Nat.ofDigitChars 10 cs 0 := by
      rw [digitValues, List.foldl_map]
      rfl
    obtain ⟨c, cs, rfl⟩ := List.exists_cons_of_ne_nil hcs.ne_nil
    have hvalues : digitValues (c :: cs) = (c.toNat - 48) :: digitValues cs := rfl
    rw [hvalues] at hdigits hsize
    show powerPart n ('e' :: sign :: (c :: cs ++ rest)) = _
    rcases hsign with rfl | rfl
    · simp only [powerPart, hdigits, hafter, hsize]
      rfl
    · simp only [powerPart, hdigits, hafter, hsize]
      rfl

theorem fractionPart_append (n : Numeral) (hn : n.fraction = []) {fraction : List Char}
    (hfraction : ∀ c ∈ fraction, c.isDigit = true) (hrest : NoDigit rest ∧ rest.head? ≠ some '.') :
    fractionPart n (Spelling.fractionText fraction ++ rest)
      = powerPart { n with fraction := digitValues fraction } rest := by
  cases fraction with
  | nil =>
    obtain ⟨negative, whole, _, power⟩ := n
    obtain rfl : _ = [] := hn
    show fractionPart _ rest = powerPart _ rest
    rw [fractionPart]
    · rfl
    · rintro tail rfl
      exact hrest.2 rfl
  | cons c cs =>
    have hdigits := digits_append hfraction hrest.1
    have hafter := afterDigits_append hfraction hrest.1
    show fractionPart n ('.' :: (c :: cs ++ rest)) = _
    simp only [fractionPart, hdigits, hafter]
    rfl

theorem unsignedNumber_append (negative : Bool) (hcs : IsWhole cs) (hrest : NoDigit rest) :
    unsignedNumber negative (cs ++ rest)
      = fractionPart ⟨negative, digitValues cs, [], none⟩ rest := by
  have hdigits := digits_append hcs.all hrest
  have hafter := afterDigits_append hcs.all hrest
  obtain ⟨c, cs, rfl⟩ := List.exists_cons_of_ne_nil hcs.ne_nil
  by_cases hc : c = '0'
  · subst hc
    obtain rfl : cs = [] := by simpa using hcs.single rfl
    have hnone : digits rest = [] := digits_append (List.forall_mem_nil _) hrest
    simp only [List.cons_append, List.nil_append, unsignedNumber, hnone]
    rfl
  · rw [List.cons_append] at hdigits hafter ⊢
    rw [unsignedNumber, hdigits, hafter]
    · rfl
    · exact nofun
    · exact fun tail h => hc (List.cons.inj h).1

end Reader

namespace Spelling

open Reader

variable {w : Spelling} {rest : List Char}

/-- A spelling starts like a number. -/
theorem start_text (h : w.Proper) : ∃ c cs, w.text = c :: cs ∧ IsStart c := by
  obtain ⟨c, cs, hcs⟩ := List.exists_cons_of_ne_nil h.whole.ne_nil
  have hdigit : c.isDigit = true := h.whole.all c (by simp [hcs])
  rw [text, hcs]
  cases w.negative with
  | true => exact ⟨'-', _, rfl, .inl rfl⟩
  | false => exact ⟨c, _, rfl, .inr hdigit⟩

/-- **A proper spelling is read as its numeral**, in front of a text that cannot continue it. -/
theorem number_text (h : w.Proper) (hrest : Detached rest) :
    number (w.text ++ rest) = (numeric w.numeral, some rest) := by
  have hpower : NoDigit (powerText w.power ++ rest) ∧
      (powerText w.power ++ rest).head? ≠ some '.' := by
    cases w.power with
    | none => exact ⟨hrest.noDigit, hrest.noPoint⟩
    | some p => exact ⟨.cons (by decide) _, by simp [powerText]⟩
  have hfraction : NoDigit (fractionText w.fraction ++ (powerText w.power ++ rest)) := by
    cases w.fraction with
    | nil => exact hpower.1
    | cons c cs => exact .cons (by decide) _
  have hunsigned :
    unsignedNumber w.negative (w.whole ++ (fractionText w.fraction ++ (powerText w.power ++ rest)))
      = (numeric w.numeral, some rest) := by
    rw [unsignedNumber_append _ h.whole hfraction, fractionPart_append _ rfl h.fraction hpower,
      powerPart_append _ rfl h.power hrest]
    rfl
  rw [← hunsigned, text]
  simp only [List.append_assoc]
  cases w.negative with
  | true => rfl
  | false =>
    obtain ⟨c, cs, hcs⟩ := List.exists_cons_of_ne_nil h.whole.ne_nil
    have hdigit : c.isDigit = true := h.whole.all c (by simp [hcs])
    show number (w.whole ++ _) = unsignedNumber false (w.whole ++ _)
    rw [hcs, List.cons_append, number]
    rintro tail heq
    obtain ⟨rfl, -⟩ := List.cons.inj heq
    exact absurd hdigit (by decide)

/-- A fraction or a power of ten makes a number no integer. -/
theorem integer?_numeral (h : w.fraction ≠ [] ∨ w.power ≠ none) : w.numeral.integer? = none := by
  rw [Numeral.integer?]
  split
  · next hfraction hpower _ =>
    simp only [numeral, digitValues, List.map_eq_nil_iff,
      Option.map_eq_none_iff] at hfraction hpower
    exact absurd h (by simp [hfraction, hpower])
  · rfl

/-! ## Integers -/

/-- Digits that fit in 64 bits are all gathered. -/
theorem gather_digitValues {cs : List Char} {size : Nat}
    (h : Nat.ofDigitChars 10 cs size ≤ Numeral.greatest) :
    Numeral.gather size (digitValues cs) = (Nat.ofDigitChars 10 cs size, 0) := by
  have hgrows : ∀ (cs : List Char) (size : Nat), size ≤ Nat.ofDigitChars 10 cs size := by
    intro cs
    induction cs with
    | nil => exact Nat.le_refl
    | cons c cs ih =>
      intro size
      rw [Nat.ofDigitChars_cons]
      have := ih (10 * size + (c.toNat - '0'.toNat))
      omega
  induction cs generalizing size with
  | nil => rfl
  | cons c cs ih =>
    rw [Nat.ofDigitChars_cons] at h ⊢
    have hfits : 10 * size + (c.toNat - 48) ≤ Numeral.greatest := Nat.le_trans (hgrows cs _) h
    rw [digitValues, List.map_cons, Numeral.gather, if_pos hfits]
    exact ih h

/-- **Integers of 64 bits are read as they were written.** -/
theorem exists_int {i : Int} (hlow : -9223372036854775808 ≤ i) (hhigh : i < 18446744073709551616) :
    ∃ w : Spelling, w.Proper ∧ (toString i).toList = w.text ∧ numeric w.numeral = .int i := by
  have hgather : Numeral.gather 0 (digitValues (Nat.toDigits 10 i.natAbs)) = (i.natAbs, 0) := by
    have hvalue : Nat.ofDigitChars 10 (Nat.toDigits 10 i.natAbs) 0 = i.natAbs :=
      Nat.ofDigitChars_ten_toDigits
    rw [gather_digitValues (by rw [hvalue, Numeral.greatest]; omega), hvalue]
  refine ⟨⟨decide (i < 0), Nat.toDigits 10 i.natAbs, [], none⟩,
    ⟨.toDigits _, by simp, by simp⟩, ?_, ?_⟩
  · rw [Int.toString_eq_repr, Int.repr_eq_if]
    by_cases h : 0 ≤ i
    · have hnat : i.toNat = i.natAbs := by omega
      simp [text, fractionText, powerText, h, Int.not_lt.mpr h, hnat]
    · have hnat : (-i).toNat = i.natAbs := by omega
      simp [text, fractionText, powerText, h, Int.not_le.mp h, hnat]
  · show numeric ⟨decide (i < 0), digitValues (Nat.toDigits 10 i.natAbs), [], none⟩ = _
    simp only [numeric, Numeral.integer?, hgather]
    by_cases h : i < 0
    · have hsize : 0 < i.natAbs ∧ i.natAbs ≤ 9223372036854775808 := by omega
      have hvalue : -(i.natAbs : Int) = i := by omega
      simp only [h, decide_true, Bool.not_true, Bool.false_eq_true, if_false, if_pos hsize, hvalue]
    · have hvalue : (i.natAbs : Int) = i := by omega
      simp only [h, decide_false, Bool.not_false, if_true, hvalue]

/-! ## Doubles -/

/-- A power of ten is written with a sign. -/
theorem exists_power (order : Int) :
    ∃ p : Char × List Char, ((p.1 = '+' ∨ p.1 = '-') ∧ IsDigits p.2) ∧
      "e".toList ++ (if Json.number.plusSign ∧ 0 ≤ order then "+" else "").toList
        ++ (toString order).toList
        = powerText (some p) := by
  rw [Int.toString_eq_repr, Int.repr_eq_if]
  by_cases h : 0 ≤ order
  · refine ⟨('+', Nat.toDigits 10 order.toNat), ⟨.inl rfl, .toDigits _⟩, ?_⟩
    rw [if_pos ⟨rfl, h⟩, if_pos h, Nat.toList_repr]
    rfl
  · refine ⟨('-', Nat.toDigits 10 (-order).toNat), ⟨.inr rfl, .toDigits _⟩, ?_⟩
    rw [if_neg fun h' => h h'.2, if_neg h, String.toList_append, Nat.toList_repr]
    rfl

/-- The text is, but for a sign, the spelling of a number that is no integer. -/
def IsReal (text : List Char) : Prop :=
  ∀ negative : Bool, ∃ w : Spelling, w.Proper ∧ (w.fraction ≠ [] ∨ w.power ≠ none) ∧
    (if negative then ['-'] else []) ++ text = w.text

theorem isReal_scientific (d : Decimal) (order : Int) :
    IsReal (Json.number.writeScientific d order).toList := by
  intro negative
  obtain ⟨p, hp, hpower⟩ := exists_power order
  have hall := (IsDigits.toDigits d.digits).all
  have hne := (IsDigits.toDigits d.digits).ne_nil
  simp only [NumberFormat.writeScientific, String.toList_append, toList_toString_nat]
  generalize Nat.toDigits 10 d.digits = digits at hall hne
  have hproper : ∀ q ∈ some p, (q.1 = '+' ∨ q.1 = '-') ∧ IsDigits q.2 := by simpa using hp
  match digits, hne with
  | [c], _ =>
    refine ⟨⟨negative, [c], [], some p⟩,
      ⟨.singleton (hall c List.mem_cons_self), by simp, hproper⟩, by simp, ?_⟩
    simp [text, fractionText, ← hpower]
  | c :: c' :: cs, _ =>
    refine ⟨⟨negative, [c], c' :: cs, some p⟩, ⟨.singleton (hall c List.mem_cons_self),
      fun x hx => hall x (List.mem_cons_of_mem _ hx), hproper⟩, by simp, ?_⟩
    simp [text, fractionText, ← hpower]

/-- The digits of a decimal can be followed by zeros if they are not zero. -/
theorem isWhole_append_zeros {d : Decimal} (hd : d.digits = 0 → d.exponent = 0) :
    IsWhole (Nat.toDigits 10 d.digits ++ List.replicate d.exponent.toNat '0') := by
  have hdigits := IsDigits.toDigits d.digits
  by_cases h : d.digits = 0
  · rw [h, hd h]
    exact .toDigits 0
  · refine ⟨⟨by simp [hdigits.ne_nil], fun c hc => ?_⟩, fun hzero => absurd ?_ h⟩
    · rcases List.mem_append.mp hc with hc | hc
      · exact hdigits.all c hc
      · rw [List.eq_of_mem_replicate hc]
        rfl
    · obtain ⟨c, cs, hcs⟩ := List.exists_cons_of_ne_nil hdigits.ne_nil
      rw [hcs] at hzero
      exact eq_zero_of_head?_toDigits d.digits (by rw [hcs]; exact hzero)

theorem isReal_positional {d : Decimal} (hd : d.digits = 0 → d.exponent = 0) :
    IsReal (Json.number.writePositional d).toList := by
  intro negative
  have hdigits := IsDigits.toDigits d.digits
  have hlength : (toString d.digits).length = (Nat.toDigits 10 d.digits).length := by
    rw [← String.length_toList, toList_toString_nat]
  by_cases hexponent : 0 ≤ d.exponent
  · refine ⟨⟨negative, _, ['0'], none⟩, ⟨isWhole_append_zeros hd, by simp, by simp⟩, by simp, ?_⟩
    simp [NumberFormat.writePositional, hexponent, text, fractionText, powerText,
      NumberFormat.zeros, Json.number]
  by_cases hplaces : d.exponent.natAbs < (Nat.toDigits 10 d.digits).length
  · have hzero : d.digits ≠ 0 := fun h => by have := hd h; omega
    have hsplit : 0 < (Nat.toDigits 10 d.digits).length - d.exponent.natAbs ∧
        (Nat.toDigits 10 d.digits).length - d.exponent.natAbs
          < (Nat.toDigits 10 d.digits).length := by omega
    generalize hpoint : (Nat.toDigits 10 d.digits).length - d.exponent.natAbs = point at hsplit
    have hfraction : (Nat.toDigits 10 d.digits).drop point ≠ [] := by
      rw [ne_eq, List.drop_eq_nil_iff]
      omega
    have hwhole : IsWhole ((Nat.toDigits 10 d.digits).take point) := by
      refine ⟨⟨?_, fun c hc => hdigits.all c (List.mem_of_mem_take hc)⟩, fun h => absurd ?_ hzero⟩
      · rw [ne_eq, List.take_eq_nil_iff]
        exact not_or.mpr ⟨by omega, hdigits.ne_nil⟩
      · rw [List.head?_take, if_neg (by omega)] at h
        exact eq_zero_of_head?_toDigits d.digits h
    refine ⟨⟨negative, _, _, none⟩,
      ⟨hwhole, fun c hc => hdigits.all c (List.mem_of_mem_drop hc), by simp⟩, .inl hfraction, ?_⟩
    simp only [NumberFormat.writePositional, if_neg hexponent, hlength, if_pos hplaces, hpoint,
      text, powerText, fractionText_of_ne_nil hfraction, toList_toString_nat]
    simp
  · have hfraction : List.replicate (d.exponent.natAbs - (Nat.toDigits 10 d.digits).length) '0'
        ++ Nat.toDigits 10 d.digits ≠ [] := by simp
    refine ⟨⟨negative, ['0'], _, none⟩, ⟨.singleton rfl, fun c hc => ?_, by simp⟩,
      .inl hfraction, ?_⟩
    · rcases List.mem_append.mp hc with hc | hc
      · rw [List.eq_of_mem_replicate hc]
        rfl
      · exact hdigits.all c hc
    · simp only [NumberFormat.writePositional, if_neg hexponent, hlength, if_neg hplaces, text,
        powerText, fractionText_of_ne_nil hfraction]
      simp [NumberFormat.zeros]

/-- A decimal without trailing zeros has the exponent zero if its digits are zero. -/
theorem exponent_canonical {d : Decimal} (h : d.canonical.digits = 0) :
    d.canonical.exponent = 0 := by
  have hstrip : ∀ (fuel : Nat) (d : Decimal), d.digits ≠ 0 → (d.strip fuel).digits ≠ 0 := by
    intro fuel
    induction fuel with
    | zero => exact fun d hd => hd
    | succ fuel ih =>
      intro d hd
      rw [Decimal.strip]
      split
      · exact ih _ (by show d.digits / 10 ≠ 0; omega)
      · exact hd
  rw [Decimal.canonical] at h ⊢
  split
  · rfl
  · next hd =>
    rw [if_neg hd] at h
    exact absurd h (hstrip _ d hd)

/-- **A double is written with a point or a power of ten.** -/
theorem exists_write {x : Float} {d : Dyadic} (h : Dyadic.ofFloat? x = some d) :
    ∃ w : Spelling, w.Proper ∧ (w.fraction ≠ [] ∨ w.power ≠ none) ∧
      (Json.number.write x).toList = w.text := by
  have hdecimal : ∀ decimal : Decimal, (decimal.digits = 0 → decimal.exponent = 0) →
      IsReal (Json.number.writeDecimal decimal).toList := by
    intro decimal hzero
    rw [NumberFormat.writeDecimal]
    split
    · exact isReal_positional hzero
    · exact isReal_scientific decimal _
  have hreal : IsReal (Json.number.writeDecimal
      (if d.mantissa = 0 then ⟨0, 0⟩ else Shortest.digits Json.number.tie x.abs d)).toList := by
    apply hdecimal
    split
    · exact fun _ => rfl
    · exact exponent_canonical
  obtain ⟨w, hproper, hpoint, htext⟩ := hreal d.negative
  refine ⟨w, hproper, hpoint, ?_⟩
  rw [← htext, NumberFormat.write, h]
  simp only [String.toList_append]
  cases d.negative <;> rfl

end Spelling

/-! ## Numbers as values -/

/-- The double is read as it was written. -/
def Json.ReadsBack (x : Float) : Prop :=
  (Source.read (Json.number.write x)).decode Decode.real = .ok x

instance decidableReadsBack (x : Float) : Decidable (Json.ReadsBack x) :=
  match h : (Source.read (Json.number.write x)).decode Decode.real with
  | .ok y => decidable_of_iff (y = x) (by rw [Json.ReadsBack, h, Except.ok.injEq])
  | .error _ => isFalse (by rw [Json.ReadsBack, h]; exact nofun)

namespace Spelling

open Reader

variable {w : Spelling}

/-- A number is read as such wherever a value can stand. -/
theorem value_text (h : w.Proper) {rest : List Char} (hrest : Detached rest) (fuel : Nat) :
    value (fuel + 1) (w.text ++ rest) = (numeric w.numeral, some rest) := by
  obtain ⟨c, cs, htext, hc⟩ := start_text h
  have hnumber : (c = '-' || c.isDigit) = true := by simpa [IsStart] using hc
  rw [← number_text h hrest, htext, List.cons_append, value, skipSpaces_cons hc.isSpace]
  simp only [if_neg (hc.ne (d := '"') (by decide)), if_neg (hc.ne (d := '[') (by decide)),
    if_neg (hc.ne (d := '\x7b') (by decide)), if_neg (hc.ne (d := 't') (by decide)),
    if_neg (hc.ne (d := 'f') (by decide)), if_neg (hc.ne (d := 'n') (by decide)), if_pos hnumber]

/-- A double that reads back does so in front of anything that cannot continue it. -/
theorem exists_readsBack {x : Float} (h : Json.ReadsBack x) :
    ∃ w : Spelling, w.Proper ∧ (Json.number.write x).toList = w.text ∧
      numeric w.numeral = .real x := by
  rw [Json.ReadsBack] at h
  cases hx : Dyadic.ofFloat? x with
  | none =>
    rw [NumberFormat.write, hx] at h
    simp only at h
    split at h
    · cases h
    split at h <;> cases h
  | some d =>
    obtain ⟨w, hproper, hpoint, htext⟩ := exists_write hx
    refine ⟨w, hproper, htext, ?_⟩
    have hvalue := value_text hproper Detached.nil (4 * w.text.length + 3)
    rw [List.append_nil] at hvalue
    have hread : Source.read (Json.number.write x) = ⟨numeric w.numeral, false⟩ := by
      simp only [Source.read, htext, hvalue]
      rfl
    rw [hread, numeric, integer?_numeral hpoint] at h
    rw [numeric, integer?_numeral hpoint]
    cases hfloat : w.numeral.toFloat? with
    | none =>
      rw [hfloat] at h
      cases h
    | some y =>
      rw [hfloat] at h
      obtain rfl : y = x := Except.ok.inj h
      rfl

end Spelling

end Sequencer
