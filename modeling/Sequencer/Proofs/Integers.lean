/-!
# Integers as texts

An integer is written as digits, with a sign in front if it is negative. So no other character
occurs in it, and it can be read back.

## Main results

* `isDigit_of_mem_toString_int`, `ne_of_mem_toString_int` — the characters of an integer
* `toString_nat_inj`, `toString_int_inj` — a text is that of one integer only
-/

namespace Sequencer

theorem isDigit_of_mem_toString_nat {n : Nat} {c : Char} (h : c ∈ (toString n).toList) :
    c.isDigit = true := by
  refine Nat.isDigit_of_mem_toDigits (b := 10) (n := n) (by decide) (by decide) ?_
  simpa using h

theorem toString_int_eq_if (n : Int) :
    toString n = if 0 ≤ n then toString n.toNat else "-" ++ toString (-n).toNat := by
  rw [Int.toString_eq_repr, Int.repr_eq_if]
  rfl

theorem isDigit_of_mem_toString_int {n : Int} {c : Char} (h : c ∈ (toString n).toList) :
    c.isDigit = true ∨ c = '-' := by
  rw [toString_int_eq_if] at h
  split at h
  · exact Or.inl (isDigit_of_mem_toString_nat h)
  · rw [String.toList_append, List.mem_append] at h
    rcases h with h | h
    · exact Or.inr (List.mem_singleton.mp h)
    · exact Or.inl (isDigit_of_mem_toString_nat h)

/-- A character that is neither a digit nor the sign is not in an integer. -/
theorem ne_of_mem_toString_int {n : Int} {c d : Char} (h : c ∈ (toString n).toList)
    (hd : ¬ (d.isDigit = true ∨ d = '-')) : c ≠ d := by
  rintro rfl
  exact hd (isDigit_of_mem_toString_int h)

theorem toString_nat_inj {a b : Nat} (h : toString a = toString b) : a = b := by
  have hdigits : Nat.toDigits 10 a = Nat.toDigits 10 b := by
    simpa using congrArg String.toList h
  calc a = Nat.ofDigitChars 10 (Nat.toDigits 10 a) 0 := Nat.ofDigitChars_ten_toDigits.symm
    _ = Nat.ofDigitChars 10 (Nat.toDigits 10 b) 0 := by rw [hdigits]
    _ = b := Nat.ofDigitChars_ten_toDigits

/-- The sign tells negative integers from others, and the digits tell the rest. -/
theorem toString_int_inj {a b : Int} (h : toString a = toString b) : a = b := by
  have hsign : ∀ {m n : Nat}, toString m ≠ "-" ++ toString n := by
    intro m n heq
    have hmem : '-' ∈ (toString m).toList := by
      rw [heq]
      simp
    exact absurd (isDigit_of_mem_toString_nat hmem) (by decide)
  rw [toString_int_eq_if, toString_int_eq_if] at h
  split at h
  · split at h
    · have := toString_nat_inj h
      omega
    · exact absurd h hsign
  · split at h
    · exact absurd h.symm hsign
    · have := toString_nat_inj (String.append_right_inj "-" |>.mp h)
      omega

end Sequencer
