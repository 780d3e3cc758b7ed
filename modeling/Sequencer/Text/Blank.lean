/-!
# White space

The characters of the Unicode property *White_Space*, and trimming them from texts.

## Main definitions

* `Text.isBlank` — membership in the property
* `Text.trimEnd`, `Text.trim` — dropping blanks at the end, or at both ends
-/

namespace Sequencer.Text

/-- The code points of the property *White_Space*, as inclusive ranges in ascending order. -/
def blankRanges : List (Nat × Nat) :=
  [(0x09, 0x0D), (0x20, 0x20), (0x85, 0x85), (0xA0, 0xA0), (0x1680, 0x1680), (0x2000, 0x200A),
   (0x2028, 0x2029), (0x202F, 0x202F), (0x205F, 0x205F), (0x3000, 0x3000)]

/-- Whether a character is white space. -/
def isBlank (c : Char) : Bool :=
  blankRanges.any fun range => range.1 ≤ c.toNat && c.toNat ≤ range.2

/-- A list of characters without the blanks at its end. -/
def dropBlankEnd (cs : List Char) : List Char := (cs.reverse.dropWhile isBlank).reverse

/-- A text without the blanks at its end. -/
def trimEnd (s : String) : String := String.ofList (dropBlankEnd s.toList)

/-- A text without the blanks at its two ends. -/
def trim (s : String) : String := String.ofList (dropBlankEnd (s.toList.dropWhile isBlank))

/-- What trimming removes consists of blanks. -/
theorem dropBlankEnd_append (cs : List Char) :
    ∃ blanks, (∀ c ∈ blanks, isBlank c = true) ∧ dropBlankEnd cs ++ blanks = cs := by
  refine ⟨(cs.reverse.takeWhile isBlank).reverse, ?_, ?_⟩
  · intro c hc
    exact List.all_eq_true.1 List.all_takeWhile c (List.mem_reverse.1 hc)
  · rw [dropBlankEnd, ← List.reverse_append, List.takeWhile_append_dropWhile, List.reverse_reverse]

end Sequencer.Text
