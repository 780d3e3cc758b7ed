import Sequencer.Proofs.Lines
import Sequencer.Proofs.Ordering

/-!
# Reading a listing by its columns

The columns of a listing begin at the same offsets on every line, so who knows the widths can cut
the lines there and has the rows back. Two things stand in the way. Widths are measured in bytes and
offsets count characters: that does no harm, because a text has at least as many bytes as
characters, and a column that is too wide is filled up with more spaces. And a line is trimmed after
its columns have been set: if its last columns are empty it ends before they begin, and a cut finds
nothing there.

What is lost in either way are blanks at the end of a column, which nothing tells from the spaces
that fill it. So a row is read back if none of its texts ends in a blank.

## Main definitions

* `Text.Trimmed` — a text that does not end in a blank
* `Listing.cut` — the row of a line
* `Row.Trimmed`, `Row.Fits` — rows that can be read back

## Main results

* `Text.dropBlankEnd_between` — trimming a piece of a text, trimmed or not
* `Listing.cut_line` — a line is cut into the row that it was set from
* `Listing.rows_of_text` — so are all lines of a listing
-/

namespace Sequencer

/-! ## Trimmed texts -/

namespace Text

/-- A text that does not end in a blank. -/
def Trimmed (cs : List Char) : Prop := dropBlankEnd cs = cs

instance decidableTrimmed (cs : List Char) : Decidable (Trimmed cs) :=
  inferInstanceAs (Decidable (dropBlankEnd cs = cs))

theorem dropBlankEnd_append_blanks {blanks : List Char} (h : ∀ c ∈ blanks, isBlank c = true)
    (cs : List Char) : dropBlankEnd (cs ++ blanks) = dropBlankEnd cs := by
  have hblanks : ∀ c ∈ blanks.reverse, isBlank c = true := fun c hc => h c (List.mem_reverse.mp hc)
  rw [dropBlankEnd, dropBlankEnd, List.reverse_append, List.dropWhile_append_of_pos hblanks]

theorem trimmed_iff (cs : List Char) :
    Trimmed cs ↔ ∀ h : cs ≠ [], ¬ isBlank (cs.getLast h) = true :=
  List.rdropWhile_eq_self_iff

namespace Trimmed

theorem append {a b : List Char} (ha : Trimmed a) (hb : Trimmed b) : Trimmed (a ++ b) := by
  cases b with
  | nil => rwa [List.append_nil]
  | cons c b =>
    rw [trimmed_iff] at hb ⊢
    intro h
    rw [List.getLast_append_of_ne_nil _ (List.cons_ne_nil c b)]
    exact hb _

theorem of_forall {cs : List Char} (h : ∀ c ∈ cs, isBlank c = false) : Trimmed cs := by
  rw [trimmed_iff]
  intro hne
  simp [h _ (List.getLast_mem hne)]

end Trimmed

/-! A piece of a trimmed text may be shorter than the same piece of the text. Once it is trimmed
itself, it is not. -/

theorem dropBlankEnd_take (n : Nat) (cs : List Char) :
    dropBlankEnd ((dropBlankEnd cs).take n) = dropBlankEnd (cs.take n) := by
  obtain ⟨blanks, hblanks, hcs⟩ := dropBlankEnd_append cs
  have htake : ∀ m, ∀ c ∈ blanks.take m, isBlank c = true := fun m c hc =>
    hblanks c (List.mem_of_mem_take hc)
  conv_rhs => rw [← hcs, List.take_append, dropBlankEnd_append_blanks (htake _)]

theorem dropBlankEnd_drop (n : Nat) (cs : List Char) :
    dropBlankEnd ((dropBlankEnd cs).drop n) = dropBlankEnd (cs.drop n) := by
  obtain ⟨blanks, hblanks, hcs⟩ := dropBlankEnd_append cs
  have hdrop : ∀ m, ∀ c ∈ blanks.drop m, isBlank c = true := fun m c hc =>
    hblanks c (List.mem_of_mem_drop hc)
  conv_rhs => rw [← hcs, List.drop_append, dropBlankEnd_append_blanks (hdrop _)]

/-- **Trimming a piece of a text, trimmed or not.** -/
theorem dropBlankEnd_between (start stop : Nat) (cs : List Char) :
    dropBlankEnd (((dropBlankEnd cs).take stop).drop start)
      = dropBlankEnd ((cs.take stop).drop start) := by
  rw [← dropBlankEnd_drop, dropBlankEnd_take, dropBlankEnd_drop]

/-- A text has at least as many bytes as characters. -/
theorem length_le_utf8ByteSize (s : String) : s.length ≤ s.utf8ByteSize := by
  obtain ⟨cs, rfl⟩ : ∃ cs, s = String.ofList cs := ⟨s.toList, by simp⟩
  induction cs with
  | nil => simp
  | cons c cs ih =>
    have hcons : String.ofList (c :: cs) = String.singleton c ++ String.ofList cs := by
      rw [← String.toList_inj]
      simp
    have hpos := c.utf8Size_pos
    rw [hcons, String.length_append, String.utf8ByteSize_append, String.utf8ByteSize_singleton,
      String.length_singleton]
    omega

end Text

/-! ## Cutting a line -/

namespace Row

/-- A row without blanks at the end of its columns. -/
structure Trimmed (row : Row) : Prop where
  label : Text.Trimmed row.label.toList
  mnemonic : Text.Trimmed row.mnemonic.toList
  operands : Text.Trimmed row.operands.toList
  comment : Text.Trimmed row.comment.toList

/-- A row whose columns, counted in characters, are no wider than the given widths. -/
structure Fits (row : Row) (w : Listing.Widths) : Prop where
  label : row.label.length ≤ w.label
  mnemonic : row.mnemonic.length ≤ w.mnemonic
  operands : row.operands.length ≤ w.operands

end Row

namespace Listing

variable {row : Row} {rows : List Row} {w : Widths} {n : Nat} {s : String}

/-- The characters of a line from one offset to another, without the blanks at their end. -/
def between (start stop : Nat) (line : List Char) : String :=
  String.ofList (Text.dropBlankEnd ((line.take stop).drop start))

/-- A line cut where its columns begin, each column without the blanks at its end. -/
def cut (w : Widths) (line : List Char) : Row where
  label := between 0 (w.label + 1) line
  mnemonic := between (w.label + 1) (w.label + w.mnemonic + 2) line
  operands := between (w.label + w.mnemonic + 2) (w.label + w.mnemonic + w.operands + 3) line
  comment := String.ofList (Text.dropBlankEnd (line.drop (w.label + w.mnemonic + w.operands + 3)))

/-- A column and the space that follows it. -/
def cell (n : Nat) (s : String) : List Char := (pad n s).toList ++ [' ']

theorem length_cell (h : s.length ≤ n) : (cell n s).length = n + 1 := by
  simp only [cell, pad, String.toList_append, String.toList_ofList, List.length_append,
    String.length_toList, List.length_replicate, List.length_singleton]
  omega

theorem dropBlankEnd_cell (h : Text.Trimmed s.toList) (n : Nat) :
    Text.dropBlankEnd (cell n s) = s.toList := by
  have hblanks : ∀ c ∈ List.replicate (n - s.length) ' ' ++ [' '], Text.isBlank c = true := by
    intro c hc
    rw [← List.replicate_succ'] at hc
    rw [List.eq_of_mem_replicate hc]
    decide
  rw [cell, pad, String.toList_append, String.toList_ofList, List.append_assoc,
    Text.dropBlankEnd_append_blanks hblanks, h]

theorem toList_columns_eq_cells (w : Widths) (row : Row) :
    (columns w row).toList
      = cell w.label row.label
        ++ (cell w.mnemonic row.mnemonic
          ++ (cell w.operands row.operands ++ row.comment.toList)) := by
  simp [columns, cell]

section Offsets

variable {cs rest : List Char} {start stop : Nat}

/-- The column that starts at an offset is found in the trimmed line. -/
theorem between_eq (hcs : cs.drop start = cell n s ++ rest) (hstop : stop = start + (n + 1))
    (hfits : s.length ≤ n) (h : Text.Trimmed s.toList) :
    between start stop (Text.dropBlankEnd cs) = s := by
  rw [between, Text.dropBlankEnd_between, List.drop_take, hcs, hstop, Nat.add_sub_cancel_left,
    List.take_left' (length_cell hfits), dropBlankEnd_cell h, String.ofList_toList]

/-- Where it ends, the next one starts. -/
theorem drop_cell (hcs : cs.drop start = cell n s ++ rest) (hstop : stop = start + (n + 1))
    (hfits : s.length ≤ n) : cs.drop stop = rest := by
  rw [hstop, ← List.drop_drop, hcs, List.drop_left' (length_cell hfits)]

end Offsets

/-- **A line is cut into the row that it was set from.** -/
theorem cut_line (hfits : row.Fits w) (h : row.Trimmed) : cut w (line w row).toList = row := by
  have hline : (line w row).toList = Text.dropBlankEnd (columns w row).toList := by
    rw [line, Text.trimEnd, String.toList_ofList]
  have hlabel : (columns w row).toList.drop 0 = _ := toList_columns_eq_cells w row
  have hmnemonic : (columns w row).toList.drop (w.label + 1) = _ :=
    drop_cell hlabel (by omega) hfits.label
  have hoperands : (columns w row).toList.drop (w.label + w.mnemonic + 2) = _ :=
    drop_cell hmnemonic (by omega) hfits.mnemonic
  have hcomment : (columns w row).toList.drop (w.label + w.mnemonic + w.operands + 3) = _ :=
    drop_cell hoperands (by omega) hfits.operands
  rw [hline, cut, between_eq hlabel (by omega) hfits.label h.label,
    between_eq hmnemonic (by omega) hfits.mnemonic h.mnemonic,
    between_eq hoperands (by omega) hfits.operands h.operands, Text.dropBlankEnd_drop, hcomment,
      h.comment,
    String.ofList_toList]

/-! ## Whole listings -/

/-- Each row fits in the widths of all rows. -/
theorem fits_widths (h : row ∈ rows) : row.Fits (widths rows) := by
  have hwidth : ∀ column : Row → String, (column row).length ≤ width column rows := by
    intro column
    have hmem : (column row).utf8ByteSize ∈ rows.map fun row => (column row).utf8ByteSize :=
      List.mem_map.mpr ⟨row, h, rfl⟩
    exact (Text.length_le_utf8ByteSize _).trans (((foldl_max_le_iff _ _ _).mp (le_refl _)).2 _ hmem)
  exact ⟨hwidth Row.label, hwidth Row.mnemonic, hwidth Row.operands⟩

/-- **The rows of a listing are found again in its text.** There is one line for each row, and
nothing after the last line feed; cutting the lines gives back the rows. -/
theorem rows_of_text (hone : ∀ row ∈ rows, row.OneLine) (htrimmed : ∀ row ∈ rows, row.Trimmed) :
    ∃ found, lines (text rows) = found ++ [[]] ∧ found.length = rows.length ∧
      found.map (cut (widths rows)) = rows := by
  refine ⟨_, lines_text fun row hrow => not_mem_columns _ (hone row hrow), List.length_map _, ?_⟩
  have hcut : rows.map (cut (widths rows) ∘ fun row => (line (widths rows) row).toList)
      = rows.map id :=
    List.map_congr_left fun row hrow => cut_line (fits_widths hrow) (htrimmed row hrow)
  rw [List.map_map, hcut, List.map_id]

end Listing

end Sequencer
