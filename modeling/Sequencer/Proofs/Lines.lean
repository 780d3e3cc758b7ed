import Mathlib.Data.List.DropRight
import Sequencer.Assembly.Listing
import Sequencer.Proofs.Integers

/-!
# The lines of a listing

A listing is read line by line, and a reader takes a number sign for the start of a comment. Both
are conventions about characters, which the columns know nothing of: a line feed in a label would
break a line in two, and a number sign in it would turn the rest of the line into a comment.

Rows without such characters are set as they should be. Their listing has one line per row, and a
line without its comment is the line of the row without its comment. Comments stand in the last
column, so no width depends on them.

## Main definitions

* `Listing.lines`, `Listing.code` — the lines of a text, and what stands on a line before its
  comment
* `Plain`, `Remark`, `Row.Tidy`, `Row.OneLine` — texts that cannot be mistaken for anything else
* `Row.uncommented` — a row without its comment

## Main results

* `Listing.lines_text` — one line per row
* `Listing.code_line` — the code of a line is the line of the code
* `Listing.lines_uncommented` — a listing without comments, line by line
-/

namespace Sequencer

namespace Text

theorem isPrefix_dropBlankEnd (cs : List Char) : dropBlankEnd cs <+: cs :=
  List.rdropWhile_prefix isBlank cs

theorem dropBlankEnd_dropBlankEnd (cs : List Char) :
    dropBlankEnd (dropBlankEnd cs) = dropBlankEnd cs :=
  List.rdropWhile_idempotent isBlank cs

/-- Trimming does not reach beyond a character that is not blank. -/
theorem dropBlankEnd_append_cons {c : Char} (hc : isBlank c = false) (front rest : List Char) :
    dropBlankEnd (front ++ c :: rest) = front ++ c :: dropBlankEnd rest := by
  have hkeep : (c :: front.reverse).dropWhile isBlank = c :: front.reverse :=
    List.dropWhile_cons_of_neg (by simp [hc])
  rw [dropBlankEnd, dropBlankEnd, List.reverse_append, List.reverse_cons, List.append_assoc,
    List.singleton_append, List.dropWhile_append, hkeep]
  split
  · next h => simp [List.isEmpty_iff.mp h]
  · simp

end Text

namespace Listing

/-- The lines of a text: what stands between its line feeds. -/
def lines (text : String) : List (List Char) := text.toList.splitOn '\n'

/-- A line without its comment and the blanks before it. The first number sign starts the
comment. -/
def code (line : List Char) : List Char := Text.dropBlankEnd (line.takeWhile (· ≠ '#'))

end Listing

/-! ## Plain texts -/

/-- No character ends a line or starts a comment. -/
def Plain (cs : List Char) : Prop := ∀ c ∈ cs, c ≠ '#' ∧ c ≠ '\n'

instance decidablePlain (cs : List Char) : Decidable (Plain cs) := List.decidableBAll _ cs

namespace Plain

theorem append {a b : List Char} (ha : Plain a) (hb : Plain b) : Plain (a ++ b) :=
  List.forall_mem_append.mpr ⟨ha, hb⟩

theorem int (n : Int) : Plain (toString n).toList := fun _ h =>
  ⟨ne_of_mem_toString_int h (by decide), ne_of_mem_toString_int h (by decide)⟩

theorem nat (n : Nat) : Plain (toString n).toList := int n

theorem pad {s : String} (h : Plain s.toList) (n : Nat) : Plain (Listing.pad n s).toList := by
  rw [Listing.pad, String.toList_append, String.toList_ofList]
  refine h.append fun c hc => ?_
  rw [List.eq_of_mem_replicate hc]
  decide

end Plain

/-- A comment as it is read: from a number sign to the end of its line. -/
def Remark (cs : List Char) : Prop := cs.head? = some '#' ∧ '\n' ∉ cs

instance decidableRemark (cs : List Char) : Decidable (Remark cs) := instDecidableAnd

/-! ## Tidy rows -/

namespace Row

/-- A row without its comment. -/
def uncommented (row : Row) : Row := { row with comment := "" }

/-- A row whose comment, if it has one, is read as such, and whose other columns are not. -/
structure Tidy (row : Row) : Prop where
  label : Plain row.label.toList
  mnemonic : Plain row.mnemonic.toList
  operands : Plain row.operands.toList
  comment : row.comment = "" ∨ Remark row.comment.toList

theorem Tidy.uncommented {row : Row} (h : row.Tidy) : row.uncommented.Tidy :=
  { h with comment := Or.inl rfl }

/-- A row that stays on its line. -/
structure OneLine (row : Row) : Prop where
  label : '\n' ∉ row.label.toList
  mnemonic : '\n' ∉ row.mnemonic.toList
  operands : '\n' ∉ row.operands.toList
  comment : '\n' ∉ row.comment.toList

theorem Tidy.oneLine {row : Row} (h : row.Tidy) : row.OneLine where
  label := fun hmem => (h.label _ hmem).2 rfl
  mnemonic := fun hmem => (h.mnemonic _ hmem).2 rfl
  operands := fun hmem => (h.operands _ hmem).2 rfl
  comment := by
    rcases h.comment with hnone | hremark
    · simp [hnone]
    · exact hremark.2

end Row

namespace Listing

variable {row : Row} {rows : List Row}

/-- A row in columns is its code in columns, followed by the comment. -/
theorem toList_columns (w : Widths) (row : Row) :
    (columns w row).toList = (columns w row.uncommented).toList ++ row.comment.toList := by
  simp [columns, Row.uncommented]

theorem plain_columns (w : Widths) (h : row.Tidy) : Plain (columns w row.uncommented).toList := by
  have hspace : Plain " ".toList := by decide
  simp only [columns, String.toList_append]
  exact ((((((h.label.pad _).append hspace).append (h.mnemonic.pad _)).append hspace).append
    (h.operands.pad _)).append hspace).append (by simp [Plain, Row.uncommented])

theorem not_mem_columns (w : Widths) (h : row.OneLine) : '\n' ∉ (columns w row).toList := by
  simp [columns, pad, h.label, h.mnemonic, h.operands, h.comment]

/-- Texts that each end in a line feed, and have no other, are the lines of the whole. -/
theorem splitOn_flatMap {α : Type} {f : α → List Char} {xs : List α} (h : ∀ x ∈ xs, '\n' ∉ f x) :
    (xs.flatMap fun x => f x ++ ['\n']).splitOn '\n' = xs.map f ++ [[]] := by
  induction xs with
  | nil => rfl
  | cons x xs ih =>
    have hx : ∀ c ∈ f x, (c == '\n') = false := fun c hc =>
      beq_false_of_ne fun e => h x List.mem_cons_self (e ▸ hc)
    rw [List.flatMap_cons, List.append_assoc, List.singleton_append, List.splitOn_eq_splitOnP,
      List.splitOnP_append_cons_of_forall_mem hx _ (by decide), ← List.splitOn_eq_splitOnP,
      ih fun y hy => h y (List.mem_cons_of_mem _ hy), List.map_cons, List.cons_append]

/-- **One line per row**, and nothing after the last line feed. -/
theorem lines_text (h : ∀ row ∈ rows, '\n' ∉ (columns (widths rows) row).toList) :
    lines (text rows) = rows.map (fun row => (line (widths rows) row).toList) ++ [[]] := by
  have htext : (text rows).toList = rows.flatMap fun row =>
      (line (widths rows) row).toList ++ ['\n'] := by
    simp [text, String.toList_join, List.flatMap_map]
  rw [lines, htext, splitOn_flatMap]
  intro row hrow hmem
  rw [line, Text.trimEnd, String.toList_ofList] at hmem
  exact h row hrow ((Text.isPrefix_dropBlankEnd _).subset hmem)

/-- **The code of a line is the line of the code.** -/
theorem code_line (w : Widths) (h : row.Tidy) :
    code (line w row).toList = (line w row.uncommented).toList := by
  have hplain := plain_columns w h
  have htake : ∀ front : List Char, Plain front → ∀ rest, (front ++ rest).takeWhile (· ≠ '#')
      = front ++ rest.takeWhile (· ≠ '#') := fun front hfront rest =>
    List.takeWhile_append_of_pos fun c hc => decide_eq_true (hfront c hc).1
  simp only [code, line, Text.trimEnd, String.toList_ofList, toList_columns w row]
  rcases h.comment with hnone | hremark
  · -- without a comment the line is code already
    have hcode : Plain (Text.dropBlankEnd (columns w row.uncommented).toList) := fun c hc =>
      hplain c ((Text.isPrefix_dropBlankEnd _).subset hc)
    have hself := htake _ hcode []
    rw [List.append_nil, List.takeWhile_nil, List.append_nil] at hself
    rw [hnone, String.toList_empty, List.append_nil, hself, Text.dropBlankEnd_dropBlankEnd]
  · -- trimming stops at the number sign, and cutting removes everything from there
    obtain ⟨text, htext⟩ := List.head?_eq_some_iff.mp hremark.1
    rw [htext, Text.dropBlankEnd_append_cons (by decide), htake _ hplain,
      List.takeWhile_cons_of_neg (by decide), List.append_nil]

example : code "       wait    8  #Wait".toList = "       wait    8".toList := by decide

theorem widths_uncommented (rows : List Row) : widths (rows.map Row.uncommented) = widths rows := by
  simp [widths, width, Function.comp_def, Row.uncommented]

/-- **A listing without comments is the listing without its comments**, line by line. -/
theorem lines_uncommented (h : ∀ row ∈ rows, row.Tidy) :
    lines (text (rows.map Row.uncommented)) = (lines (text rows)).map code := by
  have hfeed : ∀ row ∈ rows.map Row.uncommented,
      '\n' ∉ (columns (widths (rows.map Row.uncommented)) row).toList := by
    intro other hother
    obtain ⟨row, hrow, rfl⟩ := List.mem_map.mp hother
    exact not_mem_columns _ (h row hrow).uncommented.oneLine
  have hcode : rows.map (fun row => (line (widths rows) row.uncommented).toList)
      = rows.map fun row => code (line (widths rows) row).toList :=
    List.map_congr_left fun row hrow => (code_line _ (h row hrow)).symm
  have hend : code [] = [] := rfl
  rw [lines_text hfeed, lines_text fun row hrow => not_mem_columns _ (h row hrow).oneLine,
    widths_uncommented]
  simp only [List.map_append, List.map_map, Function.comp_def, hcode, List.map_cons, List.map_nil,
    hend]

end Listing

end Sequencer
