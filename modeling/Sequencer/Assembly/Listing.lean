import Sequencer.Assembly.Program
import Sequencer.Text.Blank

/-!
# Listings

A program is printed with one line per statement, in four columns. The first three are padded to the
widest entry of their column. Widths are measured in bytes and padding counts characters, so a
column with characters beyond ASCII is wider than it looks. Blanks at the end of a line are trimmed.

## Main definitions

* `Listing.Widths`, `Listing.line` — the widths of the columns, and one line
* `Program.listing` — the text of a program
-/

namespace Sequencer

namespace Listing

/-- The widths of the padded columns. -/
structure Widths where
  label : Nat
  mnemonic : Nat
  operands : Nat

/-- The greatest length in bytes of a column. -/
def width (column : Row → String) (rows : List Row) : Nat :=
  (rows.map fun row => (column row).utf8ByteSize).foldl max 0

/-- The widths that fit all rows. -/
def widths (rows : List Row) : Widths :=
  ⟨width Row.label rows, width Row.mnemonic rows, width Row.operands rows⟩

/-- A text followed by spaces up to a number of characters; a longer text is left as it is. -/
def pad (n : Nat) (s : String) : String := s ++ String.ofList (List.replicate (n - s.length) ' ')

/-- A row set in columns, before trimming. -/
def columns (w : Widths) (row : Row) : String :=
  pad w.label row.label ++ " " ++ pad w.mnemonic row.mnemonic ++ " " ++ pad w.operands row.operands
    ++ " " ++ row.comment

/-- The line of a row, without its line feed. -/
def line (w : Widths) (row : Row) : String := Text.trimEnd (columns w row)

/-- The text of rows set in columns; every line ends in a line feed. -/
def text (rows : List Row) : String :=
  let w := widths rows
  String.join (rows.map fun row => line w row ++ "\n")

end Listing

/-- The rows of a program. -/
def Program.rows (p : Program) : List Row := p.statements.map Statement.row

/-- The listing of a program. -/
def Program.listing (p : Program) : String := Listing.text p.rows

end Sequencer
