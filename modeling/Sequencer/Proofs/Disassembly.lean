import Sequencer.Proofs.Columns
import Sequencer.Proofs.Comments
import Sequencer.Proofs.JsonText
import Sequencer.Proofs.Runs

/-!
# A listing determines its program

A listing is all that leaves the encoder, so a program should be found again in it: the rows in the
text, and the statements in the rows.

The first half is about characters. A line feed in a text breaks its line in two, and a blank at its
end cannot be told from the spaces that fill a column; texts without them are *legible*. The second
half is about the encoder. The mnemonic tells the instruction, and its numbers end at the first
comma, because no number contains one; a name may, but it stands last. A label is written with a
colon, so that even an empty one shows. An empty comment would look like none, but the encoder
writes no empty comments.

## Main definitions

* `Text.Legible`, `Statement.Legible` — what a listing shows as it is
* `Instruction.blanked` — an instruction without its operands

## Main results

* `Instruction.eq_of_columns` — mnemonic and operands determine an instruction
* `Statement.eq_of_row`, `Statement.eq_of_rows` — rows determine statements
* `Program.listing_determines` — a listing determines its program
-/

namespace Sequencer

/-! ## Instructions -/

theorem toString_int_comma_inj {a b : Int} {s t : String}
    (h : toString a ++ ("," ++ s) = toString b ++ ("," ++ t)) : a = b ∧ s = t := by
  have hchars : (toString a).toList ++ ',' :: s.toList = (toString b).toList
      ++ ',' :: t.toList := by
    simpa using congrArg String.toList h
  obtain ⟨hnumber, hrest⟩ :=
    (Undelimited.int a).append_cons_inj (.int b) (by decide) (by decide) hchars
  exact ⟨toString_int_inj (String.toList_inj.mp hnumber),
    String.toList_inj.mp (List.cons.inj hrest).2⟩

theorem toString_nat_comma_inj {a b : Nat} {s t : String}
    (h : toString a ++ ("," ++ s) = toString b ++ ("," ++ t)) : a = b ∧ s = t := by
  -- the digits of a natural number are those of the integer
  obtain ⟨hnumber, hrest⟩ := toString_int_comma_inj (a := a) (b := b) h
  exact ⟨Int.ofNat.inj hnumber, hrest⟩

theorem toString_int_pair_inj {a b a' b' : Int}
    (h : toString a ++ "," ++ toString b = toString a' ++ "," ++ toString b') :
    a = a' ∧ b = b' := by
  rw [String.append_assoc, String.append_assoc] at h
  obtain ⟨hfirst, hsecond⟩ := toString_int_comma_inj h
  exact ⟨hfirst, toString_int_inj hsecond⟩

theorem toString_nat_triple_inj {a b c a' b' c' : Nat}
    (h : toString a ++ "," ++ toString b ++ "," ++ toString c
      = toString a' ++ "," ++ toString b' ++ "," ++ toString c') :
    a = a' ∧ b = b' ∧ c = c' := by
  simp only [String.append_assoc] at h
  obtain ⟨hfirst, h⟩ := toString_nat_comma_inj h
  obtain ⟨hsecond, hthird⟩ := toString_nat_comma_inj h
  exact ⟨hfirst, hsecond, toString_nat_inj hthird⟩

theorem Phase.eq_of_operands {p q : Phase}
    (h : toString p.coarse ++ "," ++ toString p.fine ++ "," ++ toString p.ultrafine
      = toString q.coarse ++ "," ++ toString q.fine ++ "," ++ toString q.ultrafine) : p = q := by
  obtain ⟨hcoarse, hfine, hultrafine⟩ := toString_nat_triple_inj h
  cases p
  cases q
  simp_all

namespace Instruction

/-- An instruction with nothing in its operands. -/
def blanked : Instruction → Instruction
  | .waitSync => .waitSync
  | .setMarker _ => .setMarker 0
  | .setGain bank _ _ => .setGain bank 0 0
  | .setOffset bank _ _ => .setOffset bank 0 0
  | .setPhase _ => .setPhase ⟨0, 0, 0⟩
  | .setPhaseDelta _ => .setPhaseDelta ⟨0, 0, 0⟩
  | .wait _ => .wait 0
  | .play _ _ _ => .play 0 0 0
  | .acquire _ _ _ => .acquire 0 0 0
  | .move _ _ => .move 0 ""
  | .jump _ => .jump ""

/-- All instructions with nothing in their operands. -/
def blanks : List Instruction :=
  [.waitSync, .setMarker 0, .setGain .awg 0 0, .setGain .acq 0 0, .setOffset .awg 0 0,
    .setOffset .acq 0 0,
   .setPhase ⟨0, 0, 0⟩, .setPhaseDelta ⟨0, 0, 0⟩, .wait 0, .play 0 0 0, .acquire 0 0 0, .move 0 "",
     .jump ""]

theorem blanked_mem_blanks (i : Instruction) : i.blanked ∈ blanks := by
  cases i with
  | setGain bank _ _ | setOffset bank _ _ => cases bank <;> simp [blanked, blanks]
  | _ => simp [blanked, blanks]

theorem mnemonic_blanked (i : Instruction) : i.blanked.mnemonic = i.mnemonic := by
  cases i <;> rfl

/-- **The mnemonic tells the instruction.** -/
theorem blanked_eq_of_mnemonic_eq {i j : Instruction} (h : i.mnemonic = j.mnemonic) :
    i.blanked = j.blanked := by
  have hall : ∀ a ∈ blanks, ∀ b ∈ blanks, a.mnemonic = b.mnemonic → a = b := by decide
  refine hall _ i.blanked_mem_blanks _ j.blanked_mem_blanks ?_
  rw [mnemonic_blanked, mnemonic_blanked, h]

theorem mnemonic_ne_empty (i : Instruction) : i.mnemonic ≠ "" := by
  have hall : ∀ a ∈ blanks, a.mnemonic ≠ "" := by decide
  rw [← mnemonic_blanked]
  exact hall _ i.blanked_mem_blanks

/-- **Mnemonic and operands determine an instruction.** -/
theorem eq_of_columns {i j : Instruction} (hmnemonic : i.mnemonic = j.mnemonic)
    (h : i.operands = j.operands) : i = j := by
  have hsame := blanked_eq_of_mnemonic_eq hmnemonic
  cases i with
  | waitSync =>
    cases j with
    | waitSync => rfl
    | _ => cases hsame
  | setMarker value =>
    cases j with
    | setMarker value' => rw [toString_nat_inj h]
    | _ => cases hsame
  | setGain bank i q =>
    cases j with
    | setGain bank' i' q' =>
      obtain ⟨rfl, -, -⟩ := setGain.inj hsame
      obtain ⟨rfl, rfl⟩ := toString_int_pair_inj h
      rfl
    | _ => cases hsame
  | setOffset bank i q =>
    cases j with
    | setOffset bank' i' q' =>
      obtain ⟨rfl, -, -⟩ := setOffset.inj hsame
      obtain ⟨rfl, rfl⟩ := toString_int_pair_inj h
      rfl
    | _ => cases hsame
  | setPhase phase =>
    cases j with
    | setPhase phase' => rw [Phase.eq_of_operands h]
    | _ => cases hsame
  | setPhaseDelta phase =>
    cases j with
    | setPhaseDelta phase' => rw [Phase.eq_of_operands h]
    | _ => cases hsame
  | wait duration =>
    cases j with
    | wait duration' => rw [toString_nat_inj h]
    | _ => cases hsame
  | play i q duration =>
    cases j with
    | play i' q' duration' =>
      obtain ⟨rfl, rfl, rfl⟩ := toString_nat_triple_inj h
      rfl
    | _ => cases hsame
  | acquire i q duration =>
    cases j with
    | acquire i' q' duration' =>
      obtain ⟨rfl, rfl, rfl⟩ := toString_nat_triple_inj h
      rfl
    | _ => cases hsame
  | move source target =>
    cases j with
    | move source' target' =>
      obtain ⟨rfl, rfl⟩ :=
        toString_int_comma_inj (by simpa only [operands, String.append_assoc] using h)
      rfl
    | _ => cases hsame
  | jump target =>
    cases j with
    | jump target' => rw [(String.append_right_inj "@").mp h]
    | _ => cases hsame

end Instruction

/-! ## Statements -/

namespace Statement

/-- The comment of a statement. -/
def comment? : Statement → Option String
  | .step _ _ comment => comment
  | .lineBreak => none

theorem label_inj {a b : Option String}
    (h : (a.map (· ++ ":")).getD "" = (b.map (· ++ ":")).getD "") : a = b := by
  cases a with
  | none =>
    cases b with
    | none => rfl
    | some b => simp at h
  | some a =>
    cases b with
    | none => simp at h
    | some b => rw [(String.append_left_inj ":").mp h]

theorem comment_inj {a b : Option String} (ha : a ≠ some "") (hb : b ≠ some "")
    (h : a.getD "" = b.getD "") : a = b := by
  cases a with
  | none =>
    cases b with
    | none => rfl
    | some b => exact absurd (congrArg some h.symm) hb
  | some a =>
    cases b with
    | none => exact absurd (congrArg some h) ha
    | some b => exact congrArg some h

/-- **A row determines its statement**, if no comment is empty. -/
theorem eq_of_row {s s' : Statement} (hs : s.comment? ≠ some "") (hs' : s'.comment? ≠ some "")
    (h : s.row = s'.row) : s = s' := by
  cases s with
  | lineBreak =>
    cases s' with
    | lineBreak => rfl
    | step label i comment => exact absurd (congrArg Row.mnemonic h).symm i.mnemonic_ne_empty
  | step label i comment =>
    cases s' with
    | lineBreak => exact absurd (congrArg Row.mnemonic h) i.mnemonic_ne_empty
    | step label' i' comment' =>
      have hlabel : label = label' := label_inj (congrArg Row.label h)
      have hinstruction : i = i' :=
        Instruction.eq_of_columns (congrArg Row.mnemonic h) (congrArg Row.operands h)
      have hcomment : comment = comment' := comment_inj hs hs' (congrArg Row.comment h)
      rw [hlabel, hinstruction, hcomment]

theorem eq_of_rows {ss ss' : List Statement} (hs : ∀ s ∈ ss, s.comment? ≠ some "")
    (hs' : ∀ s ∈ ss', s.comment? ≠ some "") (h : ss.map row = ss'.map row) : ss = ss' := by
  induction ss generalizing ss' with
  | nil => exact (List.map_eq_nil_iff.mp h.symm).symm
  | cons s ss ih =>
    cases ss' with
    | nil => cases h
    | cons s' ss' =>
      obtain ⟨hfirst, hrest⟩ := List.cons.inj h
      rw [List.forall_mem_cons] at hs hs'
      rw [eq_of_row hs.1 hs'.1 hfirst, ih hs.2 hs'.2 hrest]

theorem comment?_commented (label : Option String) (i : Instruction) (comment : Option String) :
    (commented label i comment).comment? ≠ some "" := by
  intro h
  obtain ⟨-, hne⟩ := Option.filter_eq_some_iff.mp (show comment.filter _ = some "" from h)
  exact absurd hne (by decide)

end Statement

/-! ## Legible texts -/

namespace Text

/-- A text that stays on its line and does not end in a blank. -/
structure Legible (cs : List Char) : Prop where
  oneLine : '\n' ∉ cs
  trimmed : Trimmed cs

instance decidableLegible (cs : List Char) : Decidable (Legible cs) :=
  decidable_of_iff ('\n' ∉ cs ∧ Trimmed cs) ⟨fun h => ⟨h.1, h.2⟩, fun h => ⟨h.1, h.2⟩⟩

theorem isBlank_of_isDigit {c : Char} (h : c.isDigit = true) : isBlank c = false := by
  have hrange : 48 ≤ c.toNat ∧ c.toNat ≤ 57 := by
    simpa [Char.isDigit, UInt32.le_iff_toNat_le] using h
  simp only [isBlank, blankRanges, List.any_cons, List.any_nil, Bool.or_false, Bool.or_eq_false_iff,
    Bool.and_eq_false_iff, decide_eq_false_iff_not]
  omega

namespace Legible

theorem append {a b : List Char} (ha : Legible a) (hb : Legible b) : Legible (a ++ b) :=
  ⟨fun hmem => (List.mem_append.mp hmem).elim ha.oneLine hb.oneLine, ha.trimmed.append hb.trimmed⟩

theorem int (n : Int) : Legible (toString n).toList := by
  refine ⟨fun hmem => absurd (isDigit_of_mem_toString_int hmem) (by decide),
    .of_forall fun c hc => ?_⟩
  rcases isDigit_of_mem_toString_int hc with hdigit | rfl
  · exact isBlank_of_isDigit hdigit
  · decide

theorem nat (n : Nat) : Legible (toString n).toList := int n

end Legible

end Text

theorem Instruction.legible_mnemonic (i : Instruction) : Text.Legible i.mnemonic.toList := by
  have hall : ∀ a ∈ blanks, Text.Legible a.mnemonic.toList := by decide
  rw [← mnemonic_blanked]
  exact hall _ i.blanked_mem_blanks

theorem Instruction.legible_operands {i : Instruction} (h : IfThere Text.Legible i.name?) :
    Text.Legible i.operands.toList :=
  operands_induction (by decide) .append (by decide) (by decide) .nat .int h

instance decidableIfThere {p : List Char → Prop} [DecidablePred p] :
    (text : Option String) → Decidable (IfThere p text)
  | none => isTrue trivial
  | some text => inferInstanceAs (Decidable (p text.toList))

namespace Statement

/-- A statement that a listing shows as it is. A label is followed by a colon, so it may end in
blanks. -/
structure Legible (s : Statement) : Prop where
  label : IfThere ('\n' ∉ ·) s.label?
  name : IfThere Text.Legible (s.instruction?.bind Instruction.name?)
  comment : IfThere Text.Legible s.comment?

instance decidableLegible (s : Statement) : Decidable s.Legible :=
  decidable_of_iff
    (IfThere ('\n' ∉ ·) s.label? ∧ IfThere Text.Legible (s.instruction?.bind Instruction.name?) ∧
    IfThere Text.Legible s.comment?) ⟨fun h => ⟨h.1, h.2.1, h.2.2⟩, fun h => ⟨h.1, h.2, h.3⟩⟩

theorem legible_label {label : Option String} (h : IfThere ('\n' ∉ ·) label) :
    Text.Legible ((label.map (· ++ ":")).getD "").toList := by
  cases label with
  | none => decide
  | some name =>
    show Text.Legible (name ++ ":").toList
    rw [String.toList_append]
    refine ⟨?_, Text.dropBlankEnd_append_cons (by decide) name.toList []⟩
    rw [List.mem_append, not_or]
    exact ⟨h, by decide⟩

/-- Every column of a legible statement is legible. -/
theorem Legible.row {s : Statement} (h : s.Legible) : s.row.OneLine ∧ s.row.Trimmed := by
  have hcolumns : Text.Legible s.row.label.toList ∧ Text.Legible s.row.mnemonic.toList ∧
      Text.Legible s.row.operands.toList ∧ Text.Legible s.row.comment.toList := by
    cases s with
    | lineBreak => decide
    | step label i comment =>
      refine ⟨legible_label h.label, i.legible_mnemonic, Instruction.legible_operands h.name, ?_⟩
      cases comment with
      | none => exact (by decide : Text.Legible "".toList)
      | some text => exact h.comment
  obtain ⟨hlabel, hmnemonic, hoperands, hcomment⟩ := hcolumns
  exact ⟨⟨hlabel.oneLine, hmnemonic.oneLine, hoperands.oneLine, hcomment.oneLine⟩,
    ⟨hlabel.trimmed, hmnemonic.trimmed, hoperands.trimmed, hcomment.trimmed⟩⟩

end Statement

/-! ## Programs -/

namespace Operation

variable {t : Traits} {op : Operation} {added : List Statement}

/-- The encoder writes no empty comments. -/
theorem comment?_statements (h : op.statements t = .ok added) :
    ∀ s ∈ added, s.comment? ≠ some "" := by
  have htimed : ∀ {label comment : Option String} {d : Nat} {make : Nat → Instruction},
      timed t label d comment make = .ok added → ∀ s ∈ added, s.comment? ≠ some "" := by
    intro label comment d make h s hs
    obtain ⟨first, rest, -, rfl⟩ := timed_eq_ok h
    rcases List.mem_cons.mp hs with rfl | hs
    · exact Statement.comment?_commented _ _ _
    · obtain ⟨c, -, rfl⟩ := List.mem_map.mp hs
      exact Statement.comment?_commented _ _ _
  cases hd : op.duration? with
  | none =>
    obtain ⟨rfl, -⟩ | ⟨i, comment, rfl, -⟩ := statements_of_untimed h hd
    · simp [Statement.comment?]
    · simp [Statement.comment?_commented]
  | some duration =>
    cases op with
    | wait | play | acquire => exact htimed h
    | _ => cases hd

end Operation

namespace Program

theorem comment?_run (t : Traits) (ops : List Operation) :
    ∀ s ∈ ((empty t).run ops).statements, s.comment? ≠ some "" := by
  refine run_induction (motive := fun _ q => ∀ s ∈ q.statements, s.comment? ≠ some "")
    (by simp [empty]) ?_ ops
  intro done op q q' hq h
  obtain ⟨-, added, hadded, hstatements⟩ := statements_perform h
  rw [hstatements, List.forall_mem_append]
  exact ⟨hq, Operation.comment?_statements hadded⟩

/-- The rows of a legible program are found again in its listing. -/
theorem rows_of_listing {p : Program} (h : ∀ s ∈ p.statements, s.Legible) :
    ∃ found, Listing.lines p.listing = found ++ [[]] ∧ found.length = p.statements.length ∧
      found.map (Listing.cut (Listing.widths p.rows)) = p.rows := by
  have hrows : ∀ row ∈ p.rows, row.OneLine ∧ row.Trimmed := by
    intro row hrow
    obtain ⟨s, hs, rfl⟩ := List.mem_map.mp hrow
    exact (h s hs).row
  obtain ⟨found, hlines, hlength, hcut⟩ :=
    Listing.rows_of_text (fun row hrow => (hrows row hrow).1) fun row hrow => (hrows row hrow).2
  exact ⟨found, hlines, hlength.trans (List.length_map _), hcut⟩

/-- **A listing determines its program.** If all texts of a program are legible, its listing has one
line for each statement, and cutting the lines where the columns begin gives back the rows. The rows
give back the statements: no other run of the encoder has the same rows, or, if it is legible too,
the same listing with the same widths. -/
theorem listing_determines (t : Traits) (ops : List Operation)
    (h : ∀ s ∈ ((empty t).run ops).statements, s.Legible) :
    let p := (empty t).run ops
    (∃ found, Listing.lines p.listing = found ++ [[]] ∧ found.length = p.statements.length ∧
      found.map (Listing.cut (Listing.widths p.rows)) = p.rows) ∧
    ∀ t' ops', let q := (empty t').run ops'
      (q.rows = p.rows → q.statements = p.statements) ∧
      ((∀ s ∈ q.statements, s.Legible) → Listing.widths q.rows = Listing.widths p.rows →
        q.listing = p.listing → q.statements = p.statements) := by
  intro p
  have hp := rows_of_listing h
  refine ⟨hp, fun t' ops' => ?_⟩
  intro q
  have hrows : q.rows = p.rows → q.statements = p.statements :=
    Statement.eq_of_rows (comment?_run t' ops') (comment?_run t ops)
  refine ⟨hrows, fun hq hwidths hlisting => hrows ?_⟩
  obtain ⟨found, hlines, -, hcut⟩ := hp
  obtain ⟨found', hlines', -, hcut'⟩ := rows_of_listing hq
  have hfound : found' = found := by
    rw [hlisting, hlines] at hlines'
    exact (List.append_cancel_right hlines').symm
  rw [← hcut', ← hcut, hfound, hwidths]

/-- Letters of two bytes, a label with blanks and a colon, a name with a comma, a wait of two
chunks, and lines that end early. -/
theorem listing_determines_annotated :
    let p := (empty .controlModule).run
      [.setMarker (some "größe") 1, .move none (-3) "R0, 7" (some "# 4 µs"), .lineBreak,
       .wait (some " a: ") 65539 none, .jump none "größe" none]
    (∀ s ∈ p.statements, s.Legible) ∧
      p.listing = "größe:   set_mrk 1\n         move    -3,R0, 7 # 4 µs\n\n a: :    wait    65535\n"
        ++ "         wait    4\n         jmp     @größe\n" ∧
      (∃ found, Listing.lines p.listing = found ++ [[]] ∧ found.length = 6 ∧
        found.map (Listing.cut ⟨8, 7, 8⟩) = p.rows) ∧
      ∀ t' ops', ((empty t').run ops').rows = p.rows →
        ((empty t').run ops').statements = p.statements := by
  intro p
  have h : ∀ s ∈ p.statements, s.Legible := by decide
  obtain ⟨⟨found, hlines, hlength, hcut⟩, hother⟩ := listing_determines _ _ h
  exact ⟨h, by decide +kernel, ⟨found, hlines, hlength, hcut⟩, fun t' ops' => (hother t' ops').1⟩

end Program

end Sequencer
