import Sequencer.Configuration
import Sequencer.Proofs.Agreement
import Sequencer.Proofs.Encoding
import Sequencer.Proofs.Lines

/-!
# Programs without comments

A program can be generated with comments or without. Comments are given to the encoder with every
operation, and an operation that is spread over several instructions repeats its comment on each, so
the two programs are made on different paths from the plan to the listing.

They are compared step by step. A step of one plan is a step of the other without its comment; so
are the statements that it is encoded as; and what checks a program for labels and jumps does not
see comments. For the listing it also matters what the texts are made of, because in a line only a
number sign tells where the comment starts. The plans use one label, which is plain, and four
comments, which are remarks.

## Main definitions

* `IfThere` — a property of a text that may be missing
* `Settings.silent` — the same settings, without comments
* `Operation.uncommented`, `Operation.Tidy` — without a comment, and with texts that a listing can
  show
* `Statement.Silences`, `Step.Silences`, `Program.Silences` — the same with and without comments

## Main results

* `Operation.agree_statements` — an operation is encoded alike with and without its comment
* `CompiledResource.plan_silent` — the two plans of a resource
* `CompiledResource.program_silent` — the two programs of a resource
-/

namespace Sequencer

/-! ## Statements -/

/-- A text has a property, unless it is missing. -/
def IfThere (p : List Char → Prop) : Option String → Prop
  | none => True
  | some text => p text.toList

/-- The text in the operands of an instruction that is not a number: a register, or a label. -/
def Instruction.name? : Instruction → Option String
  | .move _ target | .jump target => some target
  | _ => none

theorem Instruction.plain_mnemonic (i : Instruction) : Plain i.mnemonic.toList := by
  cases i with
  | setGain bank _ _ | setOffset bank _ _ =>
    rw [mnemonic]
    cases bank <;> decide
  | _ =>
    rw [mnemonic]
    decide

/-- Operands are numbers and a name, joined by commas or marked as a label. -/
theorem Instruction.operands_induction {p : List Char → Prop} (nil : p [])
    (append : ∀ {a b}, p a → p b → p (a ++ b)) (comma : p [',']) (mark : p ['@'])
    (nat : ∀ n : Nat, p (toString n).toList) (int : ∀ n : Int, p (toString n).toList)
    {i : Instruction} (h : IfThere p i.name?) : p i.operands.toList := by
  cases i with
  | waitSync => exact nil
  | setMarker value => exact nat value
  | setGain bank i q | setOffset bank i q =>
    simp only [operands, String.toList_append]
    exact append (append (int i) comma) (int q)
  | setPhase phase | setPhaseDelta phase =>
    simp only [operands, String.toList_append]
    exact append (append (append (append (nat _) comma) (nat _)) comma) (nat _)
  | wait duration => exact nat duration
  | play i q duration | acquire i q duration =>
    simp only [operands, String.toList_append]
    exact append (append (append (append (nat i) comma) (nat q)) comma) (nat duration)
  | move source target =>
    simp only [operands, String.toList_append]
    exact append (append (int source) comma) h
  | jump target =>
    simp only [operands, String.toList_append]
    exact append mark h

theorem Instruction.plain_operands {i : Instruction} (h : IfThere Plain i.name?) :
    Plain i.operands.toList :=
  operands_induction (by decide) .append (by decide) (by decide) .nat .int h

namespace Statement

/-- A statement without its comment. -/
def uncommented : Statement → Statement
  | .step label instruction _ => .step label instruction none
  | .lineBreak => .lineBreak

theorem row_uncommented (s : Statement) : s.uncommented.row = s.row.uncommented := by
  cases s <;> rfl

theorem label?_uncommented (s : Statement) : s.uncommented.label? = s.label? := by
  cases s <;> rfl

theorem instruction?_uncommented (s : Statement) : s.uncommented.instruction? = s.instruction? := by
  cases s <;> rfl

/-- The second statement is the first without its comment, and the first is legible in a listing. -/
def Silences (on off : Statement) : Prop := on.row.Tidy ∧ on.uncommented = off

theorem silences_lineBreak : Silences .lineBreak .lineBreak :=
  ⟨⟨by decide, by decide, by decide, Or.inl rfl⟩, rfl⟩

variable {label comment : Option String} {i : Instruction}

theorem silences_commented (hlabel : IfThere Plain label) (hi : IfThere Plain i.name?)
    (hcomment : IfThere Remark comment) :
    Silences (.commented label i comment) (.commented label i none) := by
  refine ⟨⟨?_, i.plain_mnemonic, Instruction.plain_operands hi, ?_⟩, rfl⟩
  · show Plain ((label.map (· ++ ":")).getD "").toList
    cases label with
    | none => decide
    | some name =>
      show Plain (name ++ ":").toList
      rw [String.toList_append]
      exact hlabel.append (by decide)
  · show (comment.filter (· != "")).getD "" = "" ∨
      Remark ((comment.filter (· != "")).getD "").toList
    cases comment with
    | none => exact Or.inl rfl
    | some text =>
      rw [Option.filter_some]
      split
      · exact Or.inr hcomment
      · exact Or.inl rfl

end Statement

/-! ## Operations -/

namespace Operation

/-- An operation without its comment. -/
def uncommented : Operation → Operation
  | .waitSync _ => .waitSync none
  | .setGain bank gain gainQ _ => .setGain bank gain gainQ none
  | .wait label duration _ => .wait label duration none
  | .play label i q duration _ => .play label i q duration none
  | .acquire label i q duration _ => .acquire label i q duration none
  | .move label source target _ => .move label source target none
  | .jump label target _ => .jump label target none
  | op => op

/-- An operation whose names are plain and whose comment, if it has one, is a remark. -/
def Tidy : Operation → Prop
  | .lineBreak | .setOffset _ _ | .setPhase _ | .setPhaseDelta _ => True
  | .waitSync comment | .setGain _ _ _ comment => IfThere Remark comment
  | .setMarker label _ => IfThere Plain label
  | .wait label _ comment | .play label _ _ _ comment | .acquire label _ _ _ comment =>
    IfThere Plain label ∧ IfThere Remark comment
  | .move label _ target comment | .jump label target comment =>
    IfThere Plain label ∧ Plain target.toList ∧ IfThere Remark comment

variable {t : Traits} {op : Operation}

/-- Every chunk of a timed operation has the comment, and only the first has the label. -/
theorem agree_timed {label comment : Option String} {make : Nat → Instruction}
    (hmake : ∀ c, (make c).name? = none) (hlabel : IfThere Plain label)
    (hcomment : IfThere Remark comment) (duration : Nat) :
    Agree (List.Forall₂ Statement.Silences) (timed t label duration comment make)
      (timed t label duration none make) := by
  have hname : ∀ c, IfThere Plain (make c).name? := fun c => by
    rw [hmake]
    trivial
  refine (Agree.refl (t.chunks duration)).bind ?_
  rintro (_ | ⟨first, rest⟩) _ rfl
  · exact .ok .nil
  · refine .ok (.cons (Statement.silences_commented hlabel (hname first) hcomment) ?_)
    rw [List.forall₂_map_left_iff, List.forall₂_map_right_iff, List.forall₂_same]
    exact fun c _ => Statement.silences_commented trivial (hname c) hcomment

/-- **An operation is encoded alike with and without its comment.** -/
theorem agree_statements (h : op.Tidy) :
    Agree (List.Forall₂ Statement.Silences) (op.statements t) (op.uncommented.statements t) := by
  cases op with
  | lineBreak => exact .ok (.cons Statement.silences_lineBreak .nil)
  | waitSync comment => exact .ok (.cons (Statement.silences_commented trivial trivial h) .nil)
  | setMarker label value => exact .ok (.cons (Statement.silences_commented h trivial trivial) .nil)
  | setGain bank gainI gainQ comment =>
    refine (Agree.refl _).bind fun i _ hi => ?_
    subst hi
    cases gainQ with
    | none => exact .ok (.cons (Statement.silences_commented trivial trivial h) .nil)
    | some own =>
      refine (Agree.refl _).bind fun q _ hq => ?_
      subst hq
      exact .ok (.cons (Statement.silences_commented trivial trivial h) .nil)
  | setOffset bank offset =>
    refine (Agree.refl _).bind fun value _ hvalue => ?_
    subst hvalue
    exact .ok (.cons (Statement.silences_commented trivial trivial trivial) .nil)
  | setPhase degrees | setPhaseDelta degrees =>
    refine (Agree.refl _).bind fun phase _ hphase => ?_
    subst hphase
    exact .ok (.cons (Statement.silences_commented trivial trivial trivial) .nil)
  | wait label duration comment => exact agree_timed (fun _ => rfl) h.1 h.2 duration
  | play label i q duration comment => exact agree_timed (fun _ => rfl) h.1 h.2 duration
  | acquire label i q duration comment => exact agree_timed (fun _ => rfl) h.1 h.2 duration
  | move label source target comment | jump label target comment =>
    obtain ⟨hlabel, htarget, hcomment⟩ := h
    exact .ok (.cons (Statement.silences_commented hlabel htarget hcomment) .nil)

/-- The second operation is the first without its comment, and the first is legible in a listing. -/
def Silences (on off : Operation) : Prop := on.Tidy ∧ on.uncommented = off

end Operation

/-! ## Steps -/

namespace Step

/-- A failed check has no comment, and an operation is as it would be without one. -/
inductive Silences : Step → Step → Prop where
  | emit (context : Option Context) {on off : Operation} (h : on.Silences off) :
    Silences (.emit context on) (.emit context off)
  | fail (e : CompileError) : Silences (.fail e) (.fail e)

theorem Silences.agree_encode {on off : Step} (h : on.Silences off) (t : Traits) :
    Agree (List.Forall₂ Statement.Silences) (on.encode t) (off.encode t) := by
  cases h with
  | emit context h =>
    obtain ⟨htidy, rfl⟩ := h
    exact (Operation.agree_statements htidy).mapError _
  | fail e => exact .error e

end Step

namespace Settings

/-- The same settings, without comments. -/
def silent (settings : Settings) : Settings := { settings with comments := false }

theorem remark_comment {text : String} (h : Remark text.toList) (settings : Settings) :
    IfThere Remark (settings.comment text) := by
  rw [comment]
  split
  · exact h
  · trivial

end Settings

/-! ## Plans -/

namespace CompiledResource

variable {r : CompiledResource} {settings : Settings}

theorem waitSteps_silent {comment : String} (h : Remark comment.toList) (context : Context)
    (duration : Int) :
    List.Forall₂ Step.Silences (waitSteps settings context duration comment)
      (waitSteps settings.silent context duration comment) := by
  rw [waitSteps, waitSteps]
  split
  · exact .cons (.emit _ ⟨⟨trivial, settings.remark_comment h⟩, rfl⟩) .nil
  · exact .nil

theorem modulate_silent (bank : Bank) (m : Modulations Float) :
    List.Forall₂ Operation.Silences (modulate settings bank m)
      (modulate settings.silent bank m) := by
  have hsame :
    ∀ {make : Float → Operation} (value : Option Float), (∀ x, (make x).Silences (make x)) →
      List.Forall₂ Operation.Silences (value.map make).toList (value.map make).toList := by
    intro make value hmake
    cases value with
    | none => exact .nil
    | some x => exact .cons (hmake x) .nil
  refine List.rel_append (List.rel_append (List.rel_append ?_ ?_) ?_) ?_
  · cases m.gain with
    | none => exact .nil
    | some gain => exact .cons ⟨settings.remark_comment (by decide), rfl⟩ .nil
  · exact hsame m.offset fun x => ⟨trivial, rfl⟩
  · exact hsame m.phase fun x => ⟨trivial, rfl⟩
  · exact hsame m.phaseDelta fun x => ⟨trivial, rfl⟩

theorem silences_sound (slot : Slot) (duration : Nat) :
    (sound slot duration).Silences (sound slot duration) := by
  rw [sound]
  split <;> exact ⟨⟨trivial, trivial⟩, rfl⟩

theorem entrySteps_silent (e : Entry) (wait duration : Int) :
    List.Forall₂ Step.Silences (r.entrySteps settings e wait duration)
      (r.entrySteps settings.silent e wait duration) := by
  refine List.rel_append (waitSteps_silent (by decide) _ _) (.cons (.emit _ ⟨trivial, rfl⟩) ?_)
  cases r.memory.lookup e.key with
  | none => exact .cons (.fail _) .nil
  | some slot =>
    show List.Forall₂ Step.Silences (List.map _ _) (List.map _ _)
    rw [List.forall₂_map_left_iff, List.forall₂_map_right_iff]
    exact (List.rel_append (modulate_silent slot.bank e.modulations)
      (.cons (silences_sound slot duration.toNat) .nil)).imp fun _ _ h => .emit _ h

/-- The clock of a walk does not depend on comments, and neither do the checks on the way. -/
theorem walk_silent (r : CompiledResource) (settings : Settings) (previous : Option Entry)
    (clock : Int) (entries : List Entry) :
    List.Forall₂ Step.Silences (r.walk settings previous clock entries).1
        (r.walk settings.silent previous clock entries).1 ∧
      (r.walk settings.silent previous clock entries).2
        = (r.walk settings previous clock entries).2 := by
  induction entries generalizing previous clock with
  | nil => exact ⟨.nil, rfl⟩
  | cons e rest ih =>
    rw [walk, walk]
    split
    · exact ⟨.cons (.fail _) .nil, rfl⟩
    cases r.cache.get? e.key with
    | none => exact ⟨.cons (.fail _) .nil, rfl⟩
    | some waveform =>
      obtain ⟨hsteps, hclock⟩ := ih (some e) (e.time + playTime waveform.length e rest)
      exact ⟨List.rel_append (entrySteps_silent e _ _) hsteps, hclock⟩

theorem padding_silent (remaining : Int) :
    List.Forall₂ Step.Silences (r.padding settings remaining)
      (r.padding settings.silent remaining) := by
  rw [padding, padding]
  cases r.entries.getLast? with
  | none => exact .nil
  | some last => exact waitSteps_silent (by decide) _ _

/-- **The plans of a resource with and without comments** are the same but for the comments. -/
theorem plan_silent (duration : Int) :
    List.Forall₂ Step.Silences (r.plan duration settings) (r.plan duration settings.silent) := by
  have hstart : Plain startLabel.toList := by decide
  obtain ⟨hbody, hclock⟩ := walk_silent r settings none 0 r.entries
  refine .cons (.emit _ ⟨settings.remark_comment (by decide), rfl⟩)
    (.cons (.emit _ ⟨hstart, rfl⟩) ?_)
  split
  · exact .cons (.fail _) .nil
  · show List.Forall₂ Step.Silences (_ ++ r.padding settings _ ++ _)
      (_ ++ r.padding settings.silent _ ++ _)
    rw [hclock]
    refine List.rel_append (List.rel_append hbody (padding_silent _)) ?_
    exact .cons (.emit _ ⟨trivial, rfl⟩)
      (.cons (.emit _ ⟨⟨trivial, hstart, settings.remark_comment (by decide)⟩, rfl⟩) .nil)

end CompiledResource

/-! ## Programs -/

namespace Program

/-- The second program is the first without its comments, and the listing of the first is
legible. -/
structure Silences (on off : Program) : Prop where
  traits : off.traits = on.traits
  rows : off.rows = on.rows.map Row.uncommented
  tidy : ∀ row ∈ on.rows, row.Tidy

theorem Silences.lines_listing {on off : Program} (h : on.Silences off) :
    Listing.lines off.listing = (Listing.lines on.listing).map Listing.code := by
  rw [listing, h.rows]
  exact Listing.lines_uncommented h.tidy

theorem validate_uncommented (t : Traits) (statements : List Statement) :
    validate ⟨t, statements.map Statement.uncommented⟩ = validate ⟨t, statements⟩ := by
  have hlabels : labels ⟨t, statements.map Statement.uncommented⟩ = labels ⟨t, statements⟩ := by
    simp [labels, List.filterMap_map, Statement.label?_uncommented]
  have htargets : targets ⟨t, statements.map Statement.uncommented⟩ = targets ⟨t, statements⟩ := by
    simp [targets, List.filterMap_map, Statement.instruction?_uncommented]
  rw [validate, validate, hlabels, htargets]

end Program

/-- **The programs of a resource with and without comments** are made alike, or fail alike. -/
theorem CompiledResource.program_silent (r : CompiledResource) (duration : Int)
    (settings : Settings) :
    Agree Program.Silences (r.program duration settings) (r.program duration settings.silent) := by
  rw [program_eq, program_eq]
  refine (Agree.mapM (plan_silent duration) fun _ _ h => h.agree_encode r.traits).bind
    fun on off h => ?_
  obtain ⟨htidy, heq⟩ := (List.forall₂_and_left _ _).mp (List.rel_flatten h)
  have hoff : on.flatten.map Statement.uncommented = off.flatten := by
    rwa [← List.forall₂_eq_eq_eq, List.forall₂_map_left_iff]
  simp only [← hoff, Program.validate_uncommented]
  refine (Agree.refl _).bind fun _ _ _ => .ok ⟨rfl, ?_, ?_⟩
  · simp [Program.rows, Function.comp_def, Statement.row_uncommented]
  · intro row hrow
    obtain ⟨statement, hstatement, rfl⟩ := List.mem_map.mp hrow
    exact htidy statement hstatement

end Sequencer
