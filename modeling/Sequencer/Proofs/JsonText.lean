import Mathlib.Data.List.Forall2
import Sequencer.Json.Printer
import Sequencer.Json.Reader
import Sequencer.Proofs.Integers

/-!
# Where the parts of a JSON text end

A compact text has no blanks, so nothing but its characters says where one part ends and the next
begins. Two kinds of parts show their own end. A quoted text is closed by a quote, and the quotes
inside it are escaped. A number is not closed at all; but none of its characters is one that can
follow it.

For quoted texts the argument runs through the reader: it finds the end and gives the text back,
whatever stands behind. That is more than is needed to tell two texts apart, and it is shorter than
comparing the escapes of two characters with each other.

## Main definitions

* `Undelimited` — no character can end a number

## Main results

* `Reader.text_quoted` — a quoted text reads back as itself
* `Json.quote_append_inj` — a quoted text ends where it ends
* `Undelimited.numeral`, `Undelimited.append_cons_inj` — so does a number that a delimiter follows
* `Json.compact_object_reals_inj` — the text of an object of numbers tells its names and its numbers
-/

namespace Sequencer

open Json

/-! ## Quoted texts -/

namespace Reader

theorem hexValue?_hexDigit {n : Nat} (h : n < 16) : hexValue? (hexDigit n) = some n := by
  revert n
  decide

theorem unit?_hexDigit {n : Nat} (h : n < 256) :
    unit? '0' '0' (hexDigit (n / 16)) (hexDigit (n % 16)) = some n := by
  have hzero : hexValue? '0' = some 0 := by decide
  have hhigh : hexValue? (hexDigit (n / 16)) = some (n / 16) := hexValue?_hexDigit (by omega)
  have hlow : hexValue? (hexDigit (n % 16)) = some (n % 16) := hexValue?_hexDigit (by omega)
  simp only [unit?, hzero, hhigh, hlow, Option.bind_eq_bind, Option.bind_some, Option.pure_def,
    Option.some.injEq]
  omega

/-- The three forms of a character in a quoted text. -/
theorem escape_cases (c : Char) :
    (∃ e, escape c = ['\\', e] ∧ e ≠ 'u' ∧ shortEscape? e = some c) ∨
      (c.toNat < 32 ∧ escape c = ['\\', 'u', '0', '0', hexDigit (c.toNat / 16),
        hexDigit (c.toNat % 16)]) ∨
      (escape c = [c] ∧ c ≠ '"' ∧ c ≠ '\\' ∧ 32 ≤ c.toNat) := by
  have hcode : ∀ n, c.toNat = n → c = Char.ofNat n := by
    rintro n rfl
    rw [Char.ofNat_toNat]
  unfold escape
  split
  · subst_vars
    exact .inl ⟨'"', rfl, by decide, by decide⟩
  split
  · subst_vars
    exact .inl ⟨'\\', rfl, by decide, by decide⟩
  split
  · subst_vars
    exact .inl ⟨'n', rfl, by decide, by decide⟩
  split
  · subst_vars
    exact .inl ⟨'r', rfl, by decide, by decide⟩
  split
  · subst_vars
    exact .inl ⟨'t', rfl, by decide, by decide⟩
  split
  · next h => exact .inl ⟨'b', rfl, by decide, by rw [hcode 8 h]; decide⟩
  split
  · next h => exact .inl ⟨'f', rfl, by decide, by rw [hcode 12 h]; decide⟩
  split
  · next h => exact .inr (.inl ⟨h, rfl⟩)
  · next hquote hslash _ _ _ _ _ h => exact .inr (.inr ⟨rfl, hquote, hslash, Nat.not_lt.mp h⟩)

/-- The pieces that a character can be read as. -/
def Piece.IsChar (c : Char) (piece : Piece) : Prop :=
  piece = .char c ∨ piece = .unit c.toNat ∧ c.toNat < 32

/-- An escaped character is read as one piece. -/
theorem pieces_escape (read : List Piece) (c : Char) (rest : List Char) :
    ∃ piece : Piece, piece.IsChar c ∧ pieces read (escape c ++ rest) = pieces
      (piece :: read) rest := by
  rcases escape_cases c with ⟨e, he, hunit, hshort⟩ | ⟨hcontrol, he⟩ | ⟨he, hquote, hslash, hprint⟩
  · refine ⟨.char c, .inl rfl, ?_⟩
    rw [he, List.cons_append, List.cons_append, List.nil_append, pieces, hshort]
    all_goals simp [hunit]
  · refine ⟨.unit c.toNat, .inr ⟨rfl, hcontrol⟩, ?_⟩
    rw [he]
    simp only [List.cons_append, List.nil_append]
    rw [pieces, unit?_hexDigit (by omega)]
  · refine ⟨.char c, .inl rfl, ?_⟩
    rw [he, List.cons_append, List.nil_append, pieces, if_neg (Nat.not_lt.mpr hprint)]
    all_goals simp [hquote, hslash]

theorem pieces_flatMap_escape (read : List Piece) (cs rest : List Char) :
    ∃ parts, List.Forall₂ Piece.IsChar cs parts ∧
      pieces read (cs.flatMap escape ++ '"' :: rest) = (read.reverse ++ parts, .closed rest) := by
  induction cs generalizing read with
  | nil => exact ⟨[], .nil, by simp [pieces]⟩
  | cons c cs ih =>
    obtain ⟨piece, hpiece, hc⟩ := pieces_escape read c (cs.flatMap escape ++ '"' :: rest)
    obtain ⟨parts, hparts, hcs⟩ := ih (piece :: read)
    refine ⟨piece :: parts, .cons hpiece hparts, ?_⟩
    rw [List.flatMap_cons, List.append_assoc, hc, hcs, List.reverse_cons, List.append_assoc]
    rfl

/-- Pieces that are characters are joined to these characters. -/
theorem join_isChar {cs : List Char} {parts : List Piece} (h : List.Forall₂ Piece.IsChar cs parts)
    (ending : Ending) (read : List Char) : join ending read parts = .ok (read.reverse ++ cs) := by
  induction h generalizing read with
  | nil => simp [join]
  | @cons c piece cs parts hpiece _ ih =>
    have hjoin : join ending read (piece :: parts) = join ending (c :: read) parts := by
      rcases hpiece with rfl | ⟨rfl, hcontrol⟩
      · rw [join]
      · have htrailing : isTrailing c.toNat = false := decide_eq_false (by omega)
        have hleading : isLeading c.toNat = false := decide_eq_false (by omega)
        rw [join.eq_def]
        simp [htrailing, hleading]
    rw [hjoin, ih, List.reverse_cons, List.append_assoc]
    rfl

/-- **A quoted text reads back as itself,** and reading ends behind its closing quote. -/
theorem text_quoted (s : String) (rest : List Char) :
    text (s.toList.flatMap escape ++ '"' :: rest) = (.ok s, some rest) := by
  obtain ⟨parts, hparts, hpieces⟩ := pieces_flatMap_escape [] s.toList rest
  rw [text, hpieces]
  simp only [List.reverse_nil, List.nil_append]
  rw [join_isChar hparts]
  simp

end Reader

/-- A quoted text ends where it ends: what follows it cannot be taken for a part of it. -/
theorem Json.quote_append_inj {a b : String} {r r' : List Char} (h : quote a ++ r = quote b ++ r') :
    a = b ∧ r = r' := by
  have hquoted : a.toList.flatMap escape ++ '"' :: r = b.toList.flatMap escape ++ '"' :: r' := by
    simpa [quote] using h
  have hread := congrArg Reader.text hquoted
  rw [Reader.text_quoted, Reader.text_quoted] at hread
  simpa using hread

/-! ## Numbers

A number stands in a list or an object, and what can follow it there is a comma or a closing
brace. -/

/-- No character of the text can end a number. -/
def Undelimited (cs : List Char) : Prop := ∀ c ∈ cs, c ≠ ',' ∧ c ≠ '\x7d'

instance decidableUndelimited (cs : List Char) : Decidable (Undelimited cs) :=
  List.decidableBAll _ cs

namespace Undelimited

theorem append {a b : List Char} (ha : Undelimited a) (hb : Undelimited b) : Undelimited (a ++ b) :=
  List.forall_mem_append.mpr ⟨ha, hb⟩

theorem subset {a b : List Char} (h : Undelimited b) (hsub : a ⊆ b) : Undelimited a :=
  fun c hc => h c (hsub hc)

theorem int (n : Int) : Undelimited (toString n).toList := fun _ h =>
  ⟨ne_of_mem_toString_int h (by decide), ne_of_mem_toString_int h (by decide)⟩

theorem nat (n : Nat) : Undelimited (toString n).toList := int n

theorem zeros (n : Nat) : Undelimited (NumberFormat.zeros n).toList := by
  intro c hc
  rw [NumberFormat.zeros, String.toList_ofList] at hc
  rw [List.eq_of_mem_replicate hc]
  decide

/-- A sign or a point is written or left out. -/
theorem mark {p : Prop} [Decidable p] {text : String} (h : Undelimited text.toList) :
    Undelimited (if p then text else "").toList := by
  split
  · exact h
  · decide

section Format

variable (f : NumberFormat) (d : Decimal)

theorem positional : Undelimited (f.writePositional d).toList := by
  have htext := nat d.digits
  simp only [NumberFormat.writePositional]
  split
  · simp only [String.toList_append]
    exact (htext.append (zeros _)).append (mark (by decide))
  split
  · simp only [String.toList_append, String.toList_ofList]
    exact ((htext.subset (List.take_subset _ _)).append (by decide)).append
      (htext.subset (List.drop_subset _ _))
  · simp only [String.toList_append]
    exact (append (by decide) (zeros _)).append htext

theorem scientific (order : Int) : Undelimited (f.writeScientific d order).toList := by
  have htext := nat d.digits
  simp only [NumberFormat.writeScientific, String.toList_append]
  refine ((append ?_ (by decide)).append (mark (by decide))).append (int order)
  split
  · decide
  · next h =>
    rw [String.toList_ofList, ← h]
    exact htext
  · next c rest _ h =>
    rw [h] at htext
    rw [String.toList_ofList]
    have hfirst : Undelimited [c] := htext.subset (by simp)
    have hrest : Undelimited rest := htext.subset (by simp)
    exact hfirst.append (append (a := ['.']) (by decide) hrest)

theorem decimal : Undelimited (f.writeDecimal d).toList := by
  rw [NumberFormat.writeDecimal]
  split
  · exact positional f d
  · exact scientific f d _

theorem write (x : Float) : Undelimited (f.write x).toList := by
  rw [NumberFormat.write]
  split
  · split
    · decide
    · split <;> decide
  · simp only [String.toList_append]
    exact (mark (by decide)).append (decimal f _)

end Format

theorem numeral (x : Float) : Undelimited (Json.numeral x) := by
  rw [Json.numeral]
  split
  · exact write Json.number x
  · decide

/-- Where a text without delimiters is followed by one, the first delimiter is where the text
ends. -/
theorem append_cons_inj {a b r r' : List Char} {d d' : Char} (ha : Undelimited a)
    (hb : Undelimited b) (hd : ¬ Undelimited [d]) (hd' : ¬ Undelimited [d'])
    (h : a ++ d :: r = b ++ d' :: r') : a = b ∧ d :: r = d' :: r' := by
  induction a generalizing b with
  | nil =>
    cases b with
    | nil => exact ⟨rfl, h⟩
    | cons c b =>
      obtain ⟨rfl, -⟩ := List.cons.inj h
      exact absurd (hb.subset (by simp)) hd
  | cons c a ih =>
    cases b with
    | nil =>
      obtain ⟨rfl, -⟩ := List.cons.inj h
      exact absurd (ha.subset (by simp)) hd'
    | cons c' b =>
      obtain ⟨rfl, htail⟩ := List.cons.inj h
      obtain ⟨rfl, hrest⟩ := ih (ha.subset (List.subset_cons_self _ _))
        (hb.subset (List.subset_cons_self _ _)) htail
      exact ⟨rfl, hrest⟩

end Undelimited

/-! ## Objects of numbers -/

namespace Json

/-- What follows a member of an object starts with a delimiter. -/
theorem exists_compactMembers_eq_cons (members : List (String × Json)) (r : List Char) :
    ∃ d tail, ¬ Undelimited [d] ∧ compactMembers members ++ r = d :: tail := by
  cases members with
  | nil => exact ⟨'\x7d', r, by decide, rfl⟩
  | cons member members => exact ⟨',', _, by decide, by rw [compactMembers]; rfl⟩

/-- A number under a name ends where the next member starts, or the object ends. -/
theorem member_append_inj {name name' : String} {x x' : Float}
    {members members' : List (String × Json)} {r r' : List Char}
    (h : quote name ++ ':' :: (numeral x ++ (compactMembers members ++ r))
      = quote name' ++ ':' :: (numeral x' ++ (compactMembers members' ++ r'))) :
    (name = name' ∧ numeral x = numeral x') ∧
      compactMembers members ++ r = compactMembers members' ++ r' := by
  obtain ⟨rfl, hcolon⟩ := quote_append_inj h
  obtain ⟨d, tail, hd, hm⟩ := exists_compactMembers_eq_cons members r
  obtain ⟨d', tail', hd', hm'⟩ := exists_compactMembers_eq_cons members' r'
  rw [hm, hm'] at hcolon ⊢
  obtain ⟨hx, hrest⟩ := (Undelimited.numeral x).append_cons_inj (.numeral x') hd hd'
    (List.cons.inj hcolon).2
  exact ⟨⟨rfl, hx⟩, hrest⟩

/-- Numbers by name, as the members of an object. -/
def reals (entries : List (String × Float)) : List (String × Json) :=
  entries.map fun e => (e.1, .real e.2)

/-- Numbers by name, as they are written. -/
def numerals (entries : List (String × Float)) : List (String × List Char) :=
  entries.map fun e => (e.1, numeral e.2)

theorem compactMembers_reals_inj {a b : List (String × Float)} {r r' : List Char}
    (h : compactMembers (reals a) ++ r = compactMembers (reals b) ++ r') :
    numerals a = numerals b ∧ r = r' := by
  induction a generalizing b with
  | nil =>
    cases b with
    | nil => exact ⟨rfl, (List.cons.inj h).2⟩
    | cons y b => simp [reals, compactMembers] at h
  | cons x a ih =>
    cases b with
    | nil => simp [reals, compactMembers] at h
    | cons y b =>
      simp only [reals, List.map_cons, compactMembers, compact, List.cons_append,
        List.append_assoc] at h
      obtain ⟨⟨hname, hx⟩, hrest⟩ := member_append_inj (List.cons.inj h).2
      obtain ⟨hall, hr⟩ := ih hrest
      refine ⟨?_, hr⟩
      simp only [numerals, List.map_cons] at hall ⊢
      rw [hname, hx, hall]

/-- **The text of an object of numbers tells its names and the texts of its numbers,** in order, and
ends where it ends. -/
theorem compact_object_reals_inj {a b : List (String × Float)} {r r' : List Char}
    (h : compact (.object (reals a)) ++ r = compact (.object (reals b)) ++ r') :
    numerals a = numerals b ∧ r = r' := by
  cases a with
  | nil =>
    cases b with
    | nil => exact ⟨rfl, (List.cons.inj (List.cons.inj h).2).2⟩
    | cons y b => simp [reals, compact, quote] at h
  | cons x a =>
    cases b with
    | nil => simp [reals, compact, quote] at h
    | cons y b =>
      simp only [reals, List.map_cons, compact, List.cons_append, List.append_assoc] at h
      obtain ⟨⟨hname, hx⟩, hrest⟩ := member_append_inj (List.cons.inj h).2
      obtain ⟨hall, hr⟩ := compactMembers_reals_inj hrest
      refine ⟨?_, hr⟩
      simp only [numerals, List.map_cons] at hall ⊢
      rw [hname, hx, hall]

/-- An optional text ends where it ends. -/
theorem compact_text_inj {a b : Option String} {r r' : List Char}
    (h : compact (ofOption .text a) ++ r = compact (ofOption .text b) ++ r') : a = b ∧ r = r' := by
  cases a with
  | none =>
    cases b with
    | none => exact ⟨rfl, by simpa [ofOption, compact] using h⟩
    | some b => simp [ofOption, compact, quote] at h
  | some a =>
    cases b with
    | none => simp [ofOption, compact, quote] at h
    | some b =>
      obtain ⟨rfl, hr⟩ := quote_append_inj (by simpa [ofOption, compact] using h)
      exact ⟨rfl, hr⟩

end Json

end Sequencer
