import Sequencer.Proofs.JsonText
import Sequencer.Proofs.Numerals

/-!
# Reading JSON texts back

The compact text of a value is read as a draft without flaws, and the draft is decoded to the value
again. Both halves have their conditions. The reader needs numbers that it can read back. The
decoder needs objects whose keys are distinct, since of two members under one key it keeps the last,
and it goes no deeper into a text than its limit.

What is read of a part of a text does not depend on what follows, as long as that is no part of a
number: it is a comma or a closing bracket. So the statement about the reader is made for texts with
an arbitrary continuation, and proved along with the printer's recursion.

## Main definitions

* `Json.parts`, `Json.depth` — the values in a value, and how deep they are nested
* `Json.IsLegible` — values that are, if they are numbers, read back
* `Json.IsKeyed` — values that have, if they are objects, distinct keys

## Main results

* `Reader.value_compact` — a compact text is read as the draft of its value
* `Source.read_write` — so is the whole text
* `Decode.any_draft` — a draft without flaws is decoded to its value
-/

namespace Sequencer

/-! ## The parts of a value -/

namespace Json

mutual

/-- A value and all values in it. -/
def parts : Json → List Json
  | .list items => .list items :: partsOfItems items
  | .object members => .object members :: partsOfMembers members
  | j => [j]

/-- All values in list items. -/
def partsOfItems : List Json → List Json
  | [] => []
  | item :: items => parts item ++ partsOfItems items

/-- All values in object members. -/
def partsOfMembers : List (String × Json) → List Json
  | [] => []
  | (_, value) :: members => parts value ++ partsOfMembers members

end

mutual

/-- How many lists and objects of a value are nested. -/
def depth : Json → Nat
  | .list items => depthOfItems items + 1
  | .object members => depthOfMembers members + 1
  | _ => 0

/-- How many lists and objects are nested in list items. -/
def depthOfItems : List Json → Nat
  | [] => 0
  | item :: items => max (depth item) (depthOfItems items)

/-- How many lists and objects are nested in object members. -/
def depthOfMembers : List (String × Json) → Nat
  | [] => 0
  | (_, value) :: members => max (depth value) (depthOfMembers members)

end

/-- An integer has 64 bits, signed or unsigned. -/
def IsBounded : Json → Prop
  | .int n => -9223372036854775808 ≤ n ∧ n < 18446744073709551616
  | _ => True

/-- A double is finite, and is read as it was written. -/
def IsReadBack : Json → Prop
  | .real x => x.isFinite = true ∧ ReadsBack x
  | _ => True

/-- The keys of an object are distinct. -/
def IsKeyed : Json → Prop
  | .object members => (members.map Prod.fst).Nodup
  | _ => True

instance decidableIsBounded : (j : Json) → Decidable j.IsBounded
  | .int n => inferInstanceAs (Decidable (-9223372036854775808 ≤ n ∧ n < 18446744073709551616))
  | .null | .bool _ | .real _ | .text _ | .list _ | .object _ => instDecidableTrue

instance decidableIsReadBack : (j : Json) → Decidable j.IsReadBack
  | .real x => inferInstanceAs (Decidable (x.isFinite = true ∧ ReadsBack x))
  | .null | .bool _ | .int _ | .text _ | .list _ | .object _ => instDecidableTrue

instance decidableIsKeyed : (j : Json) → Decidable j.IsKeyed
  | .object members => inferInstanceAs (Decidable (members.map Prod.fst).Nodup)
  | .null | .bool _ | .int _ | .real _ | .text _ | .list _ => instDecidableTrue

/-- A number, if it is one, can be read back. -/
def IsLegible (j : Json) : Prop := j.IsBounded ∧ j.IsReadBack

/-- A value is a plain one, or what holds of all values in it carries over to it. -/
@[elab_as_elim]
theorem induction {motive : Json → Prop} (null : motive .null) (bool : ∀ b, motive (.bool b))
    (int : ∀ n, motive (.int n)) (real : ∀ x, motive (.real x)) (text : ∀ s, motive (.text s))
    (list : ∀ items : List Json, (∀ item ∈ items, motive item) → motive (.list items))
    (object : ∀ members : List (String × Json), (∀ member ∈ members, motive member.2) →
      motive (.object members))
    (j : Json) : motive j :=
  @Json.rec motive (fun items => ∀ item ∈ items, motive item)
    (fun members => ∀ member ∈ members, motive member.2)
    (fun member => motive member.2) null bool int real text list object (List.forall_mem_nil _)
    (fun _ _ hitem hitems => List.forall_mem_cons.mpr ⟨hitem, hitems⟩) (List.forall_mem_nil _)
    (fun _ _ hmember hmembers => List.forall_mem_cons.mpr ⟨hmember, hmembers⟩)
      (fun _ _ hvalue => hvalue) j

theorem mem_partsOfItems {part : Json} {items : List Json} :
    part ∈ partsOfItems items ↔ ∃ item ∈ items, part ∈ item.parts := by
  induction items with
  | nil => simp [partsOfItems]
  | cons item items ih => simp [partsOfItems, ih]

theorem mem_partsOfMembers {part : Json} {members : List (String × Json)} :
    part ∈ partsOfMembers members ↔ ∃ member ∈ members, part ∈ member.2.parts := by
  induction members with
  | nil => simp [partsOfMembers]
  | cons member members ih => simp [partsOfMembers, ih]

/-- A property of all parts of a list is one of the list and of all parts of its items. -/
theorem forall_parts_list {p : Json → Prop} {items : List Json} :
    (∀ part ∈ (list items).parts, p part) ↔ p (.list items) ∧
      ∀ item ∈ items, ∀ part ∈ item.parts, p part := by
  simp only [parts, List.forall_mem_cons, mem_partsOfItems]
  refine and_congr_right fun _ => ⟨fun h item hitem part hpart => h part ⟨item, hitem, hpart⟩, ?_⟩
  rintro h part ⟨item, hitem, hpart⟩
  exact h item hitem part hpart

theorem forall_parts_object {p : Json → Prop} {members : List (String × Json)} :
    (∀ part ∈ (object members).parts, p part) ↔
      p (.object members) ∧ ∀ member ∈ members, ∀ part ∈ member.2.parts, p part := by
  simp only [parts, List.forall_mem_cons, mem_partsOfMembers]
  refine and_congr_right fun _ =>
    ⟨fun h member hmember part hpart => h part ⟨member, hmember, hpart⟩, ?_⟩
  rintro h part ⟨member, hmember, hpart⟩
  exact h member hmember part hpart

theorem of_forall_parts {p : Json → Prop} {j : Json} (h : ∀ part ∈ j.parts, p part) : p j :=
  h j (by cases j <;> simp [parts])

theorem depth_le_depthOfItems {item : Json} {items : List Json} (h : item ∈ items) :
    item.depth ≤ depthOfItems items := by
  induction items with
  | nil => simp at h
  | cons other items ih =>
    rw [depthOfItems]
    rcases List.mem_cons.mp h with rfl | h
    · exact Nat.le_max_left _ _
    · exact Nat.le_trans (ih h) (Nat.le_max_right _ _)

theorem depth_le_depthOfMembers {member : String × Json} {members : List (String × Json)}
    (h : member ∈ members) : member.2.depth ≤ depthOfMembers members := by
  induction members with
  | nil => simp at h
  | cons other members ih =>
    rw [depthOfMembers]
    rcases List.mem_cons.mp h with rfl | h
    · exact Nat.le_max_left _ _
    · exact Nat.le_trans (ih h) (Nat.le_max_right _ _)

end Json

/-! ## Reading -/

namespace Reader

open Json

theorem Detached.cons {c : Char} (h : c.isDigit = false ∧ c ≠ '.' ∧ c ≠ 'e' ∧ c ≠ 'E')
    (cs : List Char) : Detached (c :: cs) :=
  ⟨.cons h.1 cs, by simpa using h.2.1, by simpa using h.2.2⟩

/-- What follows a list item is no part of a number. -/
theorem detached_compactItems (items : List Json) (rest : List Char) :
    Detached (compactItems items ++ rest) := by
  cases items with
  | nil => exact .cons (by decide) _
  | cons item items => exact .cons (by decide) _

theorem detached_compactMembers (members : List (String × Json)) (rest : List Char) :
    Detached (compactMembers members ++ rest) := by
  cases members with
  | nil => exact .cons (by decide) _
  | cons member members =>
    obtain ⟨key, value⟩ := member
    exact .cons (by decide) _

/-- Numbers are written as spellings. -/
theorem exists_number {j : Json} (hj : j.IsLegible)
    (hnumber : (∃ n, j = .int n) ∨ ∃ x, j = .real x) :
    ∃ w : Spelling, w.Proper ∧ j.compact = w.text ∧ numeric w.numeral = j.draft := by
  rcases hnumber with ⟨n, rfl⟩ | ⟨x, rfl⟩
  · obtain ⟨w, hw, htext, hvalue⟩ := Spelling.exists_int hj.1.1 hj.1.2
    exact ⟨w, hw, by rw [compact, htext], by rw [hvalue, draft]⟩
  · obtain ⟨w, hw, htext, hvalue⟩ := Spelling.exists_readsBack hj.2.2
    exact ⟨w, hw, by rw [compact, numeral, if_pos hj.2.1, htext], by rw [hvalue, draft]⟩

/-- A value starts neither with a blank nor with the end of a list. -/
theorem exists_compact_eq_cons {j : Json} (hj : j.IsLegible) :
    ∃ c cs, j.compact = c :: cs ∧ isSpace c = false ∧ c ≠ ']' := by
  have hnumber : ∀ w : Spelling, w.Proper → j.compact = w.text →
      ∃ c cs, j.compact = c :: cs ∧ isSpace c = false ∧ c ≠ ']' := by
    intro w hw htext
    obtain ⟨c, cs, hcons, hc⟩ := Spelling.start_text hw
    exact ⟨c, cs, htext.trans hcons, hc.isSpace, hc.ne (by decide)⟩
  cases j with
  | null => exact ⟨_, _, rfl, by decide, by decide⟩
  | bool b => cases b <;> exact ⟨_, _, rfl, by decide, by decide⟩
  | int n =>
    obtain ⟨w, hw, htext, -⟩ := exists_number hj (.inl ⟨n, rfl⟩)
    exact hnumber w hw htext
  | real x =>
    obtain ⟨w, hw, htext, -⟩ := exists_number hj (.inr ⟨x, rfl⟩)
    exact hnumber w hw htext
  | text s => exact ⟨_, _, rfl, by decide, by decide⟩
  | list items => cases items <;> exact ⟨_, _, rfl, by decide, by decide⟩
  | object members =>
    cases members with
    | nil => exact ⟨_, _, rfl, by decide, by decide⟩
    | cons member members =>
      obtain ⟨key, value⟩ := member
      exact ⟨_, _, rfl, by decide, by decide⟩

/-- The value is read back, in front of anything that is no part of a number. -/
def Reads (j : Json) : Prop :=
  ∀ fuel rest, 2 * j.compact.length ≤ fuel → Detached rest →
    value fuel (j.compact ++ rest) = (j.draft, some rest)

/-- Reading goes from one list item to the next. -/
theorem moreItems_compact {items : List Json} (hlegible : ∀ item ∈ items, item.IsLegible)
    (hreads : ∀ item ∈ items, Reads item) (fuel : Nat)
    (hfuel : 2 * (compactItems items).length ≤ fuel) (read : List Draft) (rest : List Char) :
    moreItems fuel read (compactItems items ++ rest)
      = (.list (read.reverse ++ draftItems items) none, some rest) := by
  induction items generalizing fuel read with
  | nil =>
    rw [compactItems, List.length_singleton] at hfuel
    obtain ⟨fuel, rfl⟩ := Nat.exists_eq_succ_of_ne_zero (n := fuel) (by omega)
    simp [compactItems, moreItems, skipSpaces_cons, draftItems, isSpace]
  | cons item items ih =>
    rw [List.forall_mem_cons] at hlegible hreads
    rw [compactItems, List.length_append, List.length_cons] at hfuel
    obtain ⟨fuel, rfl⟩ := Nat.exists_eq_succ_of_ne_zero (n := fuel) (by omega)
    obtain ⟨c, cs, hcons, hspace, hend⟩ := exists_compact_eq_cons hlegible.1
    have hvalue :=
      hreads.1 fuel (compactItems items ++ rest) (by omega) (detached_compactItems items rest)
    have hmore := ih hlegible.2 hreads.2 fuel (by omega) (item.draft :: read)
    have hcomma : isSpace ',' = false := by decide
    rw [hcons, List.cons_append] at hvalue
    simp only [compactItems, hcons, List.cons_append, List.append_assoc]
    rw [moreItems, skipSpaces_cons hcomma]
    simp only [skipSpaces_cons hspace, if_neg hend, hvalue, hmore]
    simp [draftItems]

/-- Reading goes on behind a member of an object. -/
theorem member_compact {value : Json} (hreads : Reads value) (fuel : Nat)
    (hfuel : 2 * value.compact.length ≤ fuel) (read : List (Except Fault String × Draft))
    (key : String) {rest : List Char} (hrest : Detached rest) :
    member (fuel + 1) read (key.toList.flatMap escape ++ '"' :: ':' :: (value.compact ++ rest))
      = moreMembers fuel ((.ok key, value.draft) :: read) rest := by
  have hcolon : isSpace ':' = false := by decide
  rw [member, text_quoted]
  simp only [skipSpaces_cons hcolon, hreads fuel rest hfuel hrest]
  rfl

/-- Reading goes from one member to the next. -/
theorem moreMembers_compact {members : List (String × Json)}
    (hreads : ∀ member ∈ members, Reads member.2) (fuel : Nat)
    (hfuel : 2 * (compactMembers members).length ≤ fuel) (read : List (Except Fault String × Draft))
    (rest : List Char) :
    moreMembers fuel read (compactMembers members ++ rest)
      = (.object (read.reverse ++ draftMembers members) none, some rest) := by
  induction members generalizing fuel read with
  | nil =>
    rw [compactMembers, List.length_singleton] at hfuel
    obtain ⟨fuel, rfl⟩ := Nat.exists_eq_succ_of_ne_zero (n := fuel) (by omega)
    simp [compactMembers, moreMembers, skipSpaces_cons, draftMembers, isSpace]
  | cons entry members ih =>
    obtain ⟨key, value⟩ := entry
    obtain ⟨hvalue, hvalues⟩ := List.forall_mem_cons.mp hreads
    simp only [compactMembers, quote, List.length_append, List.length_cons,
      List.length_nil] at hfuel hvalue
    obtain ⟨fuel, rfl⟩ : ∃ less, fuel = less + 2 := ⟨fuel - 2, by omega⟩
    have hmember :=
      member_compact hvalue fuel (by omega) read key (detached_compactMembers members rest)
    have hmore := ih hvalues fuel (by omega) ((.ok key, value.draft) :: read)
    have hcomma : isSpace ',' = false := by decide
    have hquote : isSpace '"' = false := by decide
    simp only [compactMembers, quote, List.cons_append, List.append_assoc, List.nil_append]
    rw [moreMembers, skipSpaces_cons hcomma]
    simp only [skipSpaces_cons hquote, Char.reduceEq, ↓reduceIte, hmember, hmore]
    simp [draftMembers]

theorem reads_number {j : Json} (hj : j.IsLegible)
    (hnumber : (∃ n, j = .int n) ∨ ∃ x, j = .real x) : Reads j := by
  intro fuel rest hfuel hrest
  obtain ⟨w, hw, htext, hvalue⟩ := exists_number hj hnumber
  obtain ⟨c, cs, hcons, -⟩ := Spelling.start_text hw
  rw [htext, hcons, List.length_cons] at hfuel
  obtain ⟨fuel, rfl⟩ := Nat.exists_eq_succ_of_ne_zero (n := fuel) (by omega)
  rw [htext, Spelling.value_text hw hrest, hvalue]

theorem reads_list {items : List Json} (hlegible : ∀ item ∈ items, item.IsLegible)
    (hreads : ∀ item ∈ items, Reads item) : Reads (.list items) := by
  intro fuel rest hfuel hrest
  have hopen : isSpace '[' = false := by decide
  cases items with
  | nil =>
    simp only [compact, List.length_cons, List.length_nil] at hfuel
    obtain ⟨fuel, rfl⟩ : ∃ less, fuel = less + 2 := ⟨fuel - 2, by omega⟩
    simp [compact, value, firstItem, skipSpaces_cons, isSpace, draft, draftItems]
  | cons item items =>
    rw [List.forall_mem_cons] at hlegible hreads
    rw [compact, List.length_append, List.length_cons] at hfuel
    obtain ⟨fuel, rfl⟩ : ∃ less, fuel = less + 2 := ⟨fuel - 2, by omega⟩
    obtain ⟨c, cs, hcons, hspace, hend⟩ := exists_compact_eq_cons hlegible.1
    have hvalue :=
      hreads.1 fuel (compactItems items ++ rest) (by omega) (detached_compactItems items rest)
    have hmore := moreItems_compact hlegible.2 hreads.2 fuel (by omega) [item.draft] rest
    rw [hcons, List.cons_append] at hvalue
    simp only [compact, hcons, List.cons_append, List.append_assoc]
    rw [value, skipSpaces_cons hopen]
    simp only [Char.reduceEq, ↓reduceIte]
    rw [firstItem, skipSpaces_cons hspace]
    simp only [if_neg hend, hvalue, hmore]
    simp [draft, draftItems]

theorem reads_object {members : List (String × Json)}
    (hreads : ∀ member ∈ members, Reads member.2) : Reads (.object members) := by
  intro fuel rest hfuel hrest
  have hopen : isSpace '\x7b' = false := by decide
  have hquote : isSpace '"' = false := by decide
  cases members with
  | nil =>
    simp only [compact, List.length_cons, List.length_nil] at hfuel
    obtain ⟨fuel, rfl⟩ : ∃ less, fuel = less + 2 := ⟨fuel - 2, by omega⟩
    simp [compact, value, firstMember, skipSpaces_cons, isSpace, draft, draftMembers]
  | cons entry members =>
    obtain ⟨key, value⟩ := entry
    obtain ⟨hvalue, hvalues⟩ := List.forall_mem_cons.mp hreads
    simp only [compact, quote, List.length_append, List.length_cons,
      List.length_nil] at hfuel hvalue
    obtain ⟨fuel, rfl⟩ : ∃ less, fuel = less + 3 := ⟨fuel - 3, by omega⟩
    have hmember :=
      member_compact hvalue fuel (by omega) [] key (detached_compactMembers members rest)
    have hmore := moreMembers_compact hvalues fuel (by omega) [(.ok key, value.draft)] rest
    simp only [compact, quote, List.cons_append, List.append_assoc, List.nil_append]
    rw [Reader.value, skipSpaces_cons hopen]
    simp only [Char.reduceEq, ↓reduceIte]
    rw [firstMember, skipSpaces_cons hquote]
    simp only [Char.reduceEq, ↓reduceIte, hmember, hmore]
    simp [draft, draftMembers]

/-- **A compact text is read as the draft of its value**, whatever follows that is no part of a
number. -/
theorem value_compact (j : Json) (hj : ∀ part ∈ j.parts, part.IsLegible) : Reads j := by
  induction j using Json.induction with
  | null =>
    intro fuel rest hfuel _
    obtain ⟨fuel, rfl⟩ := Nat.exists_eq_succ_of_ne_zero (n := fuel)
      (by simp [compact] at hfuel; omega)
    simp [compact, value, skipSpaces_cons, isSpace, word, draft]
  | bool b =>
    intro fuel rest hfuel _
    cases b with
    | true =>
      obtain ⟨fuel, rfl⟩ := Nat.exists_eq_succ_of_ne_zero (n := fuel)
        (by simp [compact, boolean] at hfuel; omega)
      simp [compact, boolean, value, skipSpaces_cons, isSpace, word, draft]
    | false =>
      obtain ⟨fuel, rfl⟩ := Nat.exists_eq_succ_of_ne_zero (n := fuel)
        (by simp [compact, boolean] at hfuel; omega)
      simp [compact, boolean, value, skipSpaces_cons, isSpace, word, draft]
  | int n => exact reads_number (of_forall_parts hj) (.inl ⟨n, rfl⟩)
  | real x => exact reads_number (of_forall_parts hj) (.inr ⟨x, rfl⟩)
  | text s =>
    intro fuel rest hfuel _
    obtain ⟨fuel, rfl⟩ := Nat.exists_eq_succ_of_ne_zero (n := fuel)
      (by simp [compact, quote] at hfuel; omega)
    simp [compact, quote, value, skipSpaces_cons, isSpace, text_quoted, draft]
  | list items ih =>
    rw [forall_parts_list] at hj
    exact reads_list (fun item hitem => of_forall_parts (hj.2 item hitem))
      fun item hitem => ih item hitem (hj.2 item hitem)
  | object members ih =>
    rw [forall_parts_object] at hj
    exact reads_object fun member hmember => ih member hmember (hj.2 member hmember)

end Reader

/-- **A whole text is read as the draft of its value.** -/
theorem Source.read_write {j : Json} (hj : ∀ part ∈ j.parts, part.IsLegible) :
    Source.read j.write = ⟨j.draft, false⟩ := by
  have hvalue := Reader.value_compact j hj (4 * j.compact.length + 4) [] (by omega) .nil
  rw [List.append_nil] at hvalue
  simp only [Source.read, Json.write, String.toList_ofList, hvalue]
  rfl

/-! ## Decoding -/

theorem Json.draftItems_eq_map (items : List Json) : draftItems items = items.map draft := by
  induction items with
  | nil => rfl
  | cons item items ih => rw [draftItems, ih, List.map_cons]

theorem Json.draftMembers_eq_map (members : List (String × Json)) :
    draftMembers members = members.map fun member => (.ok member.1, member.2.draft) := by
  induction members with
  | nil => rfl
  | cons member members ih => rw [draftMembers, ih, List.map_cons]

namespace Decode

open Json

/-- One level deeper. -/
def Place.inner (p : Place) : Place := { p with depth := p.depth + 1 }

/-- The value is not too deep for a text in which it stands at the place. -/
def Place.Admits (p : Place) (j : Json) : Prop := p.depth + j.depth ≤ depthLimit

theorem Place.enter_eq {p : Place} (h : p.depth < depthLimit) : p.enter = .ok p.inner := by
  rw [enter, if_neg fun h' => Nat.not_le.mpr h h'.2]
  rfl

/-- One can step into a list that is not too deep, and its items are not. -/
theorem Place.Admits.list {p : Place} {items : List Json} (h : p.Admits (.list items)) :
    p.enter = .ok p.inner ∧ ∀ item ∈ items, p.inner.Admits item := by
  rw [Admits, Json.depth] at h
  refine ⟨enter_eq (by omega), fun item hitem => ?_⟩
  have := depth_le_depthOfItems hitem
  show p.depth + 1 + item.depth ≤ depthLimit
  omega

theorem Place.Admits.object {p : Place} {members : List (String × Json)}
    (h : p.Admits (.object members)) :
    p.enter = .ok p.inner ∧ ∀ member ∈ members, p.inner.Admits member.2 := by
  rw [Admits, Json.depth] at h
  refine ⟨enter_eq (by omega), fun member hmember => ?_⟩
  have := depth_le_depthOfMembers hmember
  show p.depth + 1 + member.2.depth ≤ depthLimit
  omega

theorem anyItems_draft {items : List Json} {p : Place}
    (h : ∀ item ∈ items, any p item.draft = .ok item) :
    anyItems p (draftItems items) = .ok items := by
  induction items with
  | nil => rfl
  | cons item items ih =>
    obtain ⟨hitem, hitems⟩ := List.forall_mem_cons.mp h
    rw [draftItems, anyItems, hitem, ih hitems]
    rfl

/-- Members with new keys follow those that are there. -/
theorem anyMembers_draft {members : List (String × Json)} {p : Place}
    (h : ∀ member ∈ members, any p member.2.draft = .ok member.2) (read : List (String × Json))
    (hkeys : ((read ++ members).map Prod.fst).Nodup) :
    anyMembers p read (draftMembers members) = .ok (read ++ members) := by
  induction members generalizing read with
  | nil => rw [draftMembers, anyMembers, List.append_nil]
  | cons member members ih =>
    obtain ⟨hmember, hmembers⟩ := List.forall_mem_cons.mp h
    have hnew : member.1 ∉ read.map Prod.fst := by
      rw [List.map_append, List.nodup_append] at hkeys
      exact fun hmem => hkeys.2.2 _ hmem member.1 (by simp) rfl
    have hassoc : read ++ [member] ++ members = read ++ member :: members := by simp
    rw [draftMembers, anyMembers, hmember]
    show anyMembers p (insertEntry read member.1 member.2) (draftMembers members) = _
    rw [insertEntry_of_not_mem hnew, ih hmembers _ (by rw [hassoc]; exact hkeys), hassoc]

/-- **A draft without flaws is decoded to its value**, if its keys are distinct and it is not too
deep. -/
theorem any_draft (j : Json) (hkeyed : ∀ part ∈ j.parts, part.IsKeyed) (p : Place)
    (hdepth : p.Admits j) : any p j.draft = .ok j := by
  induction j using Json.induction generalizing p with
  | null | bool | int | real | text => rfl
  | list items ih =>
    rw [forall_parts_list] at hkeyed
    obtain ⟨henter, hadmits⟩ := hdepth.list
    have hitems : anyItems p.inner (draftItems items) = .ok items :=
      anyItems_draft fun item hitem =>
        ih item hitem (hkeyed.2 item hitem) p.inner (hadmits item hitem)
    rw [draft, any, henter]
    show (anyItems p.inner (draftItems items) >>= fun values => _) = _
    rw [hitems]
    rfl
  | object members ih =>
    rw [forall_parts_object] at hkeyed
    obtain ⟨henter, hadmits⟩ := hdepth.object
    have hmembers : anyMembers p.inner [] (draftMembers members) = .ok members :=
      anyMembers_draft
        (fun member hmember =>
          ih member hmember (hkeyed.2 member hmember) p.inner (hadmits member hmember))
        [] hkeyed.1
    rw [draft, any, henter]
    show (anyMembers p.inner [] (draftMembers members) >>= fun entries => _) = _
    rw [hmembers]
    rfl

end Decode

end Sequencer
