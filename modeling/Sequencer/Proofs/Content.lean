import Mathlib.Data.List.Nodup
import Mathlib.Data.List.Perm.Basic
import Sequencer.ContentKey
import Sequencer.OrderedMap
import Sequencer.Proofs.JsonText

/-!
# The content of a pulse and its text

Two pulses share a waveform if they have the same content: channel, duration, waveform function and
numeric parameters, however they are written and whenever they start. The compiler never compares
contents. It writes each as a text and compares digests of the texts, so it is right exactly if a
text tells all of its content and nothing else.

Neither half is obvious. Names and channels are arbitrary, and one that contains quotes, colons and
braces could imitate what stands around it. And the order in which parameters were given, or the
sign of a zero, must leave no trace.

Two things are beyond this library and are hypotheses where they are needed: that the texts of
different doubles differ, and that an extra parameter does not take the name of a field.

## Main definitions

* `Number.Same` — the same number, the two zeros being one
* `Pulse.SameContent` — the same content
* `Pulse.NamesApart`, `Pulse.PrintApart` — the hypotheses

## Main results

* `Pulse.get?_parameters` — the parameter of a name
* `Pulse.parts_of_contentText` — a text tells the parts of its content
* `Pulse.contentText_eq_iff` — texts are equal exactly if contents are
* `Pulse.contentText_canonical` — the same, field by field and for the doubles that occur in the two
  pulses
-/

namespace Sequencer

/-! ## Parameters by name

Parameters are kept as a sorted list. What is found under a name does not depend on the order in
which names were inserted, and it determines the list. -/

theorem lookup_cons_eq_ite {α : Type} (name key : String) (value : α) (rest : List (String × α)) :
    ((key, value) :: rest).lookup name = if name = key then some value else rest.lookup name := by
  by_cases h : name = key
  · simp [h]
  · simp [List.lookup_cons, h, beq_false_of_ne h]

theorem lookup_eq_none {α : Type} {name : String} {entries : List (String × α)}
    (h : name ∉ entries.map Prod.fst) : entries.lookup name = none := by
  rw [List.lookup_eq_none_iff]
  rintro ⟨other, value⟩ hmem
  exact bne_iff_ne.mpr fun he => h (List.mem_map.mpr ⟨_, hmem, he.symm⟩)

theorem lookup_insertSorted {α : Type} (name other : String) (value : α)
    (entries : List (String × α)) :
    (insertSorted name value entries).lookup other
      = if other = name then some value else entries.lookup other := by
  induction entries with
  | nil => rw [insertSorted, lookup_cons_eq_ite]
  | cons entry rest ih =>
    obtain ⟨key, old⟩ := entry
    rw [insertSorted, lookup_cons_eq_ite]
    split
    · rw [lookup_cons_eq_ite, lookup_cons_eq_ite]
    · split
      · next h =>
        obtain rfl : name = key := h
        rw [lookup_cons_eq_ite]
        split <;> rfl
      · next h =>
        rw [lookup_cons_eq_ite, ih]
        by_cases hkey : other = key
        · rw [if_pos hkey, if_pos hkey,
            if_neg fun hname : other = name => h (hname.symm.trans hkey)]
        · rw [if_neg hkey, if_neg hkey]

namespace Parameters

variable {α β : Type} {p q : Parameters α}

@[simp] theorem get?_empty (name : String) : (empty : Parameters α).get? name = none := rfl

theorem get?_insert (p : Parameters α) (name other : String) (value : α) :
    (p.insert name value).get? other = if other = name then some value else p.get? other :=
  lookup_insertSorted name other value p.entries

theorem get?_insert? (p : Parameters α) (name other : String) (value : Option α) :
    (p.insert? name value).get? other = if other = name then value.or (p.get? other)
      else p.get? other := by
  cases value with
  | none => simp [insert?]
  | some value => simp [insert?, get?_insert]

theorem nodup_names (p : Parameters α) : (p.entries.map Prod.fst).Nodup :=
  List.pairwise_map.mpr (p.sorted.imp fun h => String.ne_of_lt h)

theorem mem_entries_iff (p : Parameters α) (name : String) (value : α) :
    (name, value) ∈ p.entries ↔ p.get? name = some value :=
  OrderedMap.mem_entries_iff ⟨p.entries, p.nodup_names⟩ name value

theorem get?_map (f : α → β) (p : Parameters α) (name : String) :
    (p.map f).get? name = (p.get? name).map f :=
  lookup_map f name p.entries

/-- Entries with distinct names win over what was there; an absent value leaves it as it is. -/
theorem get?_foldl_insert? (p : Parameters α) {entries : List (String × Option α)}
    (h : (entries.map Prod.fst).Nodup) (name : String) :
    (entries.foldl (fun all entry => all.insert? entry.1 entry.2) p).get? name
      = (entries.lookup name).join.or (p.get? name) := by
  induction entries generalizing p with
  | nil => rfl
  | cons entry rest ih =>
    obtain ⟨key, value⟩ := entry
    rw [List.map_cons, List.nodup_cons] at h
    rw [List.foldl_cons, ih _ h.2, get?_insert?, lookup_cons_eq_ite]
    by_cases hname : name = key
    · subst hname
      simp [lookup_eq_none h.1]
    · simp [hname]

theorem get?_insertAll (p : Parameters α) {entries : List (String × α)}
    (h : (entries.map Prod.fst).Nodup) (name : String) :
    (p.insertAll entries).get? name = (entries.lookup name).or (p.get? name) := by
  have hpresent : p.insertAll entries
      = (entries.map fun entry => (entry.1, some entry.2)).foldl
          (fun all entry => all.insert? entry.1 entry.2) p := by
    rw [List.foldl_map]
    rfl
  rw [hpresent, get?_foldl_insert? _ (by rwa [List.map_map]), lookup_map]
  cases entries.lookup name <;> rfl

/-- Parameters are determined by what is found under each name. -/
theorem ext_get? (h : ∀ name, p.get? name = q.get? name) : p = q := by
  have hperm : p.entries.Perm q.entries := by
    refine (List.perm_ext_iff_of_nodup p.nodup_names.of_map q.nodup_names.of_map).mpr ?_
    rintro ⟨name, value⟩
    rw [mem_entries_iff, mem_entries_iff, h]
  refine ext_entries (hperm.eq_of_pairwise ?_ p.sorted q.sorted)
  intro a b _ _ hab hba
  exact absurd hba (String.lt_asymm hab)

/-- The order in which entries with distinct names are given does not matter. -/
theorem ofList_eq_of_perm {a b : List (String × α)} (h : a.Perm b)
    (hnodup : (a.map Prod.fst).Nodup) : ofList a = ofList b := by
  have hnodup' : (b.map Prod.fst).Nodup := (h.map Prod.fst).nodup_iff.mp hnodup
  refine ext_get? fun name => Option.ext fun value => ?_
  rw [ofList, ofList, get?_insertAll _ hnodup, get?_insertAll _ hnodup', get?_empty, Option.or_none,
    Option.or_none]
  calc a.lookup name = some value ↔ (name, value) ∈ a :=
        (OrderedMap.mem_entries_iff ⟨a, hnodup⟩ name value).symm
    _ ↔ (name, value) ∈ b := h.mem_iff
    _ ↔ b.lookup name = some value := OrderedMap.mem_entries_iff ⟨b, hnodup'⟩ name value

end Parameters

/-! ## Contents -/

namespace Number

/-- Doubles that are the same number. The two zeros are. -/
def Same (x y : Float) : Prop := x = y ∨ (x == 0.0) = true ∧ (y == 0.0) = true

/-- Identifying the two zeros changes nothing else. -/
theorem unsignedZero_eq_iff (x y : Float) : unsignedZero x = unsignedZero y ↔ Same x y := by
  have hzero : ((0.0 : Float) == 0.0) = true := by decide
  rw [unsignedZero, unsignedZero, Same]
  by_cases hx : (x == 0.0) = true
  · by_cases hy : (y == 0.0) = true
    · simp [hx, hy]
    · have hne : (0.0 : Float) ≠ y := by
        rintro rfl
        exact hy hzero
      have hne' : x ≠ y := by
        rintro rfl
        exact hy hx
      simp [hx, hy, hne, hne']
  · by_cases hy : (y == 0.0) = true
    · have hne : x ≠ (0.0 : Float) := by
        rintro rfl
        exact hx hzero
      have hne' : x ≠ y := by
        rintro rfl
        exact hx hy
      simp [hx, hy, hne, hne']
    · simp [hx, hy]

theorem rel_same_iff (x y : Option Float) :
    Option.Rel Same x y ↔ x.map unsignedZero = y.map unsignedZero := by
  cases x with
  | none => cases y <;> simp
  | some x => cases y <;> simp [unsignedZero_eq_iff]

end Number

namespace Pulse

/-- The field of the parameter `name`, if it has one of its own. -/
def field? (p : Pulse Float) (name : String) : Option Float := (p.named.lookup name).join

/-- Pulses with the same content. When they start does not matter. -/
structure SameContent (p q : Pulse Float) : Prop where
  channel : p.channel = q.channel
  duration : Number.Same p.duration q.duration
  function : p.function = q.function
  /-- The parameters with a field of their own are present in both or in neither, and the same. -/
  fields : ∀ name, Option.Rel Number.Same (p.field? name) (q.field? name)
  /-- So are the extra parameters. -/
  extra : ∀ name, Option.Rel Number.Same (p.extra.get? name) (q.extra.get? name)

/-- An extra parameter wins over a field. -/
theorem get?_parameters (p : Pulse Float) (name : String) :
    p.parameters.get? name = (p.extra.get? name).or (p.field? name) := by
  have hnamed : (p.named.map Prod.fst).Nodup := by simp [named]
  rw [parameters, Parameters.get?_insertAll _ p.extra.nodup_names,
    Parameters.get?_foldl_insert? _ hnamed, Parameters.get?_empty, Option.or_none]
  rfl

/-! ## Texts -/

/-- The parameters as they are written, without negative zeros. -/
def written (p : Pulse Float) : Parameters Float := p.parameters.map Number.unsignedZero

/-- The doubles that are written in the text of a content. -/
def numbers (p : Pulse Float) : List Float :=
  Number.unsignedZero p.duration :: p.written.entries.map Prod.snd

theorem content_eq (p : Pulse Float) :
    p.content = .object
      [("channel", Json.ofOption .text p.channel),
        ("duration", .real (Number.unsignedZero p.duration)),
       ("wf_func", Json.ofOption .text p.function),
         ("params", .object (Json.reals p.written.entries))] := by
  simp [content, Json.reals, written, Parameters.map, Function.comp_def]

/-- The text of a content tells its parts, numbers being known by their texts. -/
theorem parts_of_contentText {p q : Pulse Float} (h : p.contentText = q.contentText) :
    p.channel = q.channel ∧
      Json.numeral (Number.unsignedZero p.duration) = Json.numeral
        (Number.unsignedZero q.duration) ∧
      p.function = q.function ∧
        Json.numerals p.written.entries = Json.numerals q.written.entries := by
  rw [contentText, contentText, Json.write, Json.write, String.ofList_inj, content_eq,
    content_eq] at h
  simp only [Json.compact, Json.compactMembers, List.append_assoc, List.cons_append] at h
  -- each step drops the name of a member and its colon, and then takes the value of the member off
  have h := List.append_cancel_left (List.cons.inj h).2
  obtain ⟨hchannel, h⟩ := Json.compact_text_inj (List.cons.inj h).2
  have h := List.append_cancel_left (List.cons.inj h).2
  obtain ⟨hduration, h⟩ := (Undelimited.numeral _).append_cons_inj (.numeral _) (by decide)
    (by decide) (List.cons.inj h).2
  have h := List.append_cancel_left (List.cons.inj h).2
  obtain ⟨hfunction, h⟩ := Json.compact_text_inj (List.cons.inj h).2
  have h := List.append_cancel_left (List.cons.inj h).2
  obtain ⟨hparameters, -⟩ := Json.compact_object_reals_inj (List.cons.inj h).2
  exact ⟨hchannel, hduration, hfunction, hparameters⟩

/-- The names of extra parameters differ from those of the fields. -/
def NamesApart (p : Pulse Float) : Prop := ∀ name ∈ p.named.map Prod.fst, p.extra.get? name = none

instance decidableNamesApart (p : Pulse Float) : Decidable p.NamesApart :=
  inferInstanceAs (Decidable (∀ name ∈ p.named.map Prod.fst, p.extra.get? name = none))

theorem field?_eq_none {p : Pulse Float} {name : String} (h : name ∉ p.named.map Prod.fst) :
    p.field? name = none := by
  rw [field?, lookup_eq_none h]
  rfl

/-- If names are apart, a written parameter is known to be a field or an extra one. -/
theorem written_eq_iff {p q : Pulse Float} (hp : p.NamesApart) (hq : q.NamesApart) :
    p.written = q.written ↔
      (∀ name, Option.Rel Number.Same (p.field? name) (q.field? name)) ∧
        ∀ name, Option.Rel Number.Same (p.extra.get? name) (q.extra.get? name) := by
  have hget : ∀ p : Pulse Float, ∀ name,
      p.written.get? name = ((p.extra.get? name).or (p.field? name)).map Number.unsignedZero := by
    intro p name
    rw [written, Parameters.get?_map, get?_parameters]
  simp only [Number.rel_same_iff]
  constructor
  · intro h
    have hname : ∀ name, ((p.extra.get? name).or (p.field? name)).map Number.unsignedZero
        = ((q.extra.get? name).or (q.field? name)).map Number.unsignedZero := by
      intro name
      rw [← hget, ← hget, h]
    rw [← forall_and]
    intro name
    by_cases hfield : name ∈ p.named.map Prod.fst
    · have h := hname name
      rw [hp name hfield, hq name hfield, Option.none_or, Option.none_or] at h
      exact ⟨h, by rw [hp name hfield, hq name hfield]⟩
    · have h := hname name
      rw [field?_eq_none hfield, field?_eq_none (p := q) hfield, Option.or_none,
        Option.or_none] at h
      exact ⟨by rw [field?_eq_none hfield, field?_eq_none (p := q) hfield], h⟩
  · rintro ⟨hfields, hextra⟩
    refine Parameters.ext_get? fun name => ?_
    rw [hget, hget]
    simp only [Option.map_or, hfields, hextra]

/-- The texts of the doubles of two contents tell them apart. -/
def PrintApart (p q : Pulse Float) : Prop :=
  ∀ x ∈ p.numbers, ∀ y ∈ q.numbers, Json.number.write x = Json.number.write y → x = y

instance decidablePrintApart (p q : Pulse Float) : Decidable (p.PrintApart q) :=
  inferInstanceAs
    (Decidable (∀ x ∈ p.numbers, ∀ y ∈ q.numbers,
      Json.number.write x = Json.number.write y → x = y))

end Pulse

/-- A finite double is written as a number, and not as `null`. -/
theorem Json.numeral_of_isFinite {x : Float} (h : x.isFinite = true) :
    numeral x = (number.write x).toList := by
  rw [numeral, if_pos h]

/-- Numbers by name are determined by how they are written, if their texts tell them apart. -/
theorem Json.eq_of_numerals {a b : List (String × Float)}
    (hinj : ∀ x ∈ a.map Prod.snd, ∀ y ∈ b.map Prod.snd, numeral x = numeral y → x = y)
    (h : numerals a = numerals b) : a = b := by
  induction a generalizing b with
  | nil =>
    cases b with
    | nil => rfl
    | cons y b => cases h
  | cons x a ih =>
    cases b with
    | nil => cases h
    | cons y b =>
      obtain ⟨hfirst, hrest⟩ := List.cons.inj h
      obtain ⟨hname, htext⟩ := Prod.mk.inj hfirst
      have hvalue : x.2 = y.2 := hinj _ List.mem_cons_self _ List.mem_cons_self htext
      rw [ih (fun u hu v hv => hinj u (List.mem_cons_of_mem _ hu) v (List.mem_cons_of_mem _ hv))
        hrest, Prod.ext hname hvalue]

namespace Pulse

/-- **Texts are equal exactly if contents are.** -/
theorem contentText_eq_iff {p q : Pulse Float} (hp : p.NamesApart) (hq : q.NamesApart)
    (hpfin : ∀ x ∈ p.numbers, x.isFinite = true) (hqfin : ∀ x ∈ q.numbers, x.isFinite = true)
    (hprint : p.PrintApart q) : p.contentText = q.contentText ↔ p.SameContent q := by
  have hnumeral : ∀ x ∈ p.numbers, ∀ y ∈ q.numbers, Json.numeral x = Json.numeral y → x = y := by
    intro x hx y hy h
    rw [Json.numeral_of_isFinite (hpfin x hx), Json.numeral_of_isFinite (hqfin y hy),
      String.toList_inj] at h
    exact hprint x hx y hy h
  constructor
  · intro h
    obtain ⟨hchannel, hduration, hfunction, hparameters⟩ := parts_of_contentText h
    have hsame := hnumeral _ List.mem_cons_self _ List.mem_cons_self hduration
    have hwritten : p.written = q.written := by
      refine Parameters.ext_entries (Json.eq_of_numerals (fun x hx y hy => ?_) hparameters)
      exact hnumeral x (List.mem_cons_of_mem _ hx) y (List.mem_cons_of_mem _ hy)
    obtain ⟨hfields, hextra⟩ := (written_eq_iff hp hq).mp hwritten
    exact ⟨hchannel, (Number.unsignedZero_eq_iff _ _).mp hsame, hfunction, hfields, hextra⟩
  · intro h
    have hwritten : p.written = q.written := (written_eq_iff hp hq).mpr ⟨h.fields, h.extra⟩
    rw [contentText, contentText, content_eq, content_eq, h.channel, h.function, hwritten,
      (Number.unsignedZero_eq_iff _ _).mpr h.duration]

/-! ## Canonical texts -/

/-- The numbers of a pulse are finite. Nothing is said about when it starts. -/
structure IsFinite (p : Pulse Float) : Prop where
  duration : p.duration.isFinite = true
  parameters : ∀ entry ∈ p.parameters.entries, entry.2.isFinite = true

theorem IsFinite.numbers {p : Pulse Float} (h : p.IsFinite) :
    ∀ x ∈ p.numbers, x.isFinite = true := by
  have hunsigned : ∀ x : Float, x.isFinite = true → (Number.unsignedZero x).isFinite = true := by
    intro x hx
    rw [Number.unsignedZero]
    split
    · decide
    · exact hx
  rw [Pulse.numbers, List.forall_mem_cons]
  refine ⟨hunsigned _ h.duration, fun x hx => ?_⟩
  obtain ⟨entry, hentry, rfl⟩ := List.mem_map.mp hx
  obtain ⟨parameter, hparameter, rfl⟩ := List.mem_map.mp hentry
  exact hunsigned _ (h.parameters parameter hparameter)

/-- The parameters with a field of their own, one by one. -/
theorem fields_iff (p q : Pulse Float) :
    (∀ name, Option.Rel Number.Same (p.field? name) (q.field? name)) ↔
      Option.Rel Number.Same p.amplitude q.amplitude ∧
        Option.Rel Number.Same p.gaussAmplitude q.gaussAmplitude ∧
      Option.Rel Number.Same p.derivativeAmplitude q.derivativeAmplitude ∧
        Option.Rel Number.Same p.phase q.phase ∧
      Option.Rel Number.Same p.modulation q.modulation ∧
        Option.Rel Number.Same p.sigmas q.sigmas := by
  constructor
  · intro h
    exact ⟨h "amp", h "G_amp", h "D_amp", h "phase", h "freq_mod", h "nr_sigma"⟩
  · rintro ⟨hamplitude, hgauss, hderivative, hphase, hmodulation, hsigmas⟩ name
    simp only [field?, named, lookup_cons_eq_ite, List.lookup_nil]
    split_ifs
    · exact hamplitude
    · exact hgauss
    · exact hderivative
    · exact hphase
    · exact hmodulation
    · exact hsigmas
    · exact .none

/-- **The text of a content is canonical.** Two pulses have the same text exactly if they have the
same channel, the same waveform function, the same duration and the same parameters, whatever
characters their names are made of. A missing channel is told from every text, also from `null`. The
two zeros are the same number, and neither the start of a pulse nor the order in which its
parameters were given matters. -/
theorem contentText_canonical {p q : Pulse Float} (hp : p.NamesApart) (hq : q.NamesApart)
    (hpfinite : p.IsFinite) (hqfinite : q.IsFinite) (hprint : p.PrintApart q) :
    (p.contentText = q.contentText ↔
      p.channel = q.channel ∧ p.function = q.function ∧ Number.Same p.duration q.duration ∧
      Option.Rel Number.Same p.amplitude q.amplitude ∧
        Option.Rel Number.Same p.gaussAmplitude q.gaussAmplitude ∧
      Option.Rel Number.Same p.derivativeAmplitude q.derivativeAmplitude ∧
        Option.Rel Number.Same p.phase q.phase ∧
      Option.Rel Number.Same p.modulation q.modulation ∧ Option.Rel Number.Same p.sigmas q.sigmas ∧
      ∀ name, Option.Rel Number.Same (p.extra.get? name) (q.extra.get? name)) ∧
    ∀ a b : List (String × Float), a.Perm b → (a.map Prod.fst).Nodup →
      { p with extra := .ofList a }.contentText = { p with extra := .ofList b }.contentText := by
  constructor
  · rw [contentText_eq_iff hp hq hpfinite.numbers hqfinite.numbers hprint]
    constructor
    · intro h
      obtain ⟨hamplitude, hgauss, hderivative, hphase, hmodulation, hsigmas⟩ :=
        (fields_iff p q).mp h.fields
      exact ⟨h.channel, h.function, h.duration, hamplitude, hgauss, hderivative, hphase,
        hmodulation, hsigmas, h.extra⟩
    · rintro ⟨hchannel, hfunction, hduration, hamplitude, hgauss, hderivative, hphase, hmodulation,
        hsigmas, hextra⟩
      exact ⟨hchannel, hduration, hfunction,
        (fields_iff p q).mpr ⟨hamplitude, hgauss, hderivative, hphase, hmodulation, hsigmas⟩,
          hextra⟩
  · intro a b hperm hnodup
    rw [Parameters.ofList_eq_of_perm hperm hnodup]

/-- A channel, a function and parameters whose names look like what stands around them in a text. -/
def imitating : Pulse Float :=
  { silent (some "null") 0 1e-8 with
    function := some "\"\\,\x7b\n"
    amplitude := some 0.0
    extra := .ofList [("x\":1.0,\"y", 2.5), ("\u2028", 1e300)] }

theorem contentText_canonical_imitating :
    let later : Pulse Float := { imitating with start := 5, amplitude := some (-0.0) }
    let unnamed : Pulse Float := { imitating with channel := none }
    let apart : Pulse Float :=
      { imitating with extra := .ofList [("x", 1.0), ("y", 2.5), ("\u2028", 1e300)] }
    (imitating.NamesApart ∧ imitating.IsFinite ∧ imitating.PrintApart later) ∧
      imitating.contentText = later.contentText ∧ imitating.contentText ≠ unnamed.contentText ∧
      imitating.contentText ≠ apart.contentText := by
  intro later unnamed apart
  have hfinite : ∀ p ∈ [imitating, later, unnamed, apart], p.IsFinite := by
    simp only [List.forall_mem_cons]
    exact ⟨⟨by decide, by decide +kernel⟩, ⟨by decide, by decide +kernel⟩,
      ⟨by decide, by decide +kernel⟩, ⟨by decide, by decide +kernel⟩, by simp⟩
  have hnames : ∀ p ∈ [imitating, later, unnamed, apart], p.NamesApart := by decide +kernel
  have hprint : ∀ q ∈ [imitating, later, unnamed, apart], imitating.PrintApart q := by
    decide +kernel
  have htext : ∀ q ∈ [imitating, later, unnamed, apart], _ := fun q hq =>
    (contentText_canonical (hnames imitating (by simp)) (hnames q hq)
      (hfinite imitating (by simp)) (hfinite q hq) (hprint q hq)).1
  have hsame : ∀ x : Option Float, Option.Rel Number.Same x x :=
    fun x => (Number.rel_same_iff x x).mpr rfl
  refine ⟨⟨hnames _ (by simp), hfinite _ (by simp), hprint _ (by simp)⟩, ?_, fun h => ?_,
    fun h => ?_⟩
  · exact (htext later (by simp)).mpr ⟨rfl, rfl, Or.inl rfl, .some (Or.inr ⟨by decide, by decide⟩),
      hsame _, hsame _, hsame _, hsame _, hsame _, fun name => hsame _⟩
  · exact absurd ((htext unnamed (by simp)).mp h).1 (by decide)
  · obtain ⟨-, -, -, -, -, -, -, -, -, hextra⟩ := (htext apart (by simp)).mp h
    exact absurd ((Number.rel_same_iff _ _).mp (hextra "x")) (by decide +kernel)

end Pulse

end Sequencer
