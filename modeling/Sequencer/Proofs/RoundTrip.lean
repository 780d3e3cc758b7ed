import Sequencer.Files.Schedule
import Sequencer.Proofs.Content
import Sequencer.Proofs.JsonReading
import Sequencer.Proofs.Success
import Sequencer.Schedule.Encode

/-!
# Schedules that are written and read again

A schedule that is written as a text and read again is the same schedule. The two directions are not
mirror images. A record is written as an object with its fields in order; it is read field by field,
in any order, into a form with gaps. A pulse writes only the parameters it has, and puts its extra
parameters behind its fields without any mark; whatever is no field is read as an extra parameter.
So the fields that were left out come back as gaps of the form, and an extra parameter comes back as
one unless it has the name of a field.

## Main definitions

* `Pulse.fieldNames` — the names that extra parameters must not have
* `Schedule.Restorable` — what the text of a schedule has to satisfy in order to be read back

## Main results

* `Decode.members_optional`, `Pulse.Form.members_extra` — what is read of the members of a pulse
* `Pulse.decode_encode`, `Resource.decode_encode` — pulses and resources are decoded as they were
  encoded
* `Schedule.load_write` — a schedule is read as it was written
-/

namespace Sequencer

open Decode Json

/-! ## Lists, maps and records -/

namespace Decode

section Collections

variable {α : Type} {decode : Place → Draft → Except DecodeError α} {encode : α → Json} {p : Place}

theorem listOf_draft {xs : List α} (hadmits : p.Admits (.list (xs.map encode)))
    (h : ∀ x ∈ xs, p.inner.Admits (encode x) → decode p.inner (encode x).draft = .ok x) :
    listOf decode p (Json.list (xs.map encode)).draft = .ok xs := by
  obtain ⟨henter, hitems⟩ := hadmits.list
  have hvalues : ((xs.map encode).map draft).mapM (decode p.inner) = .ok xs := by
    rw [mapM_eq_ok, List.map_map, List.forall₂_map_left_iff, List.forall₂_same]
    exact fun x hx => h x hx (hitems _ (List.mem_map_of_mem hx))
  rw [draft, draftItems_eq_map, listOf]
  exact bind_eq_ok.mpr ⟨p.inner, henter, bind_eq_ok.mpr ⟨xs, hvalues, rfl⟩⟩

theorem mapOf_draft {m : OrderedMap String α} (hadmits : p.Admits (m.encode encode))
    (h : ∀ entry ∈ m.entries, p.inner.Admits (encode entry.2) →
      decode p.inner (encode entry.2).draft = .ok entry.2) :
    mapOf decode p (m.encode encode).draft = .ok m := by
  obtain ⟨henter, hmembers⟩ := hadmits.object
  have hentries : ((m.entries.map fun entry => (entry.1, encode entry.2)).map fun member =>
      ((.ok member.1, member.2.draft) : Except Fault String × Draft)).mapM (fun member => do
        let name ← key member.1
        let value ← decode p.inner member.2
        return (name, value)) = .ok m.entries := by
    rw [mapM_eq_ok, List.map_map, List.forall₂_map_left_iff, List.forall₂_same]
    intro entry hentry
    show (decode p.inner (encode entry.2).draft >>= fun value => _) = _
    rw [h entry hentry (hmembers _ (List.mem_map_of_mem hentry))]
    rfl
  rw [OrderedMap.encode, draft, draftMembers_eq_map, mapOf]
  refine bind_eq_ok.mpr ⟨p.inner, henter, bind_eq_ok.mpr ⟨m.entries, hentries, ?_⟩⟩
  exact congrArg Except.ok (OrderedMap.ext_entries (OrderedMap.entries_ofList m.distinct))

end Collections

theorem optional_text (p : Place) (x : Option String) :
    optional text p (ofOption .text x).draft = .ok x := by
  cases x <;> rfl

theorem optional_real (p : Place) (x : Option Float) :
    optional real p (ofOption .real x).draft = .ok x := by
  cases x <;> rfl

theorem word32_draft (p : Place) (n : UInt32) : word32 p (Json.int n.toNat).draft = .ok n := by
  have hrange : (0 : Int) ≤ n.toNat ∧ (n.toNat : Int) < 4294967296 := by
    have := n.toNat_lt
    omega
  rw [draft, word32, if_pos hrange, Int.toNat_natCast, UInt32.ofNat_toNat]

section Records

variable {F α : Type} {fields : List (RecordField F)}
  {other : Place → String → Draft → F → Except DecodeError F} {p : Place} {form : F}
  {name : String} {get : F → Option α} {set : F → α → F}
  {decode : Place → Draft → Except DecodeError α}

/-- A member that is a field fills the field. -/
theorem members_field {value : Json} {rest : List (String × Json)} {a : α}
    (hfind : fields.find? (·.name == name) = some (field name get set decode))
    (hget : get form = none) (hvalue : decode p value.draft = .ok a) :
    members fields other p form (draftMembers ((name, value) :: rest))
      = members fields other p (set form a) (draftMembers rest) := by
  rw [draftMembers, members]
  simp only [key, bind, Except.bind, hfind, field, hget, hvalue]
  rfl

/-- A member that is no field is dealt with separately. -/
theorem members_other {value : Json} {rest : List (String × Json)} {form' : F}
    (hfind : fields.find? (·.name == name) = none)
    (hother : other p name value.draft form = .ok form') :
    members fields other p form (draftMembers ((name, value) :: rest))
      = members fields other p form' (draftMembers rest) := by
  rw [draftMembers, members]
  simp only [key, bind, Except.bind, hfind, hother]

/-- A member that may have been left out fills its field or leaves a gap. The form is given by what
it becomes for each content of the field. -/
theorem members_optional {get : F → Option (Option Float)} {set : F → Option Float → F}
    {rest : List (String × Json)} (put : Option (Option Float) → F) (value : Option Float)
    (hfind : fields.find? (·.name == name) = some (field name get set (optional real)))
    (hget : get (put none) = none) (hset : ∀ x, set (put none) (some x) = put (some (some x))) :
    members fields other p (put none)
      (draftMembers ((value.map fun x => (name, Json.real x)).toList ++ rest))
      = members fields other p (put (value.map some)) (draftMembers rest) := by
  cases value with
  | none => rfl
  | some x =>
    show members fields other p (put none) (draftMembers ((name, .real x) :: rest)) = _
    rw [members_field (a := some x) hfind hget rfl, hset]
    rfl

/-- A record is decoded from the members of an object. -/
theorem record_object {r : Record F} {blank : F} {entries : List (String × Json)}
    (hadmits : p.Admits (.object entries))
    (h : members r.fields ignore p.inner blank (draftMembers entries) = .ok form) :
    record r blank p (Json.object entries).draft = .ok form := by
  rw [draft, record]
  exact bind_eq_ok.mpr ⟨p.inner, hadmits.object.1, bind_eq_ok.mpr ⟨form, h, rfl⟩⟩

end Records

end Decode

/-! ## Pulses -/

/-- The parameters of a list whose names ascend are the entries of the list. -/
theorem Parameters.ofList_entries {α : Type} (p : Parameters α) : ofList p.entries = p := by
  apply ext_get?
  intro name
  rw [ofList, get?_insertAll _ p.nodup_names, get?_empty, Option.or_none]
  rfl

namespace Pulse

/-- The names of the fields of a pulse. -/
def fieldNames : List String :=
  ["channel", "t0", "duration", "wf_func", "amp", "G_amp", "D_amp", "phase", "freq_mod", "nr_sigma"]

theorem find?_fields_eq_none {name : String} (h : name ∉ fieldNames) :
    Form.fields.find? (·.name == name) = none := by
  rw [List.find?_eq_none]
  intro field hfield hname
  have hnames : Form.fields.map RecordField.name = fieldNames := rfl
  exact h (by rw [← hnames, ← beq_iff_eq.mp hname]; exact List.mem_map_of_mem hfield)

/-- What is no field is kept, in order. -/
theorem Form.members_extra (place : Place) {entries : List (String × Float)}
    (hnames : ∀ entry ∈ entries, entry.1 ∉ fieldNames) (form : Form) :
    members Form.fields Form.keep place form (draftMembers (reals entries))
      = .ok { form with extra := form.extra ++ reals entries } := by
  induction entries generalizing form with
  | nil => simp [reals, draftMembers, members]
  | cons entry entries ih =>
    obtain ⟨hname, hrest⟩ := List.forall_mem_cons.mp hnames
    have hkeep : Form.keep place entry.1 (Json.real entry.2).draft form
        = .ok { form with extra := form.extra ++ [(entry.1, .real entry.2)] } := rfl
    show members Form.fields Form.keep place form
      (draftMembers ((entry.1, .real entry.2) :: reals entries)) = _
    rw [members_other (find?_fields_eq_none hname) hkeep, ih hrest]
    simp [reals]

/-- A form in which everything has been read that a pulse has. -/
def form (p : Pulse Float) : Form :=
  ⟨some p.channel, some p.start, some p.duration, some p.function, p.amplitude.map some,
    p.gaussAmplitude.map some,
    p.derivativeAmplitude.map some, p.phase.map some, p.modulation.map some, p.sigmas.map some,
    reals p.extra.entries⟩

/-- The parameters that are present, one after the other. -/
theorem filterMap_named (p : Pulse Float) (rest : List (String × Json)) :
    p.named.filterMap (fun entry => entry.2.map fun value => (entry.1, Json.real value)) ++ rest
      = (p.amplitude.map fun x => ("amp", .real x)).toList
        ++ ((p.gaussAmplitude.map fun x => ("G_amp", .real x)).toList
        ++ ((p.derivativeAmplitude.map fun x => ("D_amp", .real x)).toList
        ++ ((p.phase.map fun x => ("phase", .real x)).toList
        ++ ((p.modulation.map fun x => ("freq_mod", .real x)).toList
        ++ ((p.sigmas.map fun x => ("nr_sigma", .real x)).toList ++ rest))))) := by
  rw [List.filterMap_eq_flatMap_toList]
  simp [named]

/-- The members of a pulse are read into its form. -/
theorem members_encode (place : Place) (p : Pulse Float)
    (hnames : ∀ entry ∈ p.extra.entries, entry.1 ∉ fieldNames) :
    members Form.fields Form.keep place Form.blank
      (draftMembers ([("channel", ofOption .text p.channel), ("t0", .real p.start),
          ("duration", .real p.duration), ("wf_func", ofOption .text p.function)] ++
        p.named.filterMap (fun entry => entry.2.map fun value => (entry.1, Json.real value)) ++
        reals p.extra.entries))
      = .ok p.form := by
  rw [List.append_assoc, filterMap_named]
  simp only [List.cons_append, List.nil_append]
  rw [members_field rfl rfl (optional_text place p.channel), members_field rfl rfl rfl,
    members_field rfl rfl rfl, members_field rfl rfl (optional_text place p.function)]
  -- the form after the fields that are always there, and how each of the parameters changes it
  let f₀ : Form := ⟨some p.channel, some p.start, some p.duration, some p.function, none, none,
    none, none, none, none, []⟩
  let f₁ : Form := { f₀ with amplitude := p.amplitude.map some }
  let f₂ : Form := { f₁ with gaussAmplitude := p.gaussAmplitude.map some }
  let f₃ : Form := { f₂ with derivativeAmplitude := p.derivativeAmplitude.map some }
  let f₄ : Form := { f₃ with phase := p.phase.map some }
  let f₅ : Form := { f₄ with modulation := p.modulation.map some }
  refine Eq.trans (members_optional (fun x => { f₀ with amplitude := x })
    p.amplitude rfl rfl fun _ => rfl) ?_
  refine Eq.trans (members_optional (fun x => { f₁ with gaussAmplitude := x })
    p.gaussAmplitude rfl rfl fun _ => rfl) ?_
  refine Eq.trans (members_optional (fun x => { f₂ with derivativeAmplitude := x })
    p.derivativeAmplitude rfl rfl fun _ => rfl) ?_
  refine Eq.trans (members_optional (fun x => { f₃ with phase := x })
    p.phase rfl rfl fun _ => rfl) ?_
  refine Eq.trans (members_optional (fun x => { f₄ with modulation := x })
    p.modulation rfl rfl fun _ => rfl) ?_
  refine Eq.trans (members_optional (fun x => { f₅ with sigmas := x })
    p.sigmas rfl rfl fun _ => rfl) ?_
  exact Form.members_extra place hnames _

theorem join_map_some {α : Type} (x : Option α) : (x.map some).join = x := by
  cases x <;> rfl

theorem complete_form (place : Place) (p : Pulse Float) : p.form.complete place = .ok p := by
  have hextra : (reals p.extra.entries).mapM (fun entry => do
      let value ← real place entry.2.draft
      return (entry.1, value)) = .ok p.extra.entries := by
    rw [mapM_eq_ok, reals, List.forall₂_map_left_iff, List.forall₂_same]
    exact fun entry _ => rfl
  refine bind_eq_ok.mpr ⟨p.start, rfl,
    bind_eq_ok.mpr ⟨p.duration, rfl, bind_eq_ok.mpr ⟨_, hextra, ?_⟩⟩⟩
  rw [Parameters.ofList_entries]
  simp only [form, join_map_some]
  rfl

/-- **A pulse is decoded as it was encoded**, if its extra parameters have names of their own. -/
theorem decode_encode {p : Pulse Float} {place : Place} (hadmits : place.Admits p.encode)
    (hnames : ∀ entry ∈ p.extra.entries, entry.1 ∉ fieldNames) :
    Pulse.decode place p.encode.draft = .ok p :=
  bind_eq_ok.mpr ⟨place.inner, hadmits.object.1,
    bind_eq_ok.mpr ⟨p.form, members_encode place.inner p hnames,
    bind_eq_ok.mpr ⟨(), rfl, complete_form place.inner p⟩⟩⟩

end Pulse

/-! ## Operations, constraints and resources -/

theorem TimingConstraint.decode_encode {c : TimingConstraint} {p : Place}
    (hadmits : p.Admits c.encode) : TimingConstraint.decode p c.encode.draft = .ok c := by
  have hform : Decode.record TimingConstraint.record ⟨none, none⟩ p c.encode.draft
      = .ok ⟨some c.operation, some c.time⟩ := by
    refine record_object hadmits ?_
    rw [members_field rfl rfl rfl, members_field rfl rfl (optional_real _ c.time)]
    rfl
  exact bind_eq_ok.mpr ⟨_, hform, rfl⟩

theorem Resource.Kind.decode_name (p : Place) (kind : Resource.Kind) :
    Kind.decode p (Json.text kind.name).draft = .ok kind := by
  rw [Kind.decode]
  cases p.medium <;> cases kind <;> rfl

theorem Resource.decode_encode {r : Resource} {p : Place} (hadmits : p.Admits r.encode)
    (hkeyed : ∀ part ∈ r.data.parts, part.IsKeyed) : Resource.decode p r.encode.draft = .ok r := by
  have hdata : any p.inner r.data.draft = .ok r.data :=
    any_draft r.data hkeyed p.inner (hadmits.object.2 ("data", r.data) (by simp))
  have hform :
      Decode.record Resource.record ⟨none, none, none, none, none, none, none⟩ p r.encode.draft
        = .ok ⟨some r.name, some r.kind, some r.samplingRate, some r.frequency, some r.index,
          some r.instrument, some r.data⟩ := by
    refine record_object hadmits ?_
    rw [members_field rfl rfl rfl, members_field rfl rfl (Kind.decode_name _ r.kind),
      members_field rfl rfl rfl, members_field rfl rfl (optional_real _ r.frequency),
      members_field rfl rfl (word32_draft _ r.index),
      members_field rfl rfl (optional_text _ r.instrument), members_field rfl rfl hdata]
    rfl
  exact bind_eq_ok.mpr ⟨_, hform, rfl⟩

namespace Schedule

theorem Operation.decode_encode {o : Schedule.Operation} {p : Place} (hadmits : p.Admits o.encode)
    (hnames : ∀ pulse ∈ o.pulses, ∀ entry ∈ pulse.extra.entries, entry.1 ∉ Pulse.fieldNames) :
    Schedule.Operation.decode p o.encode.draft = .ok o := by
  have hpulses : listOf Pulse.decode p.inner (Json.list (o.pulses.map Pulse.encode)).draft
      = .ok o.pulses :=
    listOf_draft (hadmits.object.2 ("pulse_info", _) (by simp)) fun pulse hpulse hdepth =>
      Pulse.decode_encode hdepth (hnames pulse hpulse)
  have hform : Decode.record Operation.record ⟨none, none⟩ p o.encode.draft
      = .ok ⟨some o.name, some o.pulses⟩ := by
    refine record_object hadmits ?_
    rw [members_field rfl rfl rfl, members_field rfl rfl hpulses]
    rfl
  exact bind_eq_ok.mpr ⟨_, hform, rfl⟩

/-! ## Schedules -/

/-- What a schedule has to satisfy for its text to be read back. -/
structure Restorable (s : Schedule) : Prop where
  /-- Doubles are finite, and each is read as it was written. -/
  doubles : ∀ part ∈ s.encode.parts, part.IsReadBack
  /-- Extra parameters have names of their own. -/
  names : ∀ o ∈ s.operations.entries, ∀ pulse ∈ o.2.pulses, ∀ entry ∈ pulse.extra.entries,
    entry.1 ∉ Pulse.fieldNames
  /-- In the settings of instruments, integers have 64 bits and objects have distinct keys. -/
  settings : ∀ r ∈ s.resources.entries, ∀ part ∈ r.2.data.parts, part.IsBounded ∧ part.IsKeyed
  /-- The text is not nested too deep. -/
  depth : s.encode.depth ≤ 127

instance decidableRestorable (s : Schedule) : Decidable s.Restorable :=
  decidable_of_iff
    ((∀ part ∈ s.encode.parts, part.IsReadBack) ∧
      (∀ o ∈ s.operations.entries, ∀ pulse ∈ o.2.pulses, ∀ entry ∈ pulse.extra.entries,
        entry.1 ∉ Pulse.fieldNames) ∧
      (∀ r ∈ s.resources.entries, ∀ part ∈ r.2.data.parts, part.IsBounded ∧ part.IsKeyed) ∧
      s.encode.depth ≤ 127)
    ⟨fun h => ⟨h.1, h.2.1, h.2.2.1, h.2.2.2⟩, fun h => ⟨h.doubles, h.names, h.settings, h.depth⟩⟩

variable {s : Schedule}

theorem Restorable.decode_encode (h : s.Restorable) :
    Schedule.decode ⟨.text, 0⟩ s.encode.draft = .ok s := by
  have hadmits : Place.Admits ⟨.text, 0⟩ s.encode := by
    show 0 + s.encode.depth ≤ 127
    rw [Nat.zero_add]
    exact h.depth
  have hinner := hadmits.object.2
  have hoperations :
    mapOf Schedule.Operation.decode _ (s.operations.encode Schedule.Operation.encode).draft
      = .ok s.operations :=
    mapOf_draft (hinner ("operations", s.operations.encode _) (by simp)) fun o ho hdepth =>
      Operation.decode_encode hdepth (h.names o ho)
  have hconstraints :
    listOf TimingConstraint.decode _ (Json.list (s.constraints.map TimingConstraint.encode)).draft
      = .ok s.constraints :=
    listOf_draft (hinner ("timing_constraints", _) (by simp)) fun c _ hdepth =>
      TimingConstraint.decode_encode hdepth
  have hresources : mapOf Resource.decode _ (s.resources.encode Resource.encode).draft
      = .ok s.resources :=
    mapOf_draft (hinner ("resources", s.resources.encode _) (by simp)) fun r hr hdepth =>
      Resource.decode_encode hdepth fun part hpart => (h.settings r hr part hpart).2
  have hform : Decode.record Schedule.record ⟨none, none, none, none⟩ ⟨.text, 0⟩ s.encode.draft
      = .ok ⟨some s.name, some s.operations, some s.constraints, some s.resources⟩ := by
    refine record_object hadmits ?_
    rw [members_field rfl rfl rfl, members_field rfl rfl hoperations,
      members_field rfl rfl hconstraints, members_field rfl rfl hresources]
    rfl
  exact bind_eq_ok.mpr ⟨_, hform, rfl⟩

end Schedule

/-! ## Integers

The only integers of a schedule are the positions of sequencers, which have 32 bits, and those in
the settings of instruments. -/

theorem Json.isBounded_ofOption_text (x : Option String) :
    ∀ part ∈ (ofOption .text x).parts, part.IsBounded := by
  cases x <;> simp [ofOption, parts, IsBounded]

theorem Json.isBounded_ofOption_real (x : Option Float) :
    ∀ part ∈ (ofOption .real x).parts, part.IsBounded := by
  cases x <;> simp [ofOption, parts, IsBounded]

theorem Json.isBounded_real (x : Float) : ∀ part ∈ (Json.real x).parts, part.IsBounded :=
  isBounded_ofOption_real (some x)

theorem Json.isBounded_text (x : String) : ∀ part ∈ (Json.text x).parts, part.IsBounded :=
  isBounded_ofOption_text (some x)

theorem Pulse.isBounded_encode (p : Pulse Float) : ∀ part ∈ p.encode.parts, part.IsBounded := by
  refine forall_parts_object.mpr ⟨trivial,
    List.forall_mem_append.mpr ⟨List.forall_mem_append.mpr ⟨?_, ?_⟩, ?_⟩⟩
  · simp only [List.forall_mem_cons]
    exact ⟨isBounded_ofOption_text _, isBounded_real _, isBounded_real _,
      isBounded_ofOption_text _, by simp⟩
  · intro member hmember
    obtain ⟨entry, -, hentry⟩ := List.mem_filterMap.mp hmember
    obtain ⟨x, -, rfl⟩ := Option.map_eq_some_iff.mp hentry
    exact isBounded_real x
  · rw [List.forall_mem_map]
    exact fun entry _ => isBounded_real entry.2

theorem Resource.isBounded_encode {r : Resource} (h : ∀ part ∈ r.data.parts, part.IsBounded) :
    ∀ part ∈ r.encode.parts, part.IsBounded := by
  have hindex : ∀ part ∈ (Json.int r.index.toNat).parts, part.IsBounded := by
    have := r.index.toNat_lt
    simp only [parts, List.mem_singleton, forall_eq, IsBounded]
    omega
  refine forall_parts_object.mpr ⟨trivial, ?_⟩
  simp only [List.forall_mem_cons]
  exact ⟨isBounded_text _, isBounded_text _, isBounded_real _, isBounded_ofOption_real _, hindex,
    isBounded_ofOption_text _, h, by simp⟩

theorem OrderedMap.isBounded_encode {α : Type} {f : α → Json} {m : OrderedMap String α}
    (h : ∀ entry ∈ m.entries, ∀ part ∈ (f entry.2).parts, part.IsBounded) :
    ∀ part ∈ (m.encode f).parts, part.IsBounded := by
  refine forall_parts_object.mpr ⟨trivial, ?_⟩
  rw [List.forall_mem_map]
  exact h

theorem Json.isBounded_list {α : Type} {f : α → Json} {xs : List α}
    (h : ∀ x ∈ xs, ∀ part ∈ (f x).parts, part.IsBounded) :
    ∀ part ∈ (Json.list (xs.map f)).parts, part.IsBounded := by
  refine forall_parts_list.mpr ⟨trivial, ?_⟩
  rw [List.forall_mem_map]
  exact h

namespace Schedule

variable {s : Schedule}

theorem isBounded_encode (h : ∀ r ∈ s.resources.entries, ∀ part ∈ r.2.data.parts, part.IsBounded) :
    ∀ part ∈ s.encode.parts, part.IsBounded := by
  have hoperation : ∀ o : Schedule.Operation, ∀ part ∈ o.encode.parts, part.IsBounded := by
    intro o
    refine forall_parts_object.mpr ⟨trivial, ?_⟩
    simp only [List.forall_mem_cons]
    exact ⟨isBounded_text _, isBounded_list fun pulse _ => pulse.isBounded_encode, by simp⟩
  have hconstraint : ∀ c : TimingConstraint, ∀ part ∈ c.encode.parts, part.IsBounded := by
    intro c
    refine forall_parts_object.mpr ⟨trivial, ?_⟩
    simp only [List.forall_mem_cons]
    exact ⟨isBounded_text _, isBounded_ofOption_real _, by simp⟩
  refine forall_parts_object.mpr ⟨trivial, ?_⟩
  simp only [List.forall_mem_cons]
  exact ⟨isBounded_text _, OrderedMap.isBounded_encode fun o _ => hoperation o.2,
    isBounded_list fun c _ => hconstraint c,
    OrderedMap.isBounded_encode fun r hr => Resource.isBounded_encode (h r hr), by simp⟩

/-- **A schedule is read as it was written.** Its text is read back to the same schedule, and so is
a file with this text. -/
theorem load_write (s : Schedule) (h : s.Restorable) :
    Schedule.ofText s.encode.write = .ok s ∧
      ∀ (t : FileTree) (path : String), t.read path = .ok s.encode.write →
        (Schedule.load FileSystem.tree path).run t = (.ok s, t) := by
  have htext : Schedule.ofText s.encode.write = .ok s := by
    have hbounded := isBounded_encode fun r hr part hpart => (h.settings r hr part hpart).1
    rw [Schedule.ofText,
      Source.read_write fun part hpart => ⟨hbounded part hpart, h.doubles part hpart⟩]
    exact bind_eq_ok.mpr ⟨s, h.decode_encode, rfl⟩
  refine ⟨htext, fun t path hread => ?_⟩
  have hfile : (FileSystem.tree.read path).run t = (.ok s.encode.write, t) := by
    show ((t.read path).mapError FileError.message, t) = _
    rw [hread]
    rfl
  rw [Schedule.load, StateT.run_bind, hfile]
  show ((Schedule.ofText s.encode.write).mapError (Failure.parse path), t) = _
  rw [htext]
  rfl

/-- Names with quotes, a line break and letters of several scripts, a pulse with and one without
parameters, an extra parameter, and settings with an object in a list. -/
def annotated : Schedule :=
  let resource : Resource :=
    { Resource.plain "q\"0\\" .acq 1e9 with
      frequency := some (-0.0)
      index := 7
      instrument := some "größe\n\u2028"
      data := .object [("b", .list [.null, .int (-3), .real 1e16, .object []]), ("a", .bool true),
        ("", .text "\x7f\x01")] }
  let pulse : Pulse Float :=
    { Pulse.drag "q\"0\\" 0 2e-8 0.5 0.125 90 with
      extra := (Parameters.empty.insert "é" 0.1).insert "amp2" 1e-7 }
  (((blank "annotated").addResource resource).addOperation
    "z" [pulse, .silent none 0 4e-9]).place "z" none
    |>.addPulse "a" (.square "q\"0\\" 0 1e-8 0.25) 1.5e-7

theorem load_write_annotated :
    annotated.Restorable ∧ Schedule.ofText annotated.encode.write = .ok annotated ∧
      (Schedule.load FileSystem.tree "a.json").run ⟨[("a.json", .file annotated.encode.write)], []⟩
        = (.ok annotated, ⟨[("a.json", .file annotated.encode.write)], []⟩) := by
  have h : annotated.Restorable := by decide +kernel
  exact ⟨h, (load_write annotated h).1, (load_write annotated h).2 _ _ rfl⟩

end Schedule

end Sequencer
