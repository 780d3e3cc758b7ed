import Sequencer.Proofs.Frequency

/-!
# Requests that are not looked at

The compiler compares the frequency that a pulse asks for with that of the oscillator, but only
where it meets a content for the first time. A pulse whose content has been seen asks for nothing
new, so a second look should change nothing. Here the compiler is put beside one that looks at every
request.

The two differ in one case. A request for zero is taken for no request as long as the oscillator has
no frequency, and is in conflict with it afterwards. A pulse that asks for zero, and is played once
before the oscillator has a frequency and once after, passes the compiler, and its second occurrence
is refused by the other one. Everywhere else the two agree, up to the sign of a frequency that is
zero.

## Main definitions

* `Track.retune` — the rule for frequencies that does not look into the cache
* `CompiledSchedule.unsigned` — a compiled schedule without the signs of zero frequencies
* `Placement.Overlooked`, `Schedule.Overlooks` — a request for zero in conflict that is not looked
  at

## Main results

* `Schedule.Reaches.tune_agrees` — a second look at a request changes nothing unless a conflict is
  overlooked
* `Schedule.Reaches.add_agrees`, `Schedule.collect_agrees` — the two compilers in step
* `Schedule.foldlM_retune` — how far the other one comes if conflicts are overlooked
* `Schedule.recheck_compile` — what a second look does to the compilation of a schedule
* `Schedule.relapse_accepted` — a schedule that is accepted and would be refused
-/

namespace Sequencer

open Number

/-! ## Compiling with another rule -/

/-- Look at the request of every placement. -/
def Track.retune : TuningRule :=
  fun t p => p.resource.adopt t.frequency p.entry.key p.pulse.modulation

theorem Compilation.add_eq_error_of_rule {rule : TuningRule} {c : Compilation} {p : Placement}
    {e : CompileError} (h : rule (c.track p.channel p.resource) p = .error e)
    (library : WaveformLibrary Float) : c.add rule library p = .error e := by
  rw [add, Track.add, h]
  rfl

theorem Compilation.collect_append (rule : TuningRule) (library : WaveformLibrary Float)
    (c : Compilation) (placed : List Placement) (rest : List (Except CompileError Placement)) :
    c.collect rule library (placed.map .ok ++ rest)
      = placed.foldlM (add rule library) c >>= fun c => c.collect rule library rest := by
  rw [collect, List.foldlM_append, List.foldlM_map]
  rfl

/-- A placement in error ends the compilation. -/
theorem Schedule.compileWith_eq_error {rule : TuningRule} {s : Schedule}
    {library : WaveformLibrary Float} {settings : Settings} {before : List Placement}
    {after : List (Except CompileError Placement)} {p : Placement} {c : Compilation}
    {e : CompileError} (hplaced : s.placements settings = before.map .ok ++ .ok p :: after)
    (hbefore : before.foldlM (Compilation.add rule library) .start = .ok c)
    (hadd : c.add rule library p = .error e) : s.compileWith rule library settings = .error e := by
  rw [compileWith, hplaced, Compilation.collect_append, hbefore]
  show (c.add rule library p >>= _) >>= _ = _
  rw [hadd]
  rfl

/-! ## Up to the sign of zero -/

/-- The same track without the sign of a zero frequency. -/
def Track.unsigned (t : Track) : Track := { t with frequency := t.frequency.map unsignedZero }

/-- The same compilation without the signs of zero frequencies. -/
def Compilation.unsigned (c : Compilation) : Compilation :=
  { c with tracks := c.tracks.mapValues Track.unsigned }

/-- The same resource without the sign of a zero frequency. -/
def CompiledResource.unsigned (r : CompiledResource) : CompiledResource :=
  { r with frequency := r.frequency.map unsignedZero }

/-- The same schedule without the signs of zero frequencies. -/
def CompiledSchedule.unsigned (compiled : CompiledSchedule) : CompiledSchedule :=
  { compiled with resources := compiled.resources.map CompiledResource.unsigned }

/-- The rule for frequencies does not see the sign of zero. -/
theorem Resource.adopt_unsigned {current current' : Option Float}
    (h : Option.Rel Same current current') (r : Resource) (key : ContentKey)
    (requested : Option Float) :
    Agree (Option.Rel Same) (r.adopt current key requested) (r.adopt current' key requested) := by
  cases requested with
  | none => exact .ok h
  | some found =>
    have hself : Option.Rel Same (some found) (some found) := .some (Or.inl rfl)
    obtain ⟨rfl, rfl⟩ | ⟨e, e', rfl, rfl, hsame⟩ := outcome_of_rel h
    · exact .ok hself
    rw [adopt, adopt]
    rcases hsame with rfl | ⟨he, he'⟩
    · split
      · exact .ok hself
      split
      · exact .error _
      · exact .ok h
    · rw [if_pos he, if_pos he']
      exact .ok hself

section Unsigned

variable {rule rule' : TuningRule} {library : WaveformLibrary Float} {p : Placement}

theorem Track.rel_frequency {t t' : Track} (h : t.unsigned = t'.unsigned) :
    Option.Rel Same t.frequency t'.frequency :=
  (rel_same_iff _ _).mpr (Track.mk.inj h).2.2.1

theorem Track.add_unsigned {t t' : Track} (h : t.unsigned = t'.unsigned)
    (hrule : Agree (Option.Rel Same) (rule t p) (rule' t' p)) :
    Agree (fun t t' => t.unsigned = t'.unsigned) (t.add rule library p)
      (t'.add rule' library p) := by
  obtain ⟨hsampler, hentries, -, hfinish⟩ := Track.mk.inj h
  rw [add, add, ← hsampler, ← hentries, ← hfinish]
  refine hrule.bind fun frequency frequency' hfrequency => ?_
  cases (p.request library).run t.toSampler with
  | error e sampler => exact .error e
  | ok w sampler =>
    refine .ok ?_
    rw [unsigned, unsigned, (rel_same_iff _ _).mp hfrequency]

namespace Compilation

variable {c d : Compilation}

theorem track_unsigned (h : c.unsigned = d.unsigned) (name : String) (r : Resource) :
    (c.track name r).unsigned = (d.track name r).unsigned := by
  have hget : (c.tracks.get? name).map Track.unsigned
      = (d.tracks.get? name).map Track.unsigned := by
    rw [← OrderedMap.get?_mapValues, ← OrderedMap.get?_mapValues, (mk.inj h).1]
  rw [track, track, ← Option.getD_map Track.unsigned, ← Option.getD_map Track.unsigned, hget]

/-- Two rules that agree on a placement, in step. -/
theorem add_unsigned (h : c.unsigned = d.unsigned)
    (hrule : Agree (Option.Rel Same) (rule (c.track p.channel p.resource) p)
      (rule' (d.track p.channel p.resource) p)) :
    Agree (fun c d => c.unsigned = d.unsigned) (c.add rule library p) (d.add rule' library p) := by
  obtain ⟨htracks, hacquisitions, hduration⟩ := mk.inj h
  have htrack := track_unsigned h p.channel p.resource
  rw [add, add]
  refine (Track.add_unsigned htrack hrule).bind fun t t' ht => .ok ?_
  have hfinish : t.finish = t'.finish := (Track.mk.inj ht).2.2.2
  rw [unsigned, unsigned, OrderedMap.mapValues_insert, OrderedMap.mapValues_insert, htracks, ht,
    hacquisitions, hduration, hfinish]

theorem used_unsigned (c : Compilation) (s : Schedule) :
    c.unsigned.used s = (c.used s).map fun x => (x.1, x.2.1, x.2.2.unsigned) := by
  rw [used, used, List.map_filterMap]
  congr 1
  funext x
  obtain ⟨name, r⟩ := x
  show Option.map _ ((c.tracks.mapValues Track.unsigned).get? name) = Option.map _ (Option.map _ _)
  rw [OrderedMap.get?_mapValues, Option.map_map, Option.map_map]
  rfl

/-- Finishing a track does not look at its frequency. -/
theorem finishTrack_unsigned (h : c.unsigned = d.unsigned) (settings : Settings) (name : String)
    (r : Resource) {t t' : Track} (ht : t.unsigned = t'.unsigned) :
    Agree (fun a b => a.unsigned = b.unsigned) (c.finishTrack settings name r t)
      (d.finishTrack settings name r t') := by
  obtain ⟨hsampler, hentries, hfrequency, hfinish⟩ := Track.mk.inj ht
  have hacquisitions : c.acquisitions = d.acquisitions := (mk.inj h).2.1
  rw [finishTrack, finishTrack, hsampler, hentries, hfinish, hacquisitions]
  refine (Agree.refl _).bind ?_
  rintro memory _ rfl
  refine .ok ?_
  rw [CompiledResource.unsigned, CompiledResource.unsigned, hfrequency]

theorem finish_unsigned (h : c.unsigned = d.unsigned) (s : Schedule) (settings : Settings) :
    Agree (fun a b => a.unsigned = b.unsigned) (c.finish s settings) (d.finish s settings) := by
  obtain ⟨htracks, hacquisitions, hduration⟩ := mk.inj h
  have hused : List.Forall₂ (fun x y => (x.1, x.2.1, x.2.2.unsigned) = (y.1, y.2.1, y.2.2.unsigned))
      (c.used s) (d.used s) := by
    have hmap := used_unsigned c s
    rw [h, used_unsigned] at hmap
    rw [← List.forall₂_map_right_iff, ← List.forall₂_map_left_iff, hmap]
    exact List.forall₂_refl _
  have hasked : c.asked = d.asked := by
    have hmap := congrArg (fun m => m.entries.flatMap fun entry => entry.2.asked) htracks
    simp only [OrderedMap.mapValues, List.flatMap_map] at hmap
    exact hmap
  rw [finish, finish, hasked, hacquisitions, hduration]
  refine (Agree.mapM (S := fun a b => a.unsigned = b.unsigned) hused ?_).bind
    fun resources resources' hall => .ok ?_
  · rintro ⟨name, r, t⟩ ⟨name', r', t'⟩ hx
    obtain ⟨rfl, rfl, ht⟩ : name = name' ∧ r = r' ∧ t.unsigned = t'.unsigned := by simpa using hx
    exact finishTrack_unsigned h settings name r ht
  · rw [CompiledSchedule.unsigned, CompiledSchedule.unsigned,
      map_eq_map_of_forall₂ hall fun _ _ hr => hr.symm]

end Compilation

end Unsigned

/-! ## One placement -/

theorem Resource.adopt_conflict {r : Resource} {e f : Float} (hkind : r.kind = .awg)
    (he : nonzero e = true) (hne : (f == e) = false) (key : ContentKey) :
    r.adopt (some e) key (some f) = .error (.inconsistentModulation key r.name e f) := by
  have hset : ¬ (e == 0.0) = true := by simpa [nonzero, bne] using he
  rw [adopt, if_neg hset, if_pos ⟨hkind, by simp [bne, hne]⟩]

/-- A request that has been made before is granted, unless it is for zero and the oscillator has a
frequency by now. -/
theorem InTune.adopt_again {r : Resource} {requests : List Float} {frequency : Option Float}
    {f g : Float} (h : InTune r requests frequency) (hg : g ∈ requests) (hsame : Same g f)
    (hfinite : f.isFinite = true)
    (hclear : r.kind = .awg → nonzero f = false → frequency.filter nonzero = none)
    (key : ContentKey) :
    ∃ frequency', r.adopt frequency key (some f) = .ok frequency' ∧
      Option.Rel Same frequency frequency' := by
  cases hfrequency : frequency with
  | none => exact absurd (h.missing.mp hfrequency) (List.ne_nil_of_mem hg)
  | some e =>
    rw [Resource.adopt]
    by_cases he : (e == 0.0) = true
    · -- the request was for zero too, or else the frequency would not be
      rw [if_pos he]
      refine ⟨_, rfl, .some ?_⟩
      have hunset : frequency.filter nonzero = none := by simp [hfrequency, nonzero, bne, he]
      have hgzero : (g == 0.0) = true := by simpa [nonzero, bne] using h.eq_false_of_unset hunset hg
      rcases hsame with rfl | ⟨-, hf⟩
      · exact Or.inr ⟨he, hgzero⟩
      · exact Or.inr ⟨he, hf⟩
    · have hset : nonzero e = true := by simpa [nonzero, bne] using he
      have hagree : ¬ (r.kind = .awg ∧ (f != e) = true) := by
        rintro ⟨hkind, hne⟩
        cases hf : nonzero f with
        | true =>
          obtain rfl := eq_of_same_of_nonzero hsame hf
          obtain rfl := Option.some.inj (hfrequency.symm.trans (h.shared hkind g hg hf))
          simp [bne, beq_self_of_isFinite hfinite] at hne
        | false =>
          have hnone := hclear hkind hf
          rw [hfrequency, Option.filter_some_pos hset] at hnone
          cases hnone
      rw [if_neg he, if_neg hagree]
      exact ⟨_, rfl, .some (Or.inl rfl)⟩

/-- A conflict that is not looked at: where pulses share the oscillator, a pulse asks for zero. Its
content has been placed before, and the oscillator has been asked for another frequency. -/
structure Placement.Overlooked (before : List Placement) (p : Placement) : Prop where
  shared : p.resource.kind = .awg
  zero : ∃ f, p.pulse.modulation = some f ∧ nonzero f = false
  seen : ∃ q ∈ before, q.channel = p.channel ∧ q.entry.key = p.entry.key
  adopted : ∃ f ∈ requestsOn p.channel p.resource before, nonzero f = true

namespace Schedule

variable {s : Schedule} {library : WaveformLibrary Float} {settings : Settings}

/-- The compiler gets to a conflict that it does not look at. -/
def Overlooks (s : Schedule) (library : WaveformLibrary Float) (settings : Settings) : Prop :=
  ∃ before p c, s.Reaches library settings before p c ∧ Placement.Overlooked before p

/-- The error for a pulse that asks for zero on an oscillator that has a frequency. -/
def IsZeroConflict (s : Schedule) (settings : Settings) (error : CompileError) : Prop :=
  ∃ p expected found, .ok p ∈ s.placements settings ∧ p.pulse.modulation = some found ∧
    nonzero found = false ∧ nonzero expected = true ∧
    error = .inconsistentModulation p.entry.key p.resource.name expected found

/-- The frequencies that pulses ask for are finite. -/
def FrequenciesFinite (s : Schedule) : Prop := ∀ p ∈ s.pulses, ∀ f ∈ p.modulation, f.isFinite = true

instance decidableFrequenciesFinite (s : Schedule) : Decidable s.FrequenciesFinite :=
  inferInstanceAs (Decidable (∀ p ∈ s.pulses, ∀ f ∈ p.modulation, f.isFinite = true))

namespace Reaches

variable {before : List Placement} {p : Placement} {c : Compilation}

theorem mem_placements (h : s.Reaches library settings before p c) {q : Placement}
    (hq : q ∈ before ++ [p]) : .ok q ∈ s.placements settings := by
  obtain ⟨after, hafter⟩ := h.placements
  rw [hafter]
  rcases List.mem_append.mp hq with hq | hq
  · exact List.mem_append_left _ (List.mem_map.mpr ⟨q, hq, rfl⟩)
  · rw [List.mem_singleton.mp hq]
    simp

theorem isFinite (h : s.Reaches library settings before p c) (hfinite : s.FrequenciesFinite)
    {f : Float} (hf : p.pulse.modulation = some f) : f.isFinite = true := by
  obtain ⟨hmem, -⟩ := pulse_of_mem_placements (h.mem_placements (q := p) (by simp))
  exact hfinite _ hmem f hf

theorem inTune (h : s.Reaches library settings before p c) (hkeyed : s.FrequenciesKeyed) :
    InTune p.resource (Placement.requestsOn p.channel p.resource before)
      (c.track p.channel p.resource).frequency := by
  have hresource := resource_of_mem_placements (h.mem_placements (q := p) (by simp))
  exact hkeyed.inTune (fun q hq => h.mem_placements (List.mem_append_left _ hq))
    h.collected hresource

/-- A conflict is overlooked because its content is in the cache. -/
theorem overlooked_iff (h : s.Reaches library settings before p c) (hkeyed : s.FrequenciesKeyed) :
    Placement.Overlooked before p ↔ p.resource.kind = .awg ∧
      (∃ f, p.pulse.modulation = some f ∧ nonzero f = false) ∧
      (c.track p.channel p.resource).cache.contains p.entry.key = true ∧
      ∃ e, (c.track p.channel p.resource).frequency = some e ∧ nonzero e = true := by
  have htune := h.inTune hkeyed
  rw [OrderedMap.contains, ← OrderedMap.mem_keys_iff, Compilation.mem_keys_track h.collected]
  constructor
  · intro hover
    obtain ⟨e, he⟩ := Option.isSome_iff_exists.mp (List.find?_isSome.mpr hover.adopted)
    exact ⟨hover.shared, hover.zero, hover.seen, e, htune.eq_some he, List.find?_some he⟩
  · rintro ⟨hshared, hzero, hseen, e, he, hset⟩
    exact ⟨hshared, hzero, hseen, e, List.mem_of_find?_eq_some (htune.find?_eq_some he hset), hset⟩

/-- **A second look changes nothing** unless a conflict is overlooked. -/
theorem tune_agrees (h : s.Reaches library settings before p c) (hkeyed : s.FrequenciesKeyed)
    (hfinite : s.FrequenciesFinite) (hclear : ¬ Placement.Overlooked before p) :
    Agree (Option.Rel Same) (Track.tune (c.track p.channel p.resource) p)
      (Track.retune (c.track p.channel p.resource) p) := by
  have hself : ∀ x : Option Float, Option.Rel Same x x := fun x => (rel_same_iff x x).mpr rfl
  have hall : Placement.Keyed (before ++ [p]) := hkeyed.keyed fun q hq => h.mem_placements hq
  rw [Track.tune, Track.retune]
  split
  · next hseen =>
    cases hf : p.pulse.modulation with
    | none => exact .ok (hself _)
    | some f =>
      obtain ⟨g, hg, hsame⟩ := Compilation.exists_request h.collected hall hseen hf
      have hunset : p.resource.kind = .awg → nonzero f = false →
          (c.track p.channel p.resource).frequency.filter nonzero = none := by
        intro hkind hzero
        by_contra hsome
        obtain ⟨e, he⟩ := Option.ne_none_iff_exists'.mp hsome
        obtain ⟨he, hset⟩ := Option.filter_eq_some_iff.mp he
        exact hclear ((h.overlooked_iff hkeyed).mpr ⟨hkind, ⟨f, hf, hzero⟩, hseen, e, he, hset⟩)
      obtain ⟨frequency, hok, hrel⟩ :=
        (h.inTune hkeyed).adopt_again hg hsame (h.isFinite hfinite hf) hunset p.entry.key
      rw [hok]
      exact .ok hrel
  · exact Resource.adopt_unsigned (hself _) p.resource p.entry.key p.pulse.modulation

variable {d : Compilation} (h : s.Reaches library settings before p c) (hkeyed : s.FrequenciesKeyed)
  (hcd : c.unsigned = d.unsigned)

include h hkeyed hcd

/-- **The two compilers in step.** -/
theorem add_agrees (hfinite : s.FrequenciesFinite) (hclear : ¬ Placement.Overlooked before p) :
    Agree (fun c d => c.unsigned = d.unsigned) (c.add Track.tune library p)
      (d.add Track.retune library p) := by
  have hlook : Agree (fun c d => c.unsigned = d.unsigned) (c.add Track.tune library p)
      (c.add Track.retune library p) :=
        Compilation.add_unsigned rfl (h.tune_agrees hkeyed hfinite hclear)
  have hrel := Track.rel_frequency (Compilation.track_unsigned hcd p.channel p.resource)
  have hsign : Agree (fun c d => c.unsigned = d.unsigned) (c.add Track.retune library p)
      (d.add Track.retune library p) :=
    Compilation.add_unsigned hcd
      (Resource.adopt_unsigned hrel p.resource p.entry.key p.pulse.modulation)
  exact hlook.trans hsign fun _ _ _ => Eq.trans

/-- A conflict that the compiler overlooks is seen by the other one. -/
theorem add_retune_of_overlooked (hover : Placement.Overlooked before p) :
    ∃ e, s.IsZeroConflict settings e ∧ d.add Track.retune library p = .error e := by
  obtain ⟨hkind, ⟨f, hf, hzero⟩, -, e, he, hset⟩ := (h.overlooked_iff hkeyed).mp hover
  refine ⟨_, ⟨p, e, f, h.mem_placements (by simp), hf, hzero, hset, rfl⟩, ?_⟩
  have hrel := Track.rel_frequency (Compilation.track_unsigned hcd p.channel p.resource).symm
  rw [he] at hrel
  obtain ⟨-, hnone⟩ | ⟨e', _, he', heq, hsame⟩ := outcome_of_rel hrel
  · cases hnone
  obtain rfl := Option.some.inj heq
  obtain rfl := eq_of_same_of_nonzero hsame hset
  have hne : (f == e') = false := by
    rw [Bool.eq_false_iff]
    intro hbeq
    rw [eq_of_same_of_nonzero (same_of_beq hbeq) hset, hset] at hzero
    cases hzero
  have hretune : Track.retune (d.track p.channel p.resource) p
      = .error (.inconsistentModulation p.entry.key p.resource.name e' f) := by
    rw [Track.retune, he', hf]
    exact Resource.adopt_conflict hkind hset hne p.entry.key
  exact Compilation.add_eq_error_of_rule hretune library

end Reaches

/-- What a second look at every request does to the compilation of a schedule. -/
structure Rechecked (s : Schedule) (library : WaveformLibrary Float) (settings : Settings) :
    Prop where
  /-- If no conflict is overlooked, it changes nothing. -/
  agrees : ¬ s.Overlooks library settings →
    Agree (fun a b => a.unsigned = b.unsigned) (s.compile library settings)
      (s.compileWith Track.retune library settings)
  /-- If one is, the schedule is refused. -/
  refused : s.Overlooks library settings →
    ∃ e, s.IsZeroConflict settings e ∧ s.compileWith Track.retune library settings = .error e
  /-- A pulse that asks for another frequency than a shared oscillator has is refused without it,
  whether its content has been seen or not, unless the conflict is overlooked. -/
  conflicts : ∀ before p c e f, s.Reaches library settings before p c → p.resource.kind = .awg →
    (c.track p.channel p.resource).frequency = some e → nonzero e = true →
      p.pulse.modulation = some f → (f == e) = false → ¬ Placement.Overlooked before p →
        s.compile library settings
          = .error (.inconsistentModulation p.entry.key p.resource.name e f)

section Run

variable (hkeyed : s.FrequenciesKeyed) (hfinite : s.FrequenciesFinite)

include hkeyed hfinite

/-- The two compilers side by side, if nothing is overlooked. The compiler has come to the rest of
the placements. -/
theorem collect_agrees (hclear : ¬ s.Overlooks library settings) {done : List Placement}
    {rest : List (Except CompileError Placement)} {c d : Compilation}
    (hplaced : s.placements settings = done.map .ok ++ rest)
    (hdone : done.foldlM (Compilation.add Track.tune library) .start = .ok c)
    (hcd : c.unsigned = d.unsigned) :
    Agree (fun c d => c.unsigned = d.unsigned) (c.collect Track.tune library rest)
      (d.collect Track.retune library rest) := by
  induction rest generalizing done c d with
  | nil => exact .ok hcd
  | cons x rest ih =>
    rw [Compilation.collect, Compilation.collect, List.foldlM_cons, List.foldlM_cons]
    cases x with
    | error e => exact .error e
    | ok p =>
      have hreach : s.Reaches library settings done p c := ⟨⟨rest, hplaced⟩, hdone⟩
      have hstep := hreach.add_agrees hkeyed hcd hfinite fun hover =>
        hclear ⟨done, p, c, hreach, hover⟩
      show Agree _ (c.add Track.tune library p >>= _) (d.add Track.retune library p >>= _)
      rcases hstep.outcome with ⟨e, hc, hd⟩ | ⟨c', d', hc, hd, hcd'⟩
      · rw [hc, hd]
        exact .error e
      · rw [hc, hd]
        have hplaced' : s.placements settings = (done ++ [p]).map .ok ++ rest := by
          simpa using hplaced
        refine ih hplaced' ?_ hcd'
        rw [foldlM_concat hdone, hc]

/-- Up to any placement, the other compiler has come as far, or it has refused a request for
zero. -/
theorem foldlM_retune {done : List Placement} {rest : List (Except CompileError Placement)}
    {c : Compilation} (hplaced : s.placements settings = done.map .ok ++ rest)
    (hdone : done.foldlM (Compilation.add Track.tune library) .start = .ok c) :
    (∃ d, done.foldlM (Compilation.add Track.retune library) .start = .ok d ∧
      c.unsigned = d.unsigned) ∨
      ∃ e, s.IsZeroConflict settings e ∧
        done.foldlM (Compilation.add Track.retune library) .start = .error e := by
  have hrun := foldlM_induction (motive := fun done c =>
    done.foldlM (Compilation.add Track.tune library) .start = .ok c ∧
    ∀ rest, s.placements settings = done.map .ok ++ rest →
      (∃ d, done.foldlM (Compilation.add Track.retune library) .start = .ok d ∧
        c.unsigned = d.unsigned) ∨
        ∃ e, s.IsZeroConflict settings e ∧
          done.foldlM (Compilation.add Track.retune library) .start = .error e) ?_ ?_ hdone
  · exact hrun.2 rest hplaced
  · exact ⟨rfl, fun _ _ => Or.inl ⟨.start, rfl, rfl⟩⟩
  · rintro done p c c' ⟨hdone, ih⟩ hadd
    refine ⟨by rw [foldlM_concat hdone, hadd], fun rest hplaced => ?_⟩
    have hplaced : s.placements settings = done.map .ok ++ .ok p :: rest := by simpa using hplaced
    have hreach : s.Reaches library settings done p c := ⟨⟨rest, hplaced⟩, hdone⟩
    rcases ih _ hplaced with ⟨d, hd, hcd⟩ | ⟨e, hconflict, hd⟩
    · rw [foldlM_concat hd]
      by_cases hover : Placement.Overlooked done p
      · exact Or.inr (hreach.add_retune_of_overlooked hkeyed hcd hover)
      · rcases (hreach.add_agrees hkeyed hcd hfinite hover).outcome with
          ⟨e, hc, -⟩ | ⟨_, d', hc, hd', hcd'⟩
        · rw [hadd] at hc
          cases hc
        · obtain rfl := Except.ok.inj (hadd.symm.trans hc)
          exact Or.inl ⟨d', hd', hcd'⟩
    · -- what has been refused stays refused
      refine Or.inr ⟨e, hconflict, ?_⟩
      rw [List.foldlM_append, hd]
      rfl

/-- A conflict that the compiler overlooks is in the end refused by the other one. -/
theorem compileWith_retune_of_overlooks (hover : s.Overlooks library settings) :
    ∃ e, s.IsZeroConflict settings e ∧ s.compileWith Track.retune library settings = .error e := by
  obtain ⟨before, p, c, hreach, hover⟩ := hover
  obtain ⟨after, hplaced⟩ := hreach.placements
  rcases foldlM_retune hkeyed hfinite hplaced hreach.collected with
    ⟨d, hd, hcd⟩ | ⟨e, hconflict, hd⟩
  · obtain ⟨e, hconflict, hrefused⟩ := hreach.add_retune_of_overlooked hkeyed hcd hover
    exact ⟨e, hconflict, compileWith_eq_error hplaced hd hrefused⟩
  · refine ⟨e, hconflict, ?_⟩
    rw [compileWith, hplaced, Compilation.collect_append, hd]
    rfl

/-- The compiler refuses a conflict that it does not overlook. -/
theorem compile_of_conflict {before : List Placement} {p : Placement} {c : Compilation}
    {e f : Float} (hreach : s.Reaches library settings before p c) (hkind : p.resource.kind = .awg)
    (he : (c.track p.channel p.resource).frequency = some e) (hset : nonzero e = true)
    (hf : p.pulse.modulation = some f) (hne : (f == e) = false)
    (hclear : ¬ Placement.Overlooked before p) :
    s.compile library settings
      = .error (.inconsistentModulation p.entry.key p.resource.name e f) := by
  obtain ⟨after, hplaced⟩ := hreach.placements
  have hagrees := hreach.tune_agrees hkeyed hfinite hclear
  rw [Track.retune, he, hf, Resource.adopt_conflict hkind hset hne p.entry.key] at hagrees
  rcases hagrees.outcome with ⟨e', htune, herror⟩ | ⟨_, _, -, hok, -⟩
  · obtain rfl := Except.error.inj herror
    exact compileWith_eq_error hplaced hreach.collected
      (Compilation.add_eq_error_of_rule htune library)
  · cases hok

/-- **What a second look at every request does.** If keys tell frequencies apart and frequencies are
finite, it refuses the schedules in which the compiler overlooks a conflict, and changes nothing for
all others. -/
theorem recheck_compile (library : WaveformLibrary Float) (settings : Settings) :
    s.Rechecked library settings where
  agrees := by
    intro hclear
    have hplaced : s.placements settings = ([] : List Placement).map .ok ++ s.placements settings :=
      rfl
    rw [compile, compileWith, compileWith]
    refine (collect_agrees hkeyed hfinite hclear hplaced rfl rfl).bind fun c d hcd => ?_
    exact Compilation.finish_unsigned hcd s settings
  refused := compileWith_retune_of_overlooks hkeyed hfinite
  conflicts := by
    intro before p c e f hreach hkind he hset hf hne hclear
    exact compile_of_conflict hkeyed hfinite hreach hkind he hset hf hne hclear

end Run

/-- A pulse that asks for zero, before and after one that asks for a frequency. -/
def relapse : Schedule :=
  ((((blank "relapse").addResource (.plain "q0" .awg 1e9)).addPulse
    "still" ((Pulse.square "q0" 0 12e-9 0.5).modulated 0) 0).addPulse
    "drive" ((Pulse.square "q0" 0 16e-9 0.5).modulated 1e7) 20e-9).place "still" (some 40e-9)

theorem keyed_relapse : relapse.FrequenciesKeyed ∧ relapse.FrequenciesFinite := by decide +kernel

theorem recheck_compile_relapse :
    relapse.FrequenciesKeyed ∧ relapse.FrequenciesFinite ∧ relapse.Rechecked .standard .standard :=
  ⟨keyed_relapse.1, keyed_relapse.2,
    recheck_compile keyed_relapse.1 keyed_relapse.2 .standard .standard⟩

/-- **A schedule that is accepted, and that a second look would refuse.** -/
theorem relapse_accepted :
    relapse.FrequenciesKeyed ∧ relapse.FrequenciesFinite ∧
      (∃ compiled, relapse.compile .standard .standard = .ok compiled ∧
        compiled.resources.map CompiledResource.frequency = [some 1e7]) ∧
      (∃ key, relapse.compileWith Track.retune .standard .standard
        = .error (.inconsistentModulation key "q0" 1e7 0)) ∧
      ¬ Agree (fun a b => a.unsigned = b.unsigned) (relapse.compile .standard .standard)
        (relapse.compileWith Track.retune .standard .standard) := by
  have hvalue : (relapse.compile .standard .standard).toOption.map
      (fun c => c.resources.map CompiledResource.frequency) = some [some 1e7] := by
    decide +kernel
  have hrefused : ∃ key, relapse.compileWith Track.retune .standard .standard
      = .error (.inconsistentModulation key "q0" 1e7 0) := by
    have hvalue : (match relapse.compileWith Track.retune .standard .standard with
        | .error (.inconsistentModulation _ name expected found) => some (name, expected, found)
        | _ => none) = some ("q0", 1e7, 0) := by
      decide +kernel
    split at hvalue
    · next key name expected found herror =>
      obtain ⟨rfl, rfl, rfl⟩ : name = "q0" ∧ expected = 1e7 ∧ found = 0 := by simpa using hvalue
      exact ⟨key, herror⟩
    · cases hvalue
  refine ⟨keyed_relapse.1, keyed_relapse.2, exists_ok_of_toOption hvalue, hrefused,
    fun hagree => ?_⟩
  obtain ⟨compiled, hok, -⟩ := exists_ok_of_toOption hvalue
  obtain ⟨key, herror⟩ := hrefused
  rw [hok, herror] at hagree
  cases hagree

end Schedule

end Sequencer
