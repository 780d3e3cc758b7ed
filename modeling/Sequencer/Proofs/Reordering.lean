import Sequencer.Proofs.SignedZero

/-!
# The order of timing constraints

Timing constraints say when operations are executed, so it should not matter in which order they are
listed. The compiler is full of state that depends on it: which resource is met first, which content
is seen first and sampled, where a waveform lies, how far the maxima have come. None of this is
played. What is played is sorted by time, the waveform of a content can be sampled from any pulse
that has it, and maxima do not depend on an order.

What does depend on it are entries that start at the same time, which stay in the order of their
constraints, and the positions of waveforms in their banks. The first is why entries are only the
same up to a permutation unless their times are distinct; the second is why nothing is said about
positions.

## Main definitions

* `Schedule.reorder` — a schedule with other timing constraints
* `Schedule.KeyedByContent` — keys tell contents
* `CompiledResource.PlaysLike` — two compiled resources play the same

## Main results

* `CompiledResource.IsProjection.entries_perm`, `CompiledResource.IsProjection.finish_eq` — what
  does not depend on an order
* `Schedule.samples_reorder` — a content has the same samples in both orders
* `Schedule.reorder_compile` — the order of timing constraints does not change what is played
-/

namespace Sequencer

/-- The same schedule with other timing constraints. -/
def Schedule.reorder (s : Schedule) (constraints : List TimingConstraint) : Schedule :=
  { s with constraints := constraints }

/-- Keys tell contents: pulses with the same key have the same content. -/
def Schedule.KeyedByContent (s : Schedule) : Prop :=
  ∀ p ∈ s.pulses, ∀ q ∈ s.pulses, p.contentKey = q.contentKey → p.SameContent q

theorem Pulse.SameContent.refl (p : Pulse Float) : p.SameContent p := by
  have hrel : ∀ x : Option Float, Option.Rel Number.Same x x := by
    intro x
    cases x with
    | none => exact .none
    | some x => exact .some (Number.Same.refl x)
  exact ⟨rfl, Number.Same.refl _, rfl, fun _ => hrel _, fun _ => hrel _⟩

/-- Two compiled resources play the same. -/
structure CompiledResource.PlaysLike (r r' : CompiledResource) : Prop where
  resource : r.resource = r'.resource
  finish : r.finish = r'.finish
  /-- The same contents have the same samples. -/
  samples : ∀ key, Option.Rel Waveform.Same (r.cache.get? key) (r'.cache.get? key)
  /-- They are in the same banks. -/
  bank : ∀ b key, key ∈ (r.memory.bank b).keys ↔ key ∈ (r'.memory.bank b).keys
  /-- The same entries are played, -/
  entries : r.entries.Perm r'.entries
  /-- and in the same order, if no two of them start at the same time. -/
  ordered : (r.entries.map Entry.time).Nodup → r.entries = r'.entries

/-! ## Resources on which the same is played -/

namespace CompiledResource.IsProjection

variable {library : WaveformLibrary Float} {s s' : Schedule} {settings : Settings}
  {r r' : CompiledResource}
  (h : r.IsProjection library s settings) (h' : r'.IsProjection library s' settings)
  (hplayed : (s.playedOn settings r.name r.resource).Perm
    (s'.playedOn settings r'.name r'.resource))

include h h' hplayed

theorem mem_keys_iff (key : ContentKey) : key ∈ r.cache.keys ↔ key ∈ r'.cache.keys := by
  rw [h.keys, h'.keys, List.mem_eraseDups, List.mem_eraseDups, (hplayed.map _).mem_iff]

theorem entries_perm : r.entries.Perm r'.entries :=
  h.entries.perm.trans ((hplayed.map Prod.fst).trans h'.entries.perm.symm)

theorem entries_eq (hnodup : (r.entries.map Entry.time).Nodup) : r.entries = r'.entries :=
  eq_of_perm_of_nodup (entries_perm h h' hplayed) h.entries.ascending h'.entries.ascending hnodup

/-- The end of a resource depends on which entries there are, and on how long their waveforms
are. -/
theorem finish_eq (hsamples : ∀ key, r.cache.samples key = r'.cache.samples key) :
    r.finish = r'.finish := by
  rw [h.finish, h'.finish]
  refine peak_congr fun time => ?_
  simp only [List.mem_map, (entries_perm h h' hplayed).mem_iff, hsamples]

end CompiledResource.IsProjection

theorem Cache.samples_eq_of_rel {c c' : Cache} {key : ContentKey}
    (h : Option.Rel Waveform.Same (c.get? key) (c'.get? key)) : c.samples key = c'.samples key := by
  rw [Cache.samples, Cache.samples]
  generalize c.get? key = w at h
  generalize c'.get? key = w' at h
  cases h with
  | none => rfl
  | some hsame => simp [hsame.length]

theorem exists_of_map_eq {α β : Type} {f : α → β} {xs ys : List α} (h : xs.map f = ys.map f) {x : α}
    (hx : x ∈ xs) : ∃ y ∈ ys, f x = f y := by
  have hmem : f x ∈ ys.map f := h ▸ List.mem_map.mpr ⟨x, hx, rfl⟩
  obtain ⟨y, hy, heq⟩ := List.mem_map.mp hmem
  exact ⟨y, hy, heq.symm⟩

/-! ## Schedules in another order -/

namespace Schedule

variable {s : Schedule} {constraints : List TimingConstraint} {settings : Settings}
  {compiled compiled' : CompiledSchedule} {r r' : CompiledResource}

/-- The acquired contents, as the schedule determines them. -/
theorem mem_acquisitions_iff {library : WaveformLibrary Float}
    (h : s.compile library settings = .ok compiled) (key : ContentKey) :
    key ∈ compiled.acquisitions ↔
      ∃ p : Placement, .ok p ∈ s.placements settings ∧ p.acquires = true ∧ p.entry.key = key := by
  obtain ⟨placed, c, hplaced, hfold, hfinish⟩ := compile_eq_ok h
  rw [(Compilation.finish_eq_ok hfinish).2.1, Compilation.mem_acquisitions_iff hfold, hplaced]
  simp only [List.mem_map, Except.ok.injEq, exists_eq_right]

section Reorder

variable (hperm : s.constraints.Perm constraints)

include hperm

theorem placements_reorder (settings : Settings) :
    (s.placements settings).Perm ((s.reorder constraints).placements settings) :=
  hperm.flatMap_right _

theorem playedOn_reorder (settings : Settings) (name : String) (r : Resource) :
    (s.playedOn settings name r).Perm ((s.reorder constraints).playedOn settings name r) :=
  hperm.flatMap_right _

theorem pulses_reorder : s.pulses.Perm (s.reorder constraints).pulses := hperm.flatMap_right _

variable (h : s.compile .standard settings = .ok compiled)
  (h' : (s.reorder constraints).compile .standard settings = .ok compiled')

include h h'

theorem acquisitions_reorder (key : ContentKey) :
    key ∈ compiled.acquisitions ↔ key ∈ compiled'.acquisitions := by
  rw [mem_acquisitions_iff h, mem_acquisitions_iff h']
  simp only [(placements_reorder hperm settings).mem_iff]

/-- The same resources are compiled, in the same order. -/
theorem resources_reorder :
    compiled.resources.map (fun r => (r.name, r.resource)) = compiled'.resources.map fun r =>
      (r.name, r.resource) := by
  rw [resources_compile h, resources_compile h']
  refine List.filter_congr fun x _ => ?_
  rw [(playedOn_reorder hperm settings x.1 x.2).isEmpty_eq]

variable (hr : r ∈ compiled.resources) (hr' : r' ∈ compiled'.resources)
  (hresource : r.resource = r'.resource)

include hr hr' hresource

/-- **A content has the same samples in both orders.** They may come from different pulses, but
these have the same content. -/
theorem samples_reorder (hkeyed : s.KeyedByContent) {key : ContentKey} {w w' : Waveform Float}
    (hw : r.cache.get? key = some w) (hw' : r'.cache.get? key = some w') :
    w.Same w' ∧
      (Elementary.double.IsExactAtZero ∨ (∀ p ∈ s.pulses, p.sigmas ≠ some (-0.0)) → w = w') := by
  obtain ⟨q, hq, hrender⟩ := (isProjection_of_mem h hr).sampled key w hw
  obtain ⟨q', hq', hrender'⟩ := (isProjection_of_mem h' hr').sampled key w' hw'
  have hqkey : q.1.key = key := by simpa using List.find?_some hq
  have hqkey' : q'.1.key = key := by simpa using List.find?_some hq'
  obtain ⟨hmem, hcontent⟩ := pulse_of_mem_playedOn h hr (List.mem_of_find?_eq_some hq)
  obtain ⟨hmem', hcontent'⟩ := pulse_of_mem_playedOn h' hr' (List.mem_of_find?_eq_some hq')
  rw [← (pulses_reorder hperm).mem_iff] at hmem'
  have hsame : q.2.SameContent q'.2 :=
    hkeyed _ hmem _ hmem' (by rw [← hcontent, ← hcontent', hqkey, hqkey'])
  obtain ⟨written, modulations, hnormalize⟩ := exists_of_mem_pulses hmem
  obtain ⟨written', modulations', hnormalize'⟩ := exists_of_mem_pulses hmem'
  obtain ⟨u, u', hu, hu', hsamples, hexact⟩ :=
    hsame.render hnormalize hnormalize' .double r.resource.samplingRate
  have hwu : w = u := Except.ok.inj (hrender.symm.trans hu)
  have hwu' : w' = u' := by
    rw [← hresource] at hrender'
    exact Except.ok.inj (hrender'.symm.trans hu')
  rw [hwu, hwu']
  refine ⟨hsamples, fun hcase => hexact (hcase.imp_right fun hpositive => ?_)⟩
  exact ⟨hpositive _ hmem, hpositive _ hmem'⟩

theorem playsLike_of_mem (hkeyed : s.KeyedByContent) (hname : r.name = r'.name) :
    r.PlaysLike r' ∧
      (Elementary.double.IsExactAtZero ∨ (∀ p ∈ s.pulses, p.sigmas ≠ some (-0.0)) →
        ∀ key, r.cache.get? key = r'.cache.get? key) := by
  have hproj := isProjection_of_mem h hr
  have hproj' := isProjection_of_mem h' hr'
  have hplayed : (s.playedOn settings r.name r.resource).Perm
      ((s.reorder constraints).playedOn settings r'.name r'.resource) := by
    rw [← hname, ← hresource]
    exact playedOn_reorder hperm settings r.name r.resource
  have hkeys := hproj.mem_keys_iff hproj' hplayed
  -- a content is in both caches or in none
  have hboth : ∀ key, (r.cache.get? key = none ∧ r'.cache.get? key = none) ∨
      ∃ w w', r.cache.get? key = some w ∧ r'.cache.get? key = some w' := by
    intro key
    have hkey := hkeys key
    rw [OrderedMap.mem_keys_iff, OrderedMap.mem_keys_iff] at hkey
    cases hw : r.cache.get? key <;> cases hw' : r'.cache.get? key <;> simp_all
  have hsamples : ∀ key, Option.Rel Waveform.Same (r.cache.get? key) (r'.cache.get? key) := by
    intro key
    rcases hboth key with ⟨hnone, hnone'⟩ | ⟨w, w', hw, hw'⟩
    · rw [hnone, hnone']
      exact .none
    · rw [hw, hw']
      exact .some (samples_reorder hperm h h' hr hr' hresource hkeyed hw hw').1
  refine ⟨⟨hresource, ?_, hsamples, fun b key => ?_, hproj.entries_perm hproj' hplayed,
    hproj.entries_eq hproj' hplayed⟩, fun hcase key => ?_⟩
  · exact hproj.finish_eq hproj' hplayed fun key => Cache.samples_eq_of_rel (hsamples key)
  · have hbank : Memory.bankFor compiled.acquisitions key
        = Memory.bankFor compiled'.acquisitions key := by
      simp only [Memory.bankFor, acquisitions_reorder hperm h h' key]
    rw [memory_eq_layout h hr, memory_eq_layout h' hr', Memory.mem_bank_layout_iff,
      Memory.mem_bank_layout_iff, hkeys key, hbank]
  · rcases hboth key with ⟨hnone, hnone'⟩ | ⟨w, w', hw, hw'⟩
    · rw [hnone, hnone']
    · rw [hw, hw', (samples_reorder hperm h h' hr hr' hresource hkeyed hw hw').2 hcase]

end Reorder

/-- **The order of timing constraints does not change what is played.** The sequence takes the same
time, on the same resources, with the same contents acquired, and each resource plays the same. Its
samples are the very same doubles unless some drag pulse spans negative zero standard deviations;
and even then, if the elementary functions are exact at zero. -/
theorem reorder_compile (hkeyed : s.KeyedByContent) (hperm : s.constraints.Perm constraints)
    (h : s.compile .standard settings = .ok compiled)
    (h' : (s.reorder constraints).compile .standard settings = .ok compiled') :
    compiled.duration = compiled'.duration ∧
      compiled.resources.map CompiledResource.name = compiled'.resources.map CompiledResource.name ∧
      (∀ key, key ∈ compiled.acquisitions ↔ key ∈ compiled'.acquisitions) ∧
      ∀ r ∈ compiled.resources, ∀ r' ∈ compiled'.resources, r.name = r'.name →
        r.PlaysLike r' ∧
          (Elementary.double.IsExactAtZero ∨ (∀ p ∈ s.pulses, p.sigmas ≠ some (-0.0)) →
            ∀ key, r.cache.get? key = r'.cache.get? key) := by
  have hnames : compiled.resources.map CompiledResource.name
      = compiled'.resources.map CompiledResource.name := by
    have hpairs := congrArg (List.map Prod.fst) (resources_reorder hperm h h')
    rw [List.map_map, List.map_map] at hpairs
    exact hpairs
  have hplays : ∀ r ∈ compiled.resources, ∀ r' ∈ compiled'.resources, r.name = r'.name →
      r.PlaysLike r' ∧
        (Elementary.double.IsExactAtZero ∨ (∀ p ∈ s.pulses, p.sigmas ≠ some (-0.0)) →
          ∀ key, r.cache.get? key = r'.cache.get? key) := by
    intro r hr r' hr' hname
    have hresource := (isProjection_of_mem h hr).resource
    rw [hname] at hresource
    have hresource := Option.some.inj (hresource.symm.trans (isProjection_of_mem h' hr').resource)
    exact playsLike_of_mem hperm h h' hr hr' hresource hkeyed hname
  refine ⟨?_, hnames, acquisitions_reorder hperm h h', hplays⟩
  rw [duration_compile h, duration_compile h']
  refine peak_congr fun time => ?_
  constructor
  · intro htime
    obtain ⟨r, hr, rfl⟩ := List.mem_map.mp htime
    obtain ⟨r', hr', hname⟩ := exists_of_map_eq hnames hr
    exact List.mem_map.mpr ⟨r', hr', (hplays r hr r' hr' hname).1.finish.symm⟩
  · intro htime
    obtain ⟨r', hr', rfl⟩ := List.mem_map.mp htime
    obtain ⟨r, hr, hname⟩ := exists_of_map_eq hnames.symm hr'
    exact List.mem_map.mpr ⟨r, hr, (hplays r hr r' hr' hname.symm).1.finish⟩

/-- A qubit that is driven twice, the later time being listed first. -/
def twice : Schedule :=
  (((blank "twice").addResource (.plain "q0" .awg 1e9)).addPulse
    "drive" (.square "q0" 0 12e-9 0.5) 20e-9).place "drive" (some 0)

theorem keyedByContent_twice : twice.KeyedByContent := by
  have hpulses : ∀ p ∈ twice.pulses, p = .square "q0" 0 12e-9 ((1 : Nat) : Float) := by
    intro p hp
    simpa using (show p ∈ List.replicate 2 (Pulse.square "q0" 0 12e-9 ((1 : Nat) : Float)) from hp)
  intro p hp q hq _
  rw [hpulses p hp, hpulses q hq]
  exact .refl _

theorem reorder_compile_twice :
    ∃ compiled compiled', twice.KeyedByContent ∧
      twice.constraints.Perm [⟨"drive", some 0⟩, ⟨"drive", some 20e-9⟩] ∧
      twice.compile .standard .standard = .ok compiled ∧ compiled.duration = 32 ∧
      (twice.reorder [⟨"drive", some 0⟩, ⟨"drive", some 20e-9⟩]).compile .standard .standard
        = .ok compiled' ∧
      compiled.duration = compiled'.duration ∧
      ∀ r ∈ compiled.resources, ∀ r' ∈ compiled'.resources, r.name = r'.name → r.PlaysLike r' := by
  have hperm : twice.constraints.Perm [⟨"drive", some 0⟩, ⟨"drive", some 20e-9⟩] :=
    List.Perm.swap _ _ _
  have hvalue : (twice.compile .standard .standard).toOption.map CompiledSchedule.duration
      = some 32 := by
    decide +kernel
  have hvalue' :
      ((twice.reorder [⟨"drive", some 0⟩, ⟨"drive", some 20e-9⟩]).compile
        .standard .standard).toOption.map CompiledSchedule.duration = some 32 := by
    decide +kernel
  obtain ⟨compiled, h, hduration⟩ := exists_ok_of_toOption hvalue
  obtain ⟨compiled', h', -⟩ := exists_ok_of_toOption hvalue'
  obtain ⟨hdurations, -, -, hplays⟩ := reorder_compile keyedByContent_twice hperm h h'
  exact ⟨compiled, compiled', keyedByContent_twice, hperm, h, hduration, h', hdurations,
    fun r hr r' hr' hname => (hplays r hr r' hr' hname).1⟩

end Schedule

end Sequencer
