import Mathlib.Data.List.Dedup
import Sequencer.Proofs.Addressing
import Sequencer.Proofs.Content

/-!
# Which bank a content goes to

A pulse goes to the second bank if its channel ends in the acquisition suffix. The compiler does not
keep that with the pulse. It keeps one list of acquired contents for the whole schedule, fills it
while it walks over all resources, and reads it when the memory of each resource is laid out. A
content that were played by one pulse and acquired by another would drag both into the same bank.

This does not happen, because the channel is part of the content, with its suffix. Pulses with the
same key have the same channel, unless digests collide, and so either all of them acquire or none
does.

## Main definitions

* `Settings.bankOf` — the bank of a channel, as the settings have it
* `Schedule.pulses`, `Schedule.CollisionFree` — the pulses of a schedule, and that their digests do
  not collide

## Main results

* `Compilation.mem_acquisitions_iff` — the acquired contents
* `Schedule.exists_waveform`, `Schedule.exists_slot` — what is played has been sampled, and has a
  place
* `Schedule.bankFor_acquisitions` — the two banks are the same
-/

namespace Sequencer

/-! ## Acquired contents -/

namespace Settings

/-- The bank for the pulses of a channel: the second one if the channel ends in the suffix. -/
def bankOf (settings : Settings) (channel : String) : Bank :=
  if settings.acquisitionSuffix.toList <:+ channel.toList then .acq else .awg

theorem resolve_acquires_iff (settings : Settings) (channel : String) :
    (settings.resolve channel).2 = true ↔ settings.acquisitionSuffix.toList <:+ channel.toList := by
  rw [resolve]
  split
  · next h => simpa using List.isSuffixOf_iff_suffix.mp h
  · next h => simpa using fun hs => h (List.isSuffixOf_iff_suffix.mpr hs)

end Settings

namespace Compilation

variable {rule : TuningRule} {library : WaveformLibrary Float} {c c' : Compilation}
  {placed : List Placement}

theorem acquisitions_add {p : Placement} (h : c.add rule library p = .ok c') (key : ContentKey) :
    key ∈ c'.acquisitions ↔ key ∈ c.acquisitions ∨ p.acquires = true ∧ p.entry.key = key := by
  rw [add] at h
  obtain ⟨t, -, h⟩ := bind_eq_ok.mp h
  obtain rfl := pure_eq_ok.mp h
  show key ∈ (if p.acquires = true ∧ p.entry.key ∉ c.acquisitions then _ else _) ↔ _
  by_cases hnew : p.acquires = true ∧ p.entry.key ∉ c.acquisitions
  · rw [if_pos hnew, List.mem_append, List.mem_singleton, eq_comm (a := key)]
    simp [hnew.1]
  · rw [if_neg hnew]
    constructor
    · exact Or.inl
    · rintro (hmem | ⟨hacq, rfl⟩)
      · exact hmem
      · by_contra hkey
        exact hnew ⟨hacq, hkey⟩

/-- The acquired contents are those of the placements that acquire. -/
theorem mem_acquisitions_iff (h : placed.foldlM (add rule library) start = .ok c)
    (key : ContentKey) :
    key ∈ c.acquisitions ↔ ∃ p ∈ placed, p.acquires = true ∧ p.entry.key = key := by
  refine foldlM_induction (motive := fun done c =>
    key ∈ c.acquisitions ↔ ∃ p ∈ done, p.acquires = true ∧ p.entry.key = key) (by simp [start]) ?_ h
  intro done p c c' ih hadd
  rw [acquisitions_add hadd, ih]
  simp only [List.mem_append, List.mem_singleton, or_and_right, exists_or, exists_eq_left]

end Compilation

/-! ## Pulses of a schedule -/

/-- A pulse is normalized by its shape; without a function there is nothing to do. -/
theorem Pulse.normalize_eq_ok {p normalized : Pulse Float} {modulations : Modulations Float}
    (h : p.normalize = .ok (modulations, normalized)) :
    (p.function = none ∧ modulations = .none ∧ normalized = p) ∨
      ∃ function shape, p.function = some function ∧ Shape.ofName? function = some shape ∧
        modulations = (p.split shape).1 ∧ normalized = (p.split shape).2 := by
  rw [normalize] at h
  split at h
  · next hnone =>
    obtain ⟨hmodulations, hnormalized⟩ := Prod.mk.inj (Except.ok.inj h)
    exact Or.inl ⟨hnone, hmodulations.symm, hnormalized.symm⟩
  next function hfunction =>
  split at h
  · next shape hshape =>
    have hsplit := Except.ok.inj h
    exact Or.inr ⟨function, shape, hfunction, hshape, by rw [hsplit], by rw [hsplit]⟩
  · cases h

theorem Pulse.channel_of_normalize {p normalized : Pulse Float} {modulations : Modulations Float}
    (h : p.normalize = .ok (modulations, normalized)) : normalized.channel = p.channel := by
  rcases normalize_eq_ok h with ⟨-, -, hp⟩ | ⟨_, shape, -, -, -, hp⟩
  · rw [hp]
  · rw [hp]
    cases shape <;> rfl

namespace Schedule

variable {s : Schedule} {library : WaveformLibrary Float} {settings : Settings}
  {compiled : CompiledSchedule} {r : CompiledResource}

/-- The normalized pulses of all operations that are executed. -/
def pulses (s : Schedule) : List (Pulse Float) :=
  s.constraints.flatMap fun c =>
    match s.operations.get? c.operation with
    | some operation => operation.pulses.filterMap fun p => p.normalize.toOption.map Prod.snd
    | none => []

/-- The pulses of a schedule are normalized. -/
theorem exists_of_mem_pulses {p : Pulse Float} (hp : p ∈ s.pulses) :
    ∃ (written : Pulse Float) (modulations : Modulations Float), written.normalize
      = .ok (modulations, p) := by
  obtain ⟨c, -, hp⟩ := List.mem_flatMap.mp hp
  split at hp
  · obtain ⟨written, -, hwritten⟩ := List.mem_filterMap.mp hp
    obtain ⟨⟨modulations, _⟩, hok, rfl⟩ := exists_ok_of_toOption hwritten
    exact ⟨written, modulations, hok⟩
  · cases hp

/-- The digests of a schedule's contents do not collide: where they agree, so do the texts. -/
def CollisionFree (s : Schedule) : Prop :=
  ∀ p ∈ s.pulses, ∀ q ∈ s.pulses, p.contentKey = q.contentKey → p.contentText = q.contentText

/-- It is enough to look at each text once. -/
theorem collisionFree_iff_nodup (s : Schedule) :
    s.CollisionFree ↔ ((s.pulses.map Pulse.contentText).dedup.map Digest.sha1).Nodup := by
  rw [List.nodup_map_iff_inj_on (List.nodup_dedup _)]
  simp [CollisionFree, Pulse.contentKey]

instance decidableCollisionFree (s : Schedule) : Decidable s.CollisionFree :=
  decidable_of_iff _ s.collisionFree_iff_nodup.symm

/-- A placed pulse is one of the schedule, its entry has its key, and its own channel says where it
goes. -/
theorem pulse_of_mem_placements {p : Placement} (h : .ok p ∈ s.placements settings) :
    p.pulse ∈ s.pulses ∧ p.entry.key = p.pulse.contentKey ∧
      ∃ channel, p.pulse.channel = some channel ∧
        settings.resolve channel = (p.channel, p.acquires) := by
  obtain ⟨c, hc, operation, time, pulse, channel, modulations, hoperation, -, hpulse, hchannel,
    hnormalize, hresolve, -, hentry⟩ := mem_placements h
  refine ⟨List.mem_flatMap.mpr ⟨c, hc, ?_⟩, by rw [hentry], channel, ?_, hresolve⟩
  · rw [hoperation]
    exact List.mem_filterMap.mpr ⟨pulse, hpulse, by rw [hnormalize]; rfl⟩
  · rw [Pulse.channel_of_normalize hnormalize, hchannel]

section Placed

variable {placed : List Placement} (hplaced : s.placements settings = placed.map .ok)

include hplaced

theorem pulse_of_mem_placed {p : Placement} (h : p ∈ placed) :
    p.pulse ∈ s.pulses ∧ p.entry.key = p.pulse.contentKey ∧
      ∃ channel, p.pulse.channel = some channel ∧
        settings.resolve channel = (p.channel, p.acquires) := by
  have hmem : .ok p ∈ s.placements settings := by
    rw [hplaced]
    exact List.mem_map.mpr ⟨p, h, rfl⟩
  exact pulse_of_mem_placements hmem

theorem mem_playedOn_iff {name : String} {r : Resource} (hr : s.resources.get? name = some r)
    (q : Entry × Pulse Float) :
    q ∈ s.playedOn settings name r ↔ ∃ p ∈ placed, p.channel = name ∧ (p.entry, p.pulse) = q := by
  simp [playedOn_eq_map hplaced hr, and_assoc]

/-- Without collisions, placements with the same key have the same channel, resource and
function. -/
theorem channel_eq_of_key_eq (hfree : s.CollisionFree) {p q : Placement} (hp : p ∈ placed)
    (hq : q ∈ placed) (hkey : p.entry.key = q.entry.key) :
    p.channel = q.channel ∧ p.acquires = q.acquires ∧ p.pulse.function = q.pulse.function := by
  obtain ⟨hpmem, hpkey, channel, hpc, hpresolve⟩ := pulse_of_mem_placed hplaced hp
  obtain ⟨hqmem, hqkey, channel', hqc, hqresolve⟩ := pulse_of_mem_placed hplaced hq
  rw [hpkey, hqkey] at hkey
  obtain ⟨hchannel, -, hfunction, -⟩ := Pulse.parts_of_contentText (hfree _ hpmem _ hqmem hkey)
  rw [hpc, hqc, Option.some.injEq] at hchannel
  rw [hchannel, hqresolve] at hpresolve
  obtain ⟨hname, hacquires⟩ := Prod.mk.inj hpresolve
  exact ⟨hname.symm, hacquires.symm, hfunction⟩

end Placed

end Schedule

/-! ## Compiled resources -/

namespace Schedule

variable {s : Schedule} {library : WaveformLibrary Float} {settings : Settings}
  {compiled : CompiledSchedule} {r : CompiledResource}

/-- The memory of a compiled resource is laid out by the acquired contents of the whole schedule. -/
theorem memory_eq_layout (h : s.compile library settings = .ok compiled)
    (hr : r ∈ compiled.resources) : r.memory = .layout r.cache compiled.acquisitions := by
  obtain ⟨placed, c, -, -, hfinish⟩ := compile_eq_ok h
  obtain ⟨t, -, -, hok⟩ := exists_track_of_mem hfinish hr
  obtain ⟨memory, hallocate, hr⟩ := Compilation.finishTrack_eq_ok hok
  obtain ⟨hlayout, -⟩ := Memory.allocate_eq_ok hallocate
  rw [hr, (Compilation.finish_eq_ok hfinish).2.1]
  exact hlayout

/-- What is played on a compiled resource are pulses of the schedule, under their own keys. -/
theorem pulse_of_mem_playedOn (h : s.compile library settings = .ok compiled)
    (hr : r ∈ compiled.resources) {q : Entry × Pulse Float}
    (hq : q ∈ s.playedOn settings r.name r.resource) :
    q.2 ∈ s.pulses ∧ q.1.key = q.2.contentKey := by
  obtain ⟨placed, c, hplaced, -, -⟩ := compile_eq_ok h
  obtain ⟨p, hp, -, rfl⟩ := (mem_playedOn_iff hplaced (isProjection_of_mem h hr).resource q).mp hq
  obtain ⟨hmem, hkey, -⟩ := pulse_of_mem_placed hplaced hp
  exact ⟨hmem, hkey⟩

theorem mem_entries_of_mem_playedOn (h : s.compile library settings = .ok compiled)
    (hr : r ∈ compiled.resources) {q : Entry × Pulse Float}
    (hq : q ∈ s.playedOn settings r.name r.resource) : q.1 ∈ r.entries :=
  ((isProjection_of_mem h hr).mem_entries_iff q.1).mpr ⟨q, hq, rfl⟩

section Entries

variable {e : Entry} (h : s.compile library settings = .ok compiled) (hr : r ∈ compiled.resources)
  (he : e ∈ r.entries)

include h hr he

theorem key_mem_cache : e.key ∈ r.cache.keys := (isProjection_of_mem h hr).key_mem_cache he

/-- Everything that a compiled resource plays has been sampled. -/
theorem exists_waveform : ∃ w, r.cache.get? e.key = some w :=
  (isProjection_of_mem h hr).exists_waveform he

/-- Everything that a compiled resource plays has a place, in the bank of its content. -/
theorem exists_slot :
    ∃ k, r.memory.lookup e.key = some ⟨Memory.bankFor compiled.acquisitions e.key, k⟩ := by
  rw [memory_eq_layout h hr]
  exact Memory.exists_lookup_layout (key_mem_cache h hr he)

end Entries

/-- **The bank of a content is told by the channel of its own pulse.** -/
theorem bankFor_acquisitions (hfree : s.CollisionFree)
    (h : s.compile library settings = .ok compiled) (hr : r ∈ compiled.resources)
    {q : Entry × Pulse Float} (hq : q ∈ s.playedOn settings r.name r.resource) :
    ∃ channel, q.2.channel = some channel ∧
      Memory.bankFor compiled.acquisitions q.1.key = settings.bankOf channel := by
  obtain ⟨placed, c, hplaced, hfold, hfinish⟩ := compile_eq_ok h
  have hresource := (isProjection_of_mem h hr).resource
  obtain ⟨p, hp, -, rfl⟩ := (mem_playedOn_iff hplaced hresource q).mp hq
  obtain ⟨-, -, channel, hchannel, hresolve⟩ := pulse_of_mem_placed hplaced hp
  refine ⟨channel, hchannel, ?_⟩
  have hacquired : p.entry.key ∈ compiled.acquisitions ↔ p.acquires = true := by
    rw [(Compilation.finish_eq_ok hfinish).2.1, Compilation.mem_acquisitions_iff hfold]
    constructor
    · rintro ⟨other, hother, hacquires, hkey⟩
      rw [← (channel_eq_of_key_eq hplaced hfree hother hp hkey).2.1]
      exact hacquires
    · exact fun hacquires => ⟨p, hp, hacquires, rfl⟩
  have hsuffix : p.acquires = true ↔ settings.acquisitionSuffix.toList <:+ channel.toList := by
    rw [← Settings.resolve_acquires_iff, hresolve]
  simp only [Memory.bankFor, Settings.bankOf, hacquired, hsuffix]

end Schedule

end Sequencer
