import Sequencer.Proofs.Layout

/-!
# Longer schedules

A schedule is often played, then extended and played again. Nothing of what has been there should
move: the numbers by which a program addresses its waveforms are to stay, and so is the order of
what it does.

Appended constraints may add contents, resources and acquisitions, and their entries may go between
earlier ones. That nothing moves is due to first-seen order. The contents of the shorter schedule
are seen first, so they are the first ones of the longer cache. Banks are told apart by the channels
of the contents' own pulses, not by what else is acquired, so a bank of the longer schedule starts
with the bank of the shorter one. Only entries are interleaved.

## Main definitions

* `Schedule.extend` — a schedule with more timing constraints
* `CompiledResource.Extends` — what has been compiled is still there, at its place

## Main results

* `CompiledResource.IsProjection.cache_isPrefix`, `Memory.bank_layout_isPrefix` — caches and banks
  only grow at the end
* `Schedule.extend_compile` — extending a schedule moves nothing
-/

namespace Sequencer

/-! ## Maps and places -/

namespace OrderedMap

variable {κ α : Type} [DecidableEq κ]

/-- A map is its keys with what is found under them. -/
theorem entries_eq_filterMap (m : OrderedMap κ α) :
    m.entries = m.keys.filterMap fun key => (m.get? key).map fun value => (key, value) := by
  have hentry : ∀ entry ∈ m.entries, ((m.get? entry.1).map fun value => (entry.1, value))
      = some entry := by
    intro entry hentry
    rw [(m.mem_entries_iff entry.1 entry.2).mp hentry, Option.map_some]
  rw [keys, List.filterMap_map]
  exact ((List.filterMap_congr hentry).trans List.filterMap_some).symm

/-- A map whose keys go on after those of another one, with the same values so far, goes on after
its entries. -/
theorem entries_isPrefix {m n : OrderedMap κ α} (hkeys : m.keys <+: n.keys)
    (hget : ∀ key ∈ m.keys, n.get? key = m.get? key) : m.entries <+: n.entries := by
  obtain ⟨rest, hrest⟩ := hkeys
  rw [n.entries_eq_filterMap, ← hrest, List.filterMap_append, m.entries_eq_filterMap]
  refine ⟨_, congrArg (· ++ _) (List.filterMap_congr fun key hkey => ?_)⟩
  rw [hget key hkey]

end OrderedMap

namespace Memory

section Prefix

variable {c c' : Cache} {acquisitions acquisitions' : List ContentKey}
  (hentries : c.entries <+: c'.entries)
  (hbank : ∀ key ∈ c.keys, bankFor acquisitions' key = bankFor acquisitions key)

include hentries hbank

/-- **The share of a bank only grows at the end**, if the cache does and no content changes its
bank. -/
theorem share_isPrefix (b : Bank) : share c acquisitions b <+: share c' acquisitions' b := by
  obtain ⟨rest, hrest⟩ := hentries
  rw [share, share, ← hrest, List.filter_append]
  refine ⟨_, congrArg (· ++ _) (List.filter_congr fun entry hentry => ?_)⟩
  rw [hbank entry.1 (List.mem_map.mpr ⟨entry, hentry, rfl⟩)]

/-- So the bank does: what has an index keeps it. -/
theorem bank_layout_isPrefix (b : Bank) :
    ((layout c acquisitions).bank b).entries <+: ((layout c' acquisitions').bank b).entries := by
  rw [entries_layout, entries_layout]
  exact number_isPrefix (share_isPrefix hentries hbank b)

theorem lookup_layout_of_isPrefix {key : ContentKey} {slot : Slot}
    (h : (layout c acquisitions).lookup key = some slot) :
    (layout c' acquisitions').lookup key = some slot := by
  obtain ⟨w, hw⟩ := lookup_layout_eq_some_iff.mp h
  obtain ⟨rest, hrest⟩ := share_isPrefix hentries hbank slot.bank
  refine lookup_layout_eq_some_iff.mpr ⟨w, ?_⟩
  rw [← hrest, List.getElem?_append_left (List.getElem?_eq_some_iff.mp hw).1, hw]

end Prefix

end Memory

/-! ## Resources of longer schedules -/

namespace CompiledResource.IsProjection

variable {library : WaveformLibrary Float} {s s' : Schedule} {settings : Settings}
  {r r' : CompiledResource}

variable (h : r.IsProjection library s settings) (h' : r'.IsProjection library s' settings)
  (hplayed : s.playedOn settings r.name r.resource <+: s'.playedOn settings r'.name r'.resource)

include h h' hplayed

theorem entries_sublist : r.entries.Sublist r'.entries :=
  h.entries.sublist (hplayed.sublist.map Prod.fst) h'.entries

variable (hresource : r'.resource = r.resource)

include hresource

/-- A content is sampled from the same pulse. -/
theorem get?_cache_of_isPrefix {key : ContentKey} {w : Waveform Float}
    (hw : r.cache.get? key = some w) : r'.cache.get? key = some w := by
  obtain ⟨rest, hrest⟩ := hplayed
  obtain ⟨q, hq, hrender⟩ := h.sampled key w hw
  rw [h'.get?_cache, ← hrest, List.find?_append, hq, hresource]
  simp [hrender, Except.toOption]

/-- **Caches only grow at the end.** -/
theorem cache_isPrefix : r.cache.entries <+: r'.cache.entries := by
  refine OrderedMap.entries_isPrefix ?_ fun key hkey => ?_
  · obtain ⟨rest, hrest⟩ := hplayed
    rw [h.keys, h'.keys, ← hrest, List.map_append, List.eraseDups_append]
    exact List.prefix_append _ _
  · obtain ⟨w, hw⟩ := Option.isSome_iff_exists.mp ((OrderedMap.mem_keys_iff _ _).mp hkey)
    rw [hw, get?_cache_of_isPrefix h h' hplayed hresource hw]

theorem finish_le : r.finish ≤ r'.finish := by
  rw [h.finish]
  refine peak_le_iff.mpr ⟨h'.finish_nonneg, fun time htime => ?_⟩
  obtain ⟨e, he, rfl⟩ := List.mem_map.mp htime
  obtain ⟨w, hw⟩ := h.exists_waveform he
  rw [Cache.samples_of_get? hw]
  exact h'.end_le_finish ((entries_sublist h h' hplayed).subset he)
    (get?_cache_of_isPrefix h h' hplayed hresource hw)

end CompiledResource.IsProjection

/-! ## Longer schedules -/

/-- The same schedule with more timing constraints after its own. -/
def Schedule.extend (s : Schedule) (more : List TimingConstraint) : Schedule :=
  { s with constraints := s.constraints ++ more }

/-- What has been compiled for a resource is still there, and where it was. -/
structure CompiledResource.Extends (r longer : CompiledResource) : Prop where
  name : longer.name = r.name
  resource : longer.resource = r.resource
  /-- Waveforms only follow those that were there. -/
  cache : r.cache.entries <+: longer.cache.entries
  /-- So they do in each bank. -/
  bank : ∀ b, (r.memory.bank b).entries <+: (longer.memory.bank b).entries
  /-- A content keeps its bank and its index. -/
  lookup : ∀ key slot, r.memory.lookup key = some slot → longer.memory.lookup key = some slot
  /-- Entries may come between others. -/
  entries : r.entries.Sublist longer.entries
  finish : r.finish ≤ longer.finish

namespace Schedule

variable {s : Schedule} {more : List TimingConstraint} {library : WaveformLibrary Float}
  {settings : Settings} {compiled compiled' : CompiledSchedule} {r r' : CompiledResource}

theorem playedOn_extend (s : Schedule) (more : List TimingConstraint) (settings : Settings)
    (name : String) (r : Resource) :
    s.playedOn settings name r <+: (s.extend more).playedOn settings name r := by
  rw [playedOn, playedOn, extend, List.flatMap_append]
  exact List.prefix_append _ _

theorem CollisionFree.of_extend (h : (s.extend more).CollisionFree) : s.CollisionFree := by
  have hmem : ∀ p ∈ s.pulses, p ∈ (s.extend more).pulses := by
    intro p hp
    rw [pulses, extend, List.flatMap_append]
    exact List.mem_append_left _ hp
  intro p hp q hq
  exact h p (hmem p hp) q (hmem q hq)

/-- A content stays in its bank, whatever else is acquired. -/
theorem bankFor_extend (hfree : (s.extend more).CollisionFree)
    (h : s.compile library settings = .ok compiled) (hr : r ∈ compiled.resources)
    (h' : (s.extend more).compile library settings = .ok compiled') (hr' : r' ∈ compiled'.resources)
    (hplayed : s.playedOn settings r.name r.resource <+: (s.extend more).playedOn settings r'.name
      r'.resource)
    {key : ContentKey} (hkey : key ∈ r.cache.keys) :
    Memory.bankFor compiled'.acquisitions key = Memory.bankFor compiled.acquisitions key := by
  rw [(isProjection_of_mem h hr).keys, List.mem_eraseDups] at hkey
  obtain ⟨q, hq, rfl⟩ := List.mem_map.mp hkey
  obtain ⟨channel, hchannel, hbank⟩ := bankFor_acquisitions hfree.of_extend h hr hq
  obtain ⟨channel', hchannel', hbank'⟩ := bankFor_acquisitions hfree h' hr' (hplayed.subset hq)
  rw [hchannel, Option.some.injEq] at hchannel'
  rw [hbank', hbank, hchannel']

/-- Every resource of a schedule is extended by a resource of the longer one. -/
theorem exists_extends (hfree : (s.extend more).CollisionFree)
    (h : s.compile library settings = .ok compiled)
    (h' : (s.extend more).compile library settings = .ok compiled') (hr : r ∈ compiled.resources) :
    ∃ longer ∈ compiled'.resources, r.Extends longer := by
  have hproj := isProjection_of_mem h hr
  obtain ⟨hmem, hne⟩ := (exists_compiled_iff h r.name r.resource).mp ⟨r, hr, rfl, rfl⟩
  have hplayed := playedOn_extend s more settings r.name r.resource
  have hne' : (s.extend more).playedOn settings r.name r.resource ≠ [] := by
    obtain ⟨q, hq⟩ := List.exists_mem_of_ne_nil _ hne
    exact List.ne_nil_of_mem (hplayed.subset hq)
  obtain ⟨longer, hlonger, hname, hresource⟩ :=
    (exists_compiled_iff h' r.name r.resource).mpr ⟨hmem, hne'⟩
  have hproj' := isProjection_of_mem h' hlonger
  have hplayed : s.playedOn settings r.name r.resource
      <+: (s.extend more).playedOn settings longer.name longer.resource := by
    rw [hname, hresource]
    exact hplayed
  have hcache := hproj.cache_isPrefix hproj' hplayed hresource
  have hbank : ∀ key ∈ r.cache.keys,
      Memory.bankFor compiled'.acquisitions key = Memory.bankFor compiled.acquisitions key :=
    fun key => bankFor_extend hfree h hr h' hlonger hplayed
  refine ⟨longer, hlonger, hname, hresource, hcache, fun b => ?_, fun key slot hslot => ?_,
    hproj.entries_sublist hproj' hplayed, hproj.finish_le hproj' hplayed hresource⟩
  · rw [memory_eq_layout h hr, memory_eq_layout h' hlonger]
    exact Memory.bank_layout_isPrefix hcache hbank b
  · rw [memory_eq_layout h hr] at hslot
    rw [memory_eq_layout h' hlonger]
    exact Memory.lookup_layout_of_isPrefix hcache hbank hslot

/-- **Extending a schedule moves nothing.** Every resource is still there. Its waveforms and both
its banks only grow at the end, so that each content keeps its place; its entries are still played
in their order; and neither the resource nor the sequence ends earlier. -/
theorem extend_compile (hfree : (s.extend more).CollisionFree)
    (h : s.compile library settings = .ok compiled)
    (h' : (s.extend more).compile library settings = .ok compiled') :
    compiled.duration ≤ compiled'.duration ∧
      ∀ r ∈ compiled.resources, ∃ longer ∈ compiled'.resources, r.Extends longer := by
  refine ⟨?_, fun r hr => exists_extends hfree h h' hr⟩
  rw [duration_compile h, duration_compile h']
  refine peak_le_iff.mpr ⟨peak_nonneg _, fun time htime => ?_⟩
  obtain ⟨r, hr, rfl⟩ := List.mem_map.mp htime
  obtain ⟨longer, hlonger, hext⟩ := exists_extends hfree h h' hr
  exact hext.finish.trans (le_peak (List.mem_map.mpr ⟨longer, hlonger, rfl⟩))

/-- A qubit that is read out. It could be driven first, but is not. -/
def readout : Schedule :=
  (((blank "readout").addResource (.plain "q0" .acq 1e9)).addPulse
    "answer" (.square "q0_READOUT" 0 8e-9 1) 16e-9).addOperation "drive" [.square "q0" 0 12e-9 0.5]

/-- The drive comes first and has a waveform of its own, in the other bank. -/
theorem extend_compile_readout :
    ∃ compiled compiled', (readout.extend [⟨"drive", some 0⟩]).CollisionFree ∧
      readout.compile .standard .standard = .ok compiled ∧ compiled.duration = 24 ∧
      (readout.extend [⟨"drive", some 0⟩]).compile .standard .standard = .ok compiled' ∧
      compiled'.resources.map (fun r => (r.memory.awg.size, r.memory.acq.size)) = [(1, 1)] ∧
      compiled.duration ≤ compiled'.duration ∧
      ∀ r ∈ compiled.resources, ∃ longer ∈ compiled'.resources, r.Extends longer := by
  have hfree : (readout.extend [⟨"drive", some 0⟩]).CollisionFree := by decide +kernel
  have hvalue : (readout.compile .standard .standard).toOption.map CompiledSchedule.duration
      = some 24 := by
    decide +kernel
  have hvalue' : ((readout.extend [⟨"drive", some 0⟩]).compile .standard .standard).toOption.map
      (fun c => c.resources.map fun r => (r.memory.awg.size, r.memory.acq.size))
        = some [(1, 1)] := by
    decide +kernel
  obtain ⟨compiled, h, hduration⟩ := exists_ok_of_toOption hvalue
  obtain ⟨compiled', h', hresources⟩ := exists_ok_of_toOption hvalue'
  exact ⟨compiled, compiled', hfree, h, hduration, h', hresources, extend_compile hfree h h'⟩

end Schedule

end Sequencer
