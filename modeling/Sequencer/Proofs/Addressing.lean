import Mathlib.Data.List.Nodup
import Sequencer.Proofs.LockStep
import Sequencer.Proofs.Numbering

/-!
# Programs address the memory they are shipped with

A configuration holds the waveforms of both banks and a program, and the program refers to waveforms
by the numbers of their slots. The two are made apart: the banks are written out by name, the
program takes its numbers from the layout of the memory. Nothing in a configuration ties a number to
a name, so a number that is off by one plays another waveform and reports no error.

The index that a content has been given is what ties them. It tells the two slots of the program,
and because indices are numbered in order, it is also where the two entries of the content stand in
the shipped bank. For this the names of the paths have to be distinct, or an entry would replace
another one and all later ones would move.

## Main definitions

* `Configuration.bank` — the shipped bank
* `WaveformData.HoldsAt`, `WaveformData.IsBank` — a content in a shipped bank, and the bank as a
  whole
* `Configuration.Addresses` — what an entry sounds is in the shipped banks

## Main results

* `WaveformData.entries_ofBank` — no path replaces another
* `WaveformData.isBank_ofBank` — the slots of a bank are numbered without a gap
* `Schedule.programs_address_shipped` — programs address the memory they are shipped with
-/

namespace Sequencer

/-- A bank of a configuration, by the names of the paths. -/
def Configuration.bank (c : Configuration) : Bank → OrderedMap String WaveformData
  | .awg => c.awg
  | .acq => c.acq

namespace WaveformData

/-- The two paths of a content are in a shipped bank, with so many samples each: at the position `k`
of the content, its entries are `2 k` and `2 k + 1`, and so are their slots. -/
structure HoldsAt (shipped : OrderedMap String WaveformData) (key : ContentKey) (k length : Nat) :
    Prop where
  inPhase : ∃ samples, shipped.entries[2 * k]? = some (key.text ++ "_I", ⟨samples, 2 * k⟩) ∧
    samples.length = length
  quadrature :
    ∃ samples, shipped.entries[2 * k + 1]? = some (key.text ++ "_Q", ⟨samples, 2 * k + 1⟩) ∧
    samples.length = length

/-- A shipped bank is the paths of distinct contents, and its slots are numbered from zero without a
gap. -/
def IsBank (shipped : OrderedMap String WaveformData) : Prop :=
  ∃ keys : List ContentKey, keys.Nodup ∧
    shipped.entries.map (fun entry => entry.2.index) = List.range (2 * keys.length) ∧
    ∀ k key, keys[k]? = some key → ∃ length, HoldsAt shipped key k length

/-! ## Names of paths -/

/-- The names of the two paths of a content. -/
def names (key : ContentKey) : List String := [key.text ++ "_I", key.text ++ "_Q"]

/-- Equal texts whose ends have the same length have the same beginning. -/
theorem eq_of_append_eq {a b x y : String} (hlength : x.length = y.length) (h : a ++ x = b ++ y) :
    a = b := by
  have hchars : a.toList ++ x.toList = b.toList ++ y.toList := by
    rw [← String.toList_append, ← String.toList_append, h]
  exact String.toList_inj.mp
    (List.append_inj_left' hchars (by rwa [String.length_toList, String.length_toList]))

theorem names_nodup (key : ContentKey) : (names key).Nodup := by
  simp [names]

/-- A name tells its content. -/
theorem eq_of_mem_names {key other : ContentKey} {name : String} (h : name ∈ names key)
    (hother : name ∈ names other) : key = other := by
  obtain ⟨path, hpath, rfl⟩ : ∃ path : String, path.length = 2 ∧ name = key.text ++ path := by
    rcases List.mem_cons.mp h with rfl | h
    · exact ⟨"_I", rfl, rfl⟩
    · exact ⟨"_Q", rfl, List.mem_singleton.mp h⟩
  have htext : key.text = other.text := by
    rcases List.mem_cons.mp hother with h | h
    · exact eq_of_append_eq hpath h
    · exact eq_of_append_eq hpath (List.mem_singleton.mp h)
  cases key
  cases other
  exact congrArg ContentKey.mk htext

/-! ## Entries of a shipped bank -/

theorem map_fst_paths (bank : Allocations) :
    (bank.entries.flatMap fun x => paths x.1 x.2).map Prod.fst = bank.keys.flatMap names := by
  rw [List.map_flatMap, OrderedMap.keys, List.flatMap_map]
  rfl

/-- **No path replaces another.** The entries of a shipped bank are the paths of its waveforms, in
order. -/
theorem entries_ofBank (bank : Allocations) :
    (ofBank bank).entries = bank.entries.flatMap fun x => paths x.1 x.2 := by
  refine OrderedMap.entries_ofList ?_
  show ((bank.entries.flatMap fun x => paths x.1 x.2).map Prod.fst).Nodup
  rw [map_fst_paths, List.nodup_flatMap]
  refine ⟨fun key _ => names_nodup key, List.Pairwise.imp ?_ bank.distinct⟩
  exact fun hne name hname hother => hne (eq_of_mem_names hname hother)

theorem keys_ofBank (bank : Allocations) : (ofBank bank).keys = bank.keys.flatMap names := by
  rw [OrderedMap.keys, entries_ofBank, map_fst_paths]

/-- Where the paths of a waveform stand is told by where the waveform stands, and their slots by its
index. -/
theorem getElem?_ofBank {bank : Allocations} {k : Nat} {key : ContentKey} {a : Allocation}
    (h : bank.entries[k]? = some (key, a)) :
    (ofBank bank).entries[2 * k]? = some (key.text ++ "_I", ⟨a.waveform.inPhase, 2 * a.index⟩) ∧
      (ofBank bank).entries[2 * k + 1]?
        = some (key.text ++ "_Q", ⟨a.waveform.quadrature, 2 * a.index + 1⟩) := by
  rw [entries_ofBank]
  generalize bank.entries = entries at h
  induction entries generalizing k with
  | nil => simp at h
  | cons x entries ih =>
    cases k with
    | zero =>
      obtain rfl := Option.some.inj h
      exact ⟨rfl, rfl⟩
    | succ k => exact ih h

section Numbered

variable {bank : Allocations} {entries : List (ContentKey × Waveform Float)}
  (h : bank.entries = number entries)

include h

theorem holdsAt_ofBank {k : Nat} {key : ContentKey} {w : Waveform Float}
    (hk : entries[k]? = some (key, w)) : HoldsAt (ofBank bank) key k w.length := by
  have hallocation : bank.entries[k]? = some (key, ⟨k, w⟩) := by
    rw [h, getElem?_number, hk]
    rfl
  obtain ⟨hI, hQ⟩ := getElem?_ofBank hallocation
  exact ⟨⟨_, hI, w.length_inPhase⟩, ⟨_, hQ, w.length_quadrature⟩⟩

theorem map_index_ofBank :
    (ofBank bank).entries.map (fun entry => entry.2.index) = List.range (2 * entries.length) := by
  have hpairs : (ofBank bank).entries.map (fun entry => entry.2.index)
      = (bank.entries.map fun x => x.2.index).flatMap fun k => [2 * k, 2 * k + 1] := by
    rw [entries_ofBank, List.map_flatMap, List.flatMap_map]
    rfl
  rw [hpairs, h, map_index_number, flatMap_range_pair]

theorem isBank_ofBank (hdistinct : (entries.map Prod.fst).Nodup) : IsBank (ofBank bank) := by
  refine ⟨entries.map Prod.fst, hdistinct, ?_, fun k key hk => ?_⟩
  · rw [List.length_map, map_index_ofBank h]
  · rw [List.getElem?_map, Option.map_eq_some_iff] at hk
    obtain ⟨⟨key, w⟩, hk, rfl⟩ := hk
    exact ⟨w.length, holdsAt_ofBank h hk⟩

end Numbered

end WaveformData

/-! ## What a program addresses -/

/-- What an entry sounds is in the shipped banks: a run over the two slots that hold the entry's own
content, for no longer than there are samples. -/
def Configuration.Addresses (c : Configuration) (e : Entry) (run : List Sounding) : Prop :=
  ∃ slot start stop length, run ≠ [] ∧ Run slot start run stop ∧
    WaveformData.HoldsAt (c.bank slot.bank) e.key slot.index length ∧ stop ≤ start + length

namespace CompiledResource

variable {r : CompiledResource} {acquisitions : List ContentKey}

theorem bank_configure (r : CompiledResource) (p : Program) (b : Bank) :
    (r.configure p).bank b = WaveformData.ofBank (r.memory.bank b) := by
  cases b <;> rfl

/-- The slot of a content holds the waveform that the resource plays for it. -/
theorem holdsAt_of_lookup (hmemory : r.memory = .layout r.cache acquisitions) {key : ContentKey}
    {slot : Slot} (hslot : r.memory.lookup key = some slot) {w : Waveform Float}
    (hw : r.cache.get? key = some w) (p : Program) :
    WaveformData.HoldsAt ((r.configure p).bank slot.bank) key slot.index w.length := by
  rw [hmemory] at hslot
  obtain ⟨w', hk⟩ := Memory.lookup_layout_eq_some_iff.mp hslot
  obtain rfl : w' = w := by
    have hcached := (Memory.of_getElem?_share hk).1
    rw [hw] at hcached
    exact (Option.some.inj hcached).symm
  rw [bank_configure, hmemory]
  exact WaveformData.holdsAt_ofBank (Memory.entries_layout r.cache acquisitions slot.bank) hk

theorem addresses_of_sounds (hmemory : r.memory = .layout r.cache acquisitions) {e : Entry}
    {next : Option Entry} {run : List Sounding} (h : r.Sounds e next run) (p : Program) :
    (r.configure p).Addresses e run := by
  obtain ⟨w, slot, start, stop, hw, hslot, hne, hrun, hstart, hstop⟩ := h
  have hspan := span_le w.length e next
  exact ⟨slot, start, stop, w.length, hne, hrun, holdsAt_of_lookup hmemory hslot hw p, by omega⟩

/-- The program of a resource addresses the banks that are shipped with it. -/
theorem addresses_program {duration : Int} {settings : Settings} {p : Program}
    (hmemory : r.memory = .layout r.cache acquisitions)
    (sorted : r.entries.Pairwise fun a b => a.time ≤ b.time)
    (h : r.program duration settings = .ok p) :
    Performance (fun e _ run => (r.configure p).Addresses e run) r.entries p.timeline := by
  obtain ⟨-, body, hbody, htimeline, -⟩ := program_eq_walk h
  obtain ⟨hperf, -⟩ := walk_performs Int.natCast_zero.symm sorted hbody
  rw [htimeline]
  exact hperf.mono fun e _ next run hsounds => addresses_of_sounds hmemory hsounds p

end CompiledResource

theorem Settings.limitBanks_of_sanitize {settings clean : Settings} {changes : List Settings.Change}
    (h : settings.sanitize = .ok (changes, clean)) : clean.limitBanks = settings.limitBanks := by
  simp only [sanitize] at h
  split at h
  · cases h
  split at h
  · obtain ⟨-, rfl⟩ := Prod.mk.inj (Except.ok.inj h)
    rfl
  · obtain ⟨-, rfl⟩ := Prod.mk.inj (Except.ok.inj h)
    rfl

theorem Resource.Kind.slotCapacity_traits (kind : Resource.Kind) :
    kind.traits.slotCapacity = 1024 := by
  cases kind <;> rfl

namespace Schedule

variable {s : Schedule} {library : WaveformLibrary Float} {settings : Settings}

/-- The memory of a compiled resource is the layout of its cache, within the capacity of the
sequencer. -/
theorem memory_of_mem {compiled : CompiledSchedule} (h : s.compile library settings = .ok compiled)
    {r : CompiledResource} (hr : r ∈ compiled.resources) :
    ∃ acquisitions, r.memory = .layout r.cache acquisitions ∧
      (settings.limitBanks = true → ∀ b, r.memory.slots b ≤ 1024) := by
  obtain ⟨placed, c, -, -, hfinish⟩ := compile_eq_ok h
  obtain ⟨t, -, -, hok⟩ := exists_track_of_mem hfinish hr
  obtain ⟨memory, hallocate, hr⟩ := Compilation.finishTrack_eq_ok hok
  obtain ⟨hlayout, hfits⟩ := Memory.allocate_eq_ok hallocate
  rw [hr]
  refine ⟨c.acquisitions, hlayout, fun hlimit => hfits 1024 ?_⟩
  rw [if_pos hlimit, Resource.Kind.slotCapacity_traits]

/-- **Programs address the memory they are shipped with.** In every configuration the slots of a
bank are numbered in order, two for each content, and the program is one run per entry of the
schedule, over the slots of the entry's own content. Where banks are limited, no slot is beyond the
limit. -/
theorem programs_address_shipped {configurations : List (String × Configuration)}
    (h : s.configure library settings = .ok configurations) :
    ∃ changes clean, settings.sanitize = .ok (changes, clean) ∧
      ∀ x ∈ configurations, (∀ b, WaveformData.IsBank (x.2.bank b)) ∧
        (∃ resource entries, s.resources.get? x.1 = some resource ∧
          IsStableSort Entry.time ((s.playedOn clean x.1 resource).map Prod.fst) entries ∧
          Performance (fun e _ run => x.2.Addresses e run) entries x.2.program.timeline) ∧
        (settings.limitBanks = true → ∀ b, ∀ w ∈ (x.2.bank b).entries, w.2.index < 1024) := by
  obtain ⟨changes, clean, compiled, hclean, hcompiled, hmap⟩ := configure_eq_ok h
  refine ⟨changes, clean, hclean, fun x hx => ?_⟩
  obtain ⟨r, hr, p, hp, rfl⟩ := exists_of_mem_right hmap hx
  obtain ⟨acquisitions, hmemory, hfits⟩ := memory_of_mem hcompiled hr
  have hnumbered : ∀ b, (r.memory.bank b).entries
      = number (Memory.share r.cache acquisitions b) := by
    intro b
    rw [hmemory, Memory.entries_layout]
  refine ⟨fun b => ?_, ⟨r.resource, r.entries, ?_⟩, fun hlimit b w hw => ?_⟩
  · rw [CompiledResource.bank_configure]
    exact WaveformData.isBank_ofBank (hnumbered b) (Memory.nodup_share r.cache acquisitions b)
  · have hproj := isProjection_of_mem hcompiled hr
    exact ⟨hproj.resource, hproj.entries,
      CompiledResource.addresses_program hmemory hproj.entries.ascending hp⟩
  · have hindex : w.2.index ∈ ((r.configure p).bank b).entries.map fun entry => entry.2.index :=
      List.mem_map.mpr ⟨w, hw, rfl⟩
    rw [CompiledResource.bank_configure, WaveformData.map_index_ofBank (hnumbered b),
      List.mem_range, Memory.length_share, ← Memory.slots_layout, ← hmemory] at hindex
    exact Nat.lt_of_lt_of_le hindex (hfits (Settings.limitBanks_of_sanitize hclean ▸ hlimit) b)

theorem programs_address_shipped_sample :
    ∃ configurations, sample.configure .standard .standard = .ok configurations ∧
      (∃ x ∈ configurations, x.1 = "q1" ∧ x.2.program.timeline = [⟨20, .acq, 0, 1, 8⟩]) ∧
      ∀ x ∈ configurations, (∀ b, WaveformData.IsBank (x.2.bank b)) ∧
        (∃ resource entries, sample.resources.get? x.1 = some resource ∧
          IsStableSort Entry.time ((sample.playedOn .standard x.1 resource).map Prod.fst) entries ∧
          Performance (fun e _ run => x.2.Addresses e run) entries x.2.program.timeline) ∧
        ∀ b, ∀ w ∈ (x.2.bank b).entries, w.2.index < 1024 := by
  obtain ⟨configurations, h, hvalue⟩ := configure_sample
  have hmem : ("q1", 28, [⟨20, .acq, 0, 1, 8⟩]) ∈
      configurations.map fun x => (x.1, x.2.program.duration, x.2.program.timeline) := by
        simp [hvalue]
  obtain ⟨x, hx, hx'⟩ := List.mem_map.mp hmem
  simp only [Prod.mk.injEq] at hx'
  obtain ⟨changes, clean, hclean, hall⟩ := programs_address_shipped h
  obtain ⟨-, rfl⟩ := Prod.mk.inj (Except.ok.inj hclean)
  refine ⟨configurations, h, ⟨x, hx, hx'.1, hx'.2.2⟩, fun x hx => ?_⟩
  obtain ⟨hbanks, hperf, hlimit⟩ := hall x hx
  exact ⟨hbanks, hperf, hlimit rfl⟩

end Schedule

end Sequencer
