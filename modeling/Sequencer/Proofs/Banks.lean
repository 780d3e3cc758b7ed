import Sequencer.Proofs.Layout
import Sequencer.Proofs.Shape

/-!
# Banks follow channels

Whether a pulse is played or acquired is told by the end of its channel, and by nothing else: no
other pulse of the schedule, on whatever resource and in whatever order, has a say in it. This is
the rule that users rely on, and nothing in the compiler states it. The program takes the bank from
the place of the waveform, the place comes from the layout, and the layout from a list that all
pulses of the schedule have filled.

`Layout` shows that this detour ends where it started. Here the rule is read off the configurations:
the instructions for an entry, the registers it sets and the bank that holds its waveform.

## Main definitions

* `Configuration.Follows` — an entry is in the bank of its channel
* `Configuration.FollowsChannels` — all entries of a program are

## Main results

* `WaveformData.mem_keys_ofBank_iff` — which contents a shipped bank has
* `Schedule.exists_played` — the pulses of a resource in the order of its entries
* `Schedule.banks_follow_channels` — banks follow channels
-/

namespace Sequencer

/-- A shipped bank has the paths of its own contents and no others. -/
theorem WaveformData.mem_keys_ofBank_iff {bank : Allocations} {key : ContentKey} {name : String}
    (hname : name ∈ names key) : name ∈ (ofBank bank).keys ↔ key ∈ bank.keys := by
  rw [keys_ofBank, List.mem_flatMap]
  constructor
  · rintro ⟨other, hother, hmem⟩
    rwa [eq_of_mem_names hname hmem]
  · intro hkey
    exact ⟨key, hkey, hname⟩

namespace Configuration

/-- The part of an entry is in the bank of its pulse's own channel: all its instructions that
address a bank address this one, and of the two shipped banks this one has the waveform. -/
def Follows (c : Configuration) (settings : Settings) (q : Entry × Pulse Float)
    (part : List Statement) : Prop :=
  ∃ channel k length, q.2.channel = some channel ∧
    (Slot.mk (settings.bankOf channel) k).IsPassage c.program.traits.immediateMax q.1.modulations
      (part.map Statement.instruction?) ∧
    WaveformData.HoldsAt (c.bank (settings.bankOf channel)) q.1.key k length ∧
    ∀ b, ∀ name ∈ WaveformData.names q.1.key, name ∈ (c.bank b).keys ↔ b = settings.bankOf channel

/-- A program is one part per entry, each in the bank of its channel, in a frame that addresses no
bank. -/
def FollowsChannels (c : Configuration) (settings : Settings)
    (played : List (Entry × Pulse Float)) : Prop :=
  ∃ (parts : List (List Statement)) (waits : List Nat),
    c.program.statements.map Statement.instruction?
      = [some .waitSync, some (.setMarker 1)] ++ parts.flatten.map Statement.instruction?
        ++ waits.map (fun duration => some (.wait duration))
        ++ [none, some (.jump CompiledResource.startLabel)] ∧
    List.Forall₂ (c.Follows settings) played parts

end Configuration

namespace Schedule

variable {s : Schedule} {library : WaveformLibrary Float} {settings : Settings}
  {compiled : CompiledSchedule} {r : CompiledResource}

/-- The entries of a compiled resource, each with the pulse that it comes from. -/
theorem exists_played (h : s.compile library settings = .ok compiled)
    (hr : r ∈ compiled.resources) :
    ∃ played, IsStableSort (fun q => q.1.time) (s.playedOn settings r.name r.resource) played ∧
      r.entries = played.map Prod.fst := by
  refine ⟨_, isStableSort_mergeSort (fun q : Entry × Pulse Float => q.1.time) _, ?_⟩
  obtain ⟨placed, c, hplaced, hfold, hfinish⟩ := compile_eq_ok h
  obtain ⟨t, hresource, ht, hok⟩ := exists_track_of_mem hfinish hr
  obtain ⟨memory, -, hr⟩ := Compilation.finishTrack_eq_ok hok
  have hentries : r.entries = t.entries.mergeSort fun a b => decide (a.time ≤ b.time) := by rw [hr]
  rw [hentries, (holds_track hplaced hfold hresource ht).entries]
  symm
  exact List.map_mergeSort fun _ _ _ _ => rfl

/-- The place of an entry is in the bank of its pulse's channel, and the waveform is in no other
bank. -/
theorem slot_of_mem_playedOn (hfree : s.CollisionFree)
    (h : s.compile library settings = .ok compiled) (hr : r ∈ compiled.resources)
    {q : Entry × Pulse Float} (hq : q ∈ s.playedOn settings r.name r.resource) :
    ∃ channel k, q.2.channel = some channel ∧
      r.memory.lookup q.1.key = some ⟨settings.bankOf channel, k⟩ ∧
      ∀ b, q.1.key ∈ (r.memory.bank b).keys ↔ b = settings.bankOf channel := by
  have he := mem_entries_of_mem_playedOn h hr hq
  obtain ⟨channel, hchannel, hbank⟩ := bankFor_acquisitions hfree h hr hq
  obtain ⟨k, hk⟩ := exists_slot h hr he
  rw [hbank] at hk
  refine ⟨channel, k, hchannel, hk, fun b => ?_⟩
  rw [memory_eq_layout h hr, Memory.mem_bank_layout_iff, hbank]
  exact ⟨fun hmem => hmem.2.symm, fun hb => ⟨key_mem_cache h hr he, hb.symm⟩⟩

/-- A part at the place of an entry follows the channel of the pulse that the entry comes from. -/
theorem follows_of_isPassage (hfree : s.CollisionFree)
    (h : s.compile library settings = .ok compiled) (hr : r ∈ compiled.resources)
    {q : Entry × Pulse Float} (hq : q ∈ s.playedOn settings r.name r.resource) {slot : Slot}
    {part : List Statement} (hslot : r.memory.lookup q.1.key = some slot) {p : Program}
    (hpart : slot.IsPassage p.traits.immediateMax q.1.modulations
      (part.map Statement.instruction?)) : (r.configure p).Follows settings q part := by
  obtain ⟨channel, k, hchannel, hlookup, hbanks⟩ := slot_of_mem_playedOn hfree h hr hq
  rw [hlookup, Option.some.injEq] at hslot
  subst hslot
  have hmemory := memory_eq_layout h hr
  obtain ⟨w, hw⟩ := exists_waveform h hr (mem_entries_of_mem_playedOn h hr hq)
  refine ⟨channel, k, w.length, hchannel, hpart,
    CompiledResource.holdsAt_of_lookup hmemory hlookup hw p, ?_⟩
  intro b name hname
  rw [CompiledResource.bank_configure, WaveformData.mem_keys_ofBank_iff hname]
  exact hbanks b

/-- **Banks follow channels.** In every configuration, the program is one part per pulse of the
schedule on this resource, in the order of their times. If the channel of the pulse ends in the
acquisition suffix, its part acquires, sets the registers of the second bank, and has its waveform
there and only there; otherwise all this is the first bank. The channel is that of the pulse itself,
whatever else the schedule plays. -/
theorem banks_follow_channels {configurations : List (String × Configuration)}
    (hfree : s.CollisionFree) (h : s.configure library settings = .ok configurations) :
    ∃ changes clean, settings.sanitize = .ok (changes, clean) ∧
      ∀ x ∈ configurations, ∃ resource played, s.resources.get? x.1 = some resource ∧
        IsStableSort (fun q => q.1.time) (s.playedOn clean x.1 resource) played ∧
        x.2.FollowsChannels clean played := by
  obtain ⟨changes, clean, compiled, hclean, hcompiled, hmap⟩ := configure_eq_ok h
  refine ⟨changes, clean, hclean, fun x hx => ?_⟩
  obtain ⟨r, hr, p, hp, rfl⟩ := exists_of_mem_right hmap hx
  obtain ⟨played, hsorted, hentries⟩ := exists_played hcompiled hr
  obtain ⟨parts, pad, waits, hstatements, hparts, -, hwaits⟩ := CompiledResource.program_passages hp
  refine ⟨r.resource, played, (isProjection_of_mem hcompiled hr).resource, hsorted, parts,
    waits, ?_, ?_⟩
  · show p.statements.map Statement.instruction? = _
    rw [hstatements]
    simp only [List.map_append, hwaits]
    simp [Statement.commented, Statement.instruction?]
  · rw [CompiledResource.Passages, hentries, List.forall₂_map_left_iff,
      ← CompiledResource.traits_program hp] at hparts
    have hplayed : ∀ q ∈ played, q ∈ s.playedOn clean r.name r.resource :=
      fun q hq => (hsorted.mem_iff q).mp hq
    refine ((List.forall₂_and_left played parts).mpr ⟨hplayed, hparts⟩).imp fun q part hq => ?_
    obtain ⟨hq, slot, hslot, hpart⟩ := hq
    exact follows_of_isPassage hfree hcompiled hr hq hslot hpart

theorem banks_follow_channels_sample :
    ∃ configurations, sample.CollisionFree ∧
      sample.configure .standard .standard = .ok configurations ∧
      (∃ x ∈ configurations, x.1 = "q1" ∧ x.2.program.timeline = [⟨20, .acq, 0, 1, 8⟩]) ∧
      (∃ x ∈ configurations, x.1 = "q0" ∧ x.2.program.timeline = [⟨0, .awg, 0, 1, 12⟩]) ∧
      ∀ x ∈ configurations, ∃ resource played, sample.resources.get? x.1 = some resource ∧
        IsStableSort (fun q => q.1.time) (sample.playedOn .standard x.1 resource) played ∧
        x.2.FollowsChannels .standard played := by
  have hfree : sample.CollisionFree := by decide +kernel
  obtain ⟨configurations, h, hvalue⟩ := configure_sample
  obtain ⟨changes, clean, hclean, hall⟩ := banks_follow_channels hfree h
  obtain ⟨-, rfl⟩ := Prod.mk.inj (Except.ok.inj hclean)
  have hmem : ∀ y ∈ [("q1", 28, [⟨20, .acq, 0, 1, 8⟩]), ("q0", 28, [⟨0, .awg, 0, 1, 12⟩])],
      ∃ x ∈ configurations, (x.1, x.2.program.duration, x.2.program.timeline) = y := by
    intro y hy
    rw [← hvalue] at hy
    exact List.mem_map.mp hy
  obtain ⟨x, hx, hx'⟩ := hmem _ List.mem_cons_self
  obtain ⟨y, hy, hy'⟩ := hmem _ (List.mem_cons_of_mem _ List.mem_cons_self)
  simp only [Prod.mk.injEq] at hx' hy'
  exact ⟨configurations, hfree, h, ⟨x, hx, hx'.1, hx'.2.2⟩, ⟨y, hy, hy'.1, hy'.2.2⟩, hall⟩

end Schedule

end Sequencer
