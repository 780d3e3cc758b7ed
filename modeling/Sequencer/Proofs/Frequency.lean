import Sequencer.Proofs.Agreement
import Sequencer.Proofs.Doubles
import Sequencer.Proofs.Executed
import Sequencer.Proofs.Sharing

/-!
# One frequency for each oscillator

A resource has one oscillator, and its pulses may ask for a frequency. The first that asks for one
other than zero decides it. On a resource where all pulses share the oscillator, a pulse that asks
for another frequency has to be refused. The compiler looks at a request only where it meets a
content for the first time, and it treats a zero as if nothing had been set, so it is not plain that
a request cannot slip through.

Requests are therefore followed on their own, without tracks and caches. `InTune` says what a
frequency has become after a list of requests, and one step either keeps it or adopts a new one. A
request that is not looked at is one that has been made before, by a pulse with the same key, and a
frequency that is in tune with a request stays in tune when the request is repeated.

## Main definitions

* `InTune` — the frequency of an oscillator after a list of requests
* `Schedule.requestsOn` — what a schedule asks of an oscillator
* `Schedule.FrequenciesKeyed` — pulses with the same key ask for the same frequency
* `Schedule.frequencyAfter` — the frequency on the way

## Main results

* `Resource.adopt_eq_ok` — what becomes of the frequency in one step
* `InTune.tune`, `Compilation.inTune_track` — what one placement keeps, all of them keep
* `Schedule.oscillators_in_tune` — the oscillators of a compiled schedule
-/

namespace Sequencer

namespace Number

variable {x y : Float}

/-- A frequency that counts as set. -/
def nonzero (x : Float) : Bool := x != 0.0

theorem eq_of_same_of_nonzero (h : Same x y) (hy : nonzero y = true) : x = y := by
  rcases h with rfl | ⟨-, hzero⟩
  · rfl
  · simp [nonzero, bne, hzero] at hy

end Number

open Number

/-! ## One oscillator -/

/-- The frequency of an oscillator after a list of requests. -/
structure InTune (r : Resource) (requests : List Float) (frequency : Option Float) : Prop where
  /-- It is missing only as long as nothing has been asked for. -/
  missing : frequency = none ↔ requests = []
  /-- If it is not zero, it is the first of the requests that are not, and if one of them is not, it
  is not. -/
  first : frequency.filter nonzero = requests.find? nonzero
  /-- Where pulses share the oscillator, all requests agree, up to those for zero. -/
  shared : r.kind = .awg → ∀ f ∈ requests, nonzero f = true → frequency = some f

theorem Resource.adopt_eq_ok {r : Resource} {current requested frequency : Option Float}
    {key : ContentKey} (h : r.adopt current key requested = .ok frequency) :
    (frequency = current ∧ ∀ f, requested = some f →
        ∃ e, current = some e ∧ nonzero e = true ∧ (r.kind = .awg → (f == e) = true)) ∨
      ∃ f, requested = some f ∧ frequency = some f ∧ current.filter nonzero = none := by
  rw [adopt.eq_def] at h
  split at h
  · exact Or.inl ⟨(Except.ok.inj h).symm, nofun⟩
  next found =>
  split at h
  · exact Or.inr ⟨found, rfl, (Except.ok.inj h).symm, rfl⟩
  next expected =>
  split at h
  · next hzero => exact Or.inr ⟨found, rfl, (Except.ok.inj h).symm, by simp [nonzero, bne, hzero]⟩
  next hset =>
  split at h
  · cases h
  next hagree =>
  refine Or.inl ⟨(Except.ok.inj h).symm, fun f hf => ⟨expected, rfl, ?_, fun hkind => ?_⟩⟩
  · simpa [nonzero, bne] using hset
  · obtain rfl := Option.some.inj hf
    simpa [hkind, bne] using hagree

namespace InTune

variable {r : Resource} {requests : List Float} {frequency : Option Float} {f : Float}

theorem start (r : Resource) : InTune r r.frequency.toList r.frequency := by
  refine ⟨?_, ?_, fun _ f hf _ => ?_⟩
  · cases r.frequency <;> simp
  · cases r.frequency with
    | none => rfl
    | some f => by_cases hset : nonzero f = true <;> simp [Option.filter, hset]
  · simpa using hf

/-- A frequency that is not zero has been asked for. -/
theorem find?_eq_some (h : InTune r requests frequency) (hf : frequency = some f)
    (hset : nonzero f = true) : requests.find? nonzero = some f := by
  rw [← h.first, hf, Option.filter_some_pos hset]

theorem eq_some (h : InTune r requests frequency) (hf : requests.find? nonzero = some f) :
    frequency = some f := by
  rw [← h.first] at hf
  exact (Option.filter_eq_some_iff.mp hf).1

/-- As long as the frequency does not count as set, all requests have been for zero. -/
theorem eq_false_of_unset (h : InTune r requests frequency)
    (hunset : frequency.filter nonzero = none) (hf : f ∈ requests) : nonzero f = false := by
  rw [h.first] at hunset
  simpa using List.find?_eq_none.mp hunset f hf

/-- The frequency stays if it is in tune with the request already. -/
theorem keep (h : InTune r requests frequency) (hasked : requests ≠ [])
    (hknown : nonzero f = true → (requests.find? nonzero).isSome = true ∧
      (r.kind = .awg → frequency = some f)) : InTune r (requests ++ [f]) frequency := by
  refine ⟨?_, ?_, fun hkind g hg hset => ?_⟩
  · simp [h.missing, hasked]
  · rw [List.find?_append, h.first]
    by_cases hset : nonzero f = true
    · obtain ⟨g, hg⟩ := Option.isSome_iff_exists.mp (hknown hset).1
      rw [hg, Option.some_or]
    · rw [List.find?_cons_of_neg hset, List.find?_nil, Option.or_none]
  · rcases List.mem_append.mp hg with hg | hg
    · exact h.shared hkind g hg hset
    · obtain rfl := List.mem_singleton.mp hg
      exact (hknown hset).2 hkind

/-- A request that has been made before can be left out. -/
theorem again (h : InTune r requests frequency) {g : Float} (hg : g ∈ requests) (hsame : Same g f) :
    InTune r (requests ++ [f]) frequency := by
  refine h.keep (List.ne_nil_of_mem hg) fun hset => ?_
  obtain rfl := eq_of_same_of_nonzero hsame hset
  exact ⟨List.find?_isSome.mpr ⟨g, hg, hset⟩, fun hkind => h.shared hkind g hg hset⟩

/-- A request is adopted if all before it were for zero. -/
theorem adopt (h : InTune r requests frequency) (hunset : frequency.filter nonzero = none) :
    InTune r (requests ++ [f]) (some f) := by
  refine ⟨by simp, ?_, fun _ g hg hset => ?_⟩
  · rw [List.find?_append, ← h.first, hunset, Option.none_or]
    by_cases hset : nonzero f = true
    · rw [Option.filter_some_pos hset, List.find?_cons_of_pos hset]
    · rw [Option.filter_some_neg (by simpa using hset), List.find?_cons_of_neg hset, List.find?_nil]
  · rcases List.mem_append.mp hg with hg | hg
    · rw [h.eq_false_of_unset hunset hg] at hset
      cases hset
    · rw [List.mem_singleton.mp hg]

/-- One step of a track: a content that has been seen is one whose request has been made. -/
theorem tune {t : Track} {p : Placement} (h : InTune p.resource requests t.frequency)
    (hseen : t.cache.contains p.entry.key = true → ∀ f, p.pulse.modulation = some f →
      ∃ g ∈ requests, Same g f)
    (htune : t.tune p = .ok frequency) :
    InTune p.resource (requests ++ p.pulse.modulation.toList) frequency := by
  rw [Track.tune] at htune
  cases hrequest : p.pulse.modulation with
  | none =>
    have hkeep : frequency = t.frequency := by
      rw [hrequest] at htune
      split at htune <;> exact (Except.ok.inj htune).symm
    rw [hkeep, Option.toList_none, List.append_nil]
    exact h
  | some f =>
    rw [Option.toList_some]
    split at htune
    · next hcontains =>
      obtain ⟨g, hg, hsame⟩ := hseen hcontains f hrequest
      rw [← Except.ok.inj htune]
      exact h.again hg hsame
    · rcases Resource.adopt_eq_ok htune with ⟨rfl, hagree⟩ | ⟨f', hf', rfl, hunset⟩
      · obtain ⟨e, he, hset, hequal⟩ := hagree f hrequest
        refine h.keep (fun hnil => ?_) fun hf => ⟨?_, fun hkind => ?_⟩
        · rw [h.missing.mpr hnil] at he
          cases he
        · rw [h.find?_eq_some he hset]
          rfl
        · rw [he, ← eq_of_same_of_nonzero (same_of_beq (hequal hkind)) hset]
      · obtain rfl := Option.some.inj (hrequest.symm.trans hf')
        exact h.adopt hunset

end InTune

/-! ## All oscillators -/

/-- What the placements of a resource ask of its oscillator, after the frequency that it starts
with. -/
def Placement.requestsOn (name : String) (r : Resource) (placed : List Placement) : List Float :=
  r.frequency.toList ++ (placed.filter fun p => p.channel = name).filterMap fun p =>
    p.pulse.modulation

/-- Placements with the same key ask for the same frequency. -/
def Placement.Keyed (placed : List Placement) : Prop :=
  ∀ p ∈ placed, ∀ q ∈ placed, p.entry.key = q.entry.key →
    Option.Rel Same p.pulse.modulation q.pulse.modulation

theorem Placement.requestsOn_append (name : String) (r : Resource) (placed rest : List Placement) :
    requestsOn name r (placed ++ rest) = requestsOn name r placed ++
      (rest.filter fun p => p.channel = name).filterMap fun p => p.pulse.modulation := by
  rw [requestsOn, List.filter_append, List.filterMap_append, ← List.append_assoc]
  rfl

namespace Compilation

variable {rule : TuningRule} {library : WaveformLibrary Float} {c : Compilation}
  {placed : List Placement}

/-- A placement whose content has been seen repeats a request. -/
theorem exists_request {p : Placement} (hfold : placed.foldlM (add rule library) start = .ok c)
    (hkeyed : Placement.Keyed (placed ++ [p]))
    (hseen : (c.track p.channel p.resource).cache.contains p.entry.key = true) {f : Float}
    (hf : p.pulse.modulation = some f) :
    ∃ g ∈ Placement.requestsOn p.channel p.resource placed, Same g f := by
  rw [OrderedMap.contains, ← OrderedMap.mem_keys_iff, mem_keys_track hfold] at hseen
  obtain ⟨q, hq, hchannel, hkey⟩ := hseen
  have hsame := hkeyed q (List.mem_append_left _ hq) p (by simp) hkey
  rw [hf] at hsame
  obtain ⟨-, hnone⟩ | ⟨g, f', hg, hf', hsame⟩ := outcome_of_rel hsame
  · cases hnone
  · obtain rfl := Option.some.inj hf'
    refine ⟨g, List.mem_append_right _ (List.mem_filterMap.mpr ⟨q, ?_, hg⟩), hsame⟩
    exact List.mem_filter.mpr ⟨hq, by simpa using hchannel⟩

/-- **The oscillator of every track is in tune** with the requests of its own placements, whatever
stands between them. -/
theorem inTune_track (hfold : placed.foldlM (add Track.tune library) start = .ok c)
    (hkeyed : Placement.Keyed placed) {name : String} {r : Resource}
    (hresource : ∀ p ∈ placed, p.channel = name → p.resource = r) :
    InTune r (Placement.requestsOn name r placed) (c.track name r).frequency := by
  have hrun := foldlM_induction (motive := fun done c =>
    done.foldlM (add Track.tune library) start = .ok c ∧ (Placement.Keyed done →
      (∀ p ∈ done, p.channel = name → p.resource = r) →
        InTune r (Placement.requestsOn name r done) (c.track name r).frequency)) ?_ ?_ hfold
  · exact hrun.2 hkeyed hresource
  · refine ⟨rfl, fun _ _ => ?_⟩
    have hempty : Placement.requestsOn name r [] = r.frequency.toList := List.append_nil _
    rw [hempty]
    exact InTune.start r
  · rintro done p c c' ⟨hdone, ih⟩ hadd
    refine ⟨by rw [foldlM_concat hdone, hadd], fun hkeyed hresource => ?_⟩
    have h := ih
      (fun q hq q' hq' => hkeyed q (List.mem_append_left _ hq) q' (List.mem_append_left _ hq'))
      fun q hq => hresource q (List.mem_append_left _ hq)
    rw [Placement.requestsOn_append]
    rcases track_add hadd name r with ⟨hname, htrack⟩ | ⟨rfl, htrack⟩
    · rw [htrack, List.filter_cons_of_neg (by simpa using hname.symm)]
      simpa using h
    · obtain rfl := hresource p (by simp) rfl
      have hlast :
          (List.filter (fun q => q.channel = p.channel) [p]).filterMap (fun q => q.pulse.modulation)
            = p.pulse.modulation.toList := by
        cases hf : p.pulse.modulation <;> simp [hf]
      rw [hlast]
      obtain ⟨_, -, htune, -, -⟩ := Track.add_eq_ok htrack
      refine h.tune (fun hseen f hf => ?_) htune
      exact exists_request hdone hkeyed hseen hf

end Compilation

/-! ## The compiled schedule -/

namespace Schedule

/-- What a schedule asks of the oscillator of a resource: the frequency that it starts with, and
those of the pulses that are played on it, in order. -/
def requestsOn (s : Schedule) (settings : Settings) (name : String) (r : Resource) : List Float :=
  r.frequency.toList ++ (s.executed.filter (Pulse.goesTo settings name)).filterMap Pulse.modulation

/-- Pulses with the same key ask for the same frequency. -/
def FrequenciesKeyed (s : Schedule) : Prop :=
  ∀ p ∈ s.pulses, ∀ q ∈ s.pulses, p.contentKey = q.contentKey →
    Option.Rel Same p.modulation q.modulation

instance decidableFrequenciesKeyed (s : Schedule) : Decidable s.FrequenciesKeyed :=
  decidable_of_iff
    (∀ p ∈ s.pulses, ∀ q ∈ s.pulses, p.modulation.map unsignedZero = q.modulation.map unsignedZero ∨
      p.contentKey ≠ q.contentKey)
    (by simp only [FrequenciesKeyed, rel_same_iff, Classical.or_iff_not_imp_right, not_not])

/-- The frequency of a resource after the first `n` placements have been collected. -/
def frequencyAfter (s : Schedule) (library : WaveformLibrary Float) (settings : Settings)
    (name : String) (r : Resource) (n : Nat) : Except CompileError (Option Float) :=
  (Compilation.start.collect Track.tune library ((s.placements settings).take n)).map fun c =>
    (c.track name r).frequency

end Schedule

/-- The oscillator of a compiled resource. -/
structure CompiledResource.Oscillates (library : WaveformLibrary Float) (s : Schedule)
    (settings : Settings) (r : CompiledResource) : Prop where
  /-- It is in tune with all that the schedule asks of it. -/
  inTune : InTune r.resource (s.requestsOn settings r.name r.resource) r.frequency
  /-- Its frequency is that after the last placement. -/
  last : s.frequencyAfter library settings r.name r.resource (s.placements settings).length
    = .ok r.frequency
  /-- Once the frequency is not zero, no placement changes it. -/
  stays : ∀ n m f, n ≤ m → nonzero f = true →
    s.frequencyAfter library settings r.name r.resource n = .ok (some f) →
      s.frequencyAfter library settings r.name r.resource m = .ok (some f)

namespace Schedule

variable {s : Schedule} {library : WaveformLibrary Float} {settings : Settings}

theorem FrequenciesKeyed.keyed (hkeyed : s.FrequenciesKeyed) {placed : List Placement}
    (hmem : ∀ p ∈ placed, .ok p ∈ s.placements settings) : Placement.Keyed placed := by
  intro p hp q hq hkey
  obtain ⟨hpmem, hpkey, -⟩ := pulse_of_mem_placements (hmem p hp)
  obtain ⟨hqmem, hqkey, -⟩ := pulse_of_mem_placements (hmem q hq)
  rw [hpkey, hqkey] at hkey
  exact hkeyed _ hpmem _ hqmem hkey

/-- However far a compilation has come, its oscillators are in tune with the requests so far. -/
theorem FrequenciesKeyed.inTune (hkeyed : s.FrequenciesKeyed) {placed : List Placement}
    (hmem : ∀ p ∈ placed, .ok p ∈ s.placements settings) {c : Compilation}
    (hfold : placed.foldlM (Compilation.add Track.tune library) .start = .ok c) {name : String}
    {r : Resource} (hr : s.resources.get? name = some r) :
    InTune r (Placement.requestsOn name r placed) (c.track name r).frequency := by
  refine Compilation.inTune_track hfold (hkeyed.keyed hmem) fun p hp hname => ?_
  have hresource := resource_of_mem_placements (hmem p hp)
  rw [hname, hr] at hresource
  exact (Option.some.inj hresource).symm

section Placed

variable {placed : List Placement} (hplaced : s.placements settings = placed.map .ok)

include hplaced

theorem requestsOn_eq (name : String) (r : Resource) :
    s.requestsOn settings name r = Placement.requestsOn name r placed := by
  have hmap := map_eq_map_of_forall₂ (forall₂_placedOn hplaced name) fun _ _ hplaces =>
    hplaces.modulation
  have hrequests := congrArg (List.filterMap id) hmap
  rw [List.filterMap_map, List.filterMap_map] at hrequests
  exact congrArg (r.frequency.toList ++ ·) hrequests.symm

theorem frequencyAfter_eq {n : Nat} {c : Compilation}
    (hfold : (placed.take n).foldlM (Compilation.add Track.tune library) .start = .ok c)
    (name : String) (r : Resource) :
    s.frequencyAfter library settings name r n = .ok (c.track name r).frequency := by
  have hcollect : Compilation.start.collect Track.tune library ((placed.take n).map .ok)
      = .ok c := by
    rw [Compilation.collect, List.foldlM_map]
    exact hfold
  rw [frequencyAfter, hplaced, ← List.map_take, hcollect]
  rfl

variable (hkeyed : s.FrequenciesKeyed) {c : Compilation}
  (hfold : placed.foldlM (Compilation.add Track.tune library) .start = .ok c) {name : String}
    {r : Resource}
  (hr : s.resources.get? name = some r)

include hkeyed hfold hr

/-- In a compilation that succeeds, no step on the way fails. -/
theorem exists_frequencyAfter (n : Nat) :
    ∃ frequency, s.frequencyAfter library settings name r n = .ok frequency ∧
      InTune r (Placement.requestsOn name r (placed.take n)) frequency := by
  rw [← List.take_append_drop n placed, List.foldlM_append] at hfold
  obtain ⟨cₙ, hcₙ, -⟩ := bind_eq_ok.mp hfold
  have hmem : ∀ p ∈ placed.take n, .ok p ∈ s.placements settings := by
    intro p hp
    rw [hplaced]
    exact List.mem_map.mpr ⟨p, List.take_subset n placed hp, rfl⟩
  exact ⟨(cₙ.track name r).frequency, frequencyAfter_eq hplaced hcₙ name r,
    hkeyed.inTune hmem hcₙ hr⟩

end Placed

/-- **The oscillators of a compiled schedule.** If keys tell frequencies apart, then on a resource
where pulses share the oscillator, every pulse that asks for a frequency other than zero gets it. On
any resource, the oscillator has the first frequency other than zero that it is asked for, and keeps
it from then on. -/
theorem oscillators_in_tune (hkeyed : s.FrequenciesKeyed) {compiled : CompiledSchedule}
    (h : s.compile library settings = .ok compiled) :
    ∀ r ∈ compiled.resources, r.Oscillates library s settings := by
  intro r hr
  obtain ⟨placed, c, hplaced, hfold, hfinish⟩ := compile_eq_ok h
  obtain ⟨t, hresource, ht, hok⟩ := exists_track_of_mem hfinish hr
  obtain ⟨memory, -, hr⟩ := Compilation.finishTrack_eq_ok hok
  have hfrequency : r.frequency = (c.track r.name r.resource).frequency := by
    rw [Compilation.track, ht, hr]
    rfl
  have hafter := exists_frequencyAfter hplaced hkeyed hfold hresource
  have hlast : s.frequencyAfter library settings r.name r.resource (s.placements settings).length
      = .ok r.frequency := by
    rw [hfrequency]
    refine frequencyAfter_eq hplaced ?_ r.name r.resource
    rw [hplaced, List.length_map, List.take_length]
    exact hfold
  refine ⟨?_, hlast, fun n m f hnm hset hn => ?_⟩
  · obtain ⟨frequency, heq, htune⟩ := hafter (s.placements settings).length
    obtain rfl := Except.ok.inj (hlast.symm.trans heq)
    rw [hplaced, List.length_map, List.take_length] at htune
    rwa [requestsOn_eq hplaced]
  · obtain ⟨frequency, heq, htune⟩ := hafter n
    obtain rfl := Except.ok.inj (hn.symm.trans heq)
    obtain ⟨later, heq', htune'⟩ := hafter m
    obtain ⟨rest, hrest⟩ := List.take_prefix_take_left (l := placed) hnm
    have hfind := htune.find?_eq_some rfl hset
    rw [← hrest, Placement.requestsOn_append] at htune'
    rw [heq', htune'.eq_some (by rw [List.find?_append, hfind, Option.some_or])]

/-- A qubit whose oscillator starts at zero. It is driven twice, with the same frequency. -/
def carrier : Schedule :=
  (((blank "carrier").addResource
    { Resource.plain "q0" .awg 1e9 with frequency := some 0 }).addPulse
    "drive" ((Pulse.square "q0" 0 4e-9 0.5).modulated 1e7) 0).place "drive" (some 8e-9)

theorem oscillators_in_tune_carrier :
    ∃ compiled, carrier.FrequenciesKeyed ∧ carrier.compile .standard .standard = .ok compiled ∧
      compiled.resources.map CompiledResource.frequency = [some 1e7] ∧
      ∀ r ∈ compiled.resources, r.Oscillates .standard carrier .standard := by
  have hkeyed : carrier.FrequenciesKeyed := by decide +kernel
  have hvalue : (carrier.compile .standard .standard).toOption.map
      (fun c => c.resources.map CompiledResource.frequency) = some [some 1e7] := by
    decide +kernel
  obtain ⟨compiled, h, hfrequencies⟩ := exists_ok_of_toOption hvalue
  exact ⟨compiled, hkeyed, h, hfrequencies, oscillators_in_tune hkeyed h⟩

end Schedule

end Sequencer
