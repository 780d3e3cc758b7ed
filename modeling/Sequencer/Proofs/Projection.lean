import Sequencer.Proofs.Ordering
import Sequencer.Proofs.Requests
import Sequencer.Timeline.Track

/-!
# What a schedule asks of each resource

A compilation collects the placements of all resources in one loop, in which tracks are found or
started, waveforms are sampled or found, and errors end everything. Another loop then finishes the
tracks in the order of the resources. Here the result is compared with what the schedule says about
one resource at a time: `Schedule.playedOn` walks over the timing constraints and the pulses and
takes those that are played on the resource, without a state.

The comparison has two halves. The loop does not mix resources: the track of a resource is what its
own placements alone would have collected (`Compilation.ofPlacements_collect`). And a track is
determined by what has been put on it (`Track.Holds`).

## Main definitions

* `Schedule.playedOn` — what is played on a resource, as the schedule has it
* `Track.ofPlacements`, `Track.Holds` — one track on its own
* `CompiledResource.IsProjection` — a compiled resource as the schedule determines it

## Main results

* `Compilation.ofPlacements_collect` — the loop does not mix resources
* `Track.Holds.add` — what one placement adds to a track
* `Compilation.duration_collect` — the running maximum over all tracks
* `Schedule.compile_projects` — a compilation is the projection of its schedule to each resource
-/

namespace Sequencer

/-! ## The schedule of one resource -/

/-- The entry of a pulse on the resource `name`, together with the normalized pulse; none for a
pulse that is not played there. -/
def Pulse.playedOn (settings : Settings) (name : String) (r : Resource) (time : Float)
    (p : Pulse Float) : Option (Entry × Pulse Float) :=
  match p.channel, p.normalize with
  | some channel, .ok (modulations, normalized) =>
    if (settings.resolve channel).1 = name then
      some (⟨sampleCount (time + p.start) r.samplingRate, normalized.contentKey, modulations⟩,
        normalized)
    else none
  | _, _ => none

/-- What is played on the resource `name`, in the order of the timing constraints and, within one,
of the pulses. -/
def Schedule.playedOn (s : Schedule) (settings : Settings) (name : String) (r : Resource) :
    List (Entry × Pulse Float) :=
  s.constraints.flatMap fun c =>
    match s.operations.get? c.operation, c.time with
    | some operation, some time => operation.pulses.filterMap (Pulse.playedOn settings name r time)
    | _, _ => []

/-- What a placement puts on the resource `name`. -/
def Placement.on (name : String) : Except CompileError Placement → Option (Entry × Pulse Float)
  | .ok p => if p.channel = name then some (p.entry, p.pulse) else none
  | .error _ => none

variable {s : Schedule} {settings : Settings} {library : WaveformLibrary Float}

/-- Where a placement comes from: a pulse of an operation that is executed at a time. -/
theorem Schedule.mem_placements {p : Placement} (h : .ok p ∈ s.placements settings) :
    ∃ c ∈ s.constraints, ∃ operation time pulse channel modulations,
      s.operations.get? c.operation = some operation ∧ c.time = some time ∧
        pulse ∈ operation.pulses ∧
      pulse.channel = some channel ∧ pulse.normalize = .ok (modulations, p.pulse) ∧
      settings.resolve channel = (p.channel, p.acquires) ∧
        s.resources.get? p.channel = some p.resource ∧
      p.entry = ⟨sampleCount (time + pulse.start) p.resource.samplingRate, p.pulse.contentKey,
        modulations⟩ := by
  obtain ⟨c, hc, h⟩ := List.mem_flatMap.mp h
  rw [placeConstraint] at h
  split at h
  · simp at h
  rename_i operation hoperation
  split at h
  · simp at h
  split at h
  · simp at h
  rename_i time htime
  obtain ⟨pulse, hpulse, h⟩ := List.mem_flatMap.mp h
  rw [placePulse] at h
  split at h
  · simp at h
  rename_i modulations normalized hnormalize
  split at h
  · simp at h
  rename_i channel hchannel
  simp only at h
  split at h
  · simp at h
  rename_i resource hresource
  simp only [List.mem_singleton, Except.ok.injEq] at h
  subst h
  exact ⟨c, hc, operation, time, pulse, channel, modulations, hoperation, htime, hpulse, hchannel,
    hnormalize,
    rfl, hresource, rfl⟩

/-- A pulse is placed on the resource that its channel is resolved to. -/
theorem Schedule.resource_of_mem_placements {p : Placement} (h : .ok p ∈ s.placements settings) :
    s.resources.get? p.channel = some p.resource := by
  obtain ⟨-, -, -, -, -, -, -, -, -, -, -, -, -, hresource, -⟩ := mem_placements h
  exact hresource

theorem Schedule.filterMap_placePulse {name : String} {r : Resource}
    (hr : s.resources.get? name = some r) (time : Float) (p : Pulse Float) :
    (s.placePulse settings time p).filterMap (Placement.on name)
      = (p.playedOn settings name r time).toList := by
  rw [placePulse, Pulse.playedOn]
  cases hn : p.normalize with
  | error e => cases p.channel <;> simp [Placement.on]
  | ok split =>
    obtain ⟨modulations, normalized⟩ := split
    cases hc : p.channel with
    | none => simp
    | some channel =>
      by_cases hname : (settings.resolve channel).1 = name
      · simp [hname, hr, Placement.on]
      · cases hres : s.resources.get? (settings.resolve channel).1
          <;> simp [hres, hname, Placement.on]

theorem Schedule.filterMap_placeConstraint {name : String} {r : Resource}
    (hr : s.resources.get? name = some r) (c : TimingConstraint) :
    (s.placeConstraint settings c).filterMap (Placement.on name)
      = match s.operations.get? c.operation, c.time with
        | some operation, some time =>
          operation.pulses.filterMap (Pulse.playedOn settings name r time)
        | _, _ => [] := by
  rw [placeConstraint]
  cases s.operations.get? c.operation with
  | none => simp [Placement.on]
  | some operation =>
    by_cases hempty : operation.pulses = []
    · cases c.time <;> simp [hempty, Placement.on]
    · have hne : operation.pulses.isEmpty = false := by simpa using hempty
      cases c.time with
      | none => simp [hne, Placement.on]
      | some time =>
        simp only [hne, Bool.false_eq_true, if_false]
        rw [List.filterMap_flatMap, List.filterMap_eq_flatMap_toList]
        congr 1
        funext p
        exact filterMap_placePulse hr time p

/-- Taking what is on one resource from all placements is the walk of that resource. -/
theorem Schedule.filterMap_placements {name : String} {r : Resource}
    (hr : s.resources.get? name = some r) :
    (s.placements settings).filterMap (Placement.on name) = s.playedOn settings name r := by
  rw [placements, playedOn]
  rw [List.filterMap_flatMap]
  congr 1
  funext c
  exact filterMap_placeConstraint hr c

/-! ## One track -/

/-- The number of samples of the waveform of a content; `0` for a content without one. -/
def Cache.samples (c : Cache) (key : ContentKey) : Nat := ((c.get? key).map Waveform.length).getD 0

theorem Cache.samples_of_get? {c : Cache} {key : ContentKey} {w : Waveform Float}
    (h : c.get? key = some w) : c.samples key = w.length := by
  simp [Cache.samples, h]

namespace Track

variable {rule : TuningRule}

/-- What a placement does to a track. -/
theorem add_eq_ok {t t' : Track} {p : Placement} (h : t.add rule library p = .ok t') :
    ∃ w, (p.request library).run t.toSampler = .ok w t'.toSampler ∧
      rule t p = .ok t'.frequency ∧ t'.entries = t.entries ++ [p.entry] ∧
      t'.finish = max t.finish (p.entry.time + w.length) := by
  rw [add] at h
  obtain ⟨frequency, hfrequency, h⟩ := bind_eq_ok.mp h
  cases hrequest : (p.request library).run t.toSampler with
  | error e sampler =>
    rw [hrequest] at h
    cases h
  | ok w sampler =>
    rw [hrequest] at h
    obtain rfl := pure_eq_ok.mp h
    exact ⟨w, rfl, hfrequency, rfl, rfl⟩

/-- Waveforms end later and later. -/
theorem finish_le_of_add {t t' : Track} {p : Placement} (h : t.add rule library p = .ok t') :
    t.finish ≤ t'.finish := by
  obtain ⟨w, -, -, -, hfinish⟩ := add_eq_ok h
  rw [hfinish]
  exact Int.le_max_left _ _

/-- A track as it is determined by what has been played on it, in order. -/
structure Holds (library : WaveformLibrary Float) (rate : Float)
    (played : List (Entry × Pulse Float)) (t : Track) : Prop where
  /-- The entries, as they came. -/
  entries : t.entries = played.map Prod.fst
  /-- Each content once, where it was first seen. -/
  keys : t.cache.keys = (played.map fun q => q.1.key).eraseDups
  /-- The waveform of a content is sampled from the first pulse that has it. -/
  sampled : ∀ key w, t.cache.get? key = some w →
    ∃ q, played.find? (fun q => q.1.key = key) = some q ∧ library.render q.2 rate = .ok w
  /-- The latest end of a waveform. -/
  finish : t.finish = peak (played.map fun q => q.1.time + t.cache.samples q.1.key)

variable {rate : Float} {played : List (Entry × Pulse Float)} {t t' : Track} {p : Placement}

theorem holds_start (library : WaveformLibrary Float) (rate : Float) (r : Resource) :
    Holds library rate [] (start r) :=
  ⟨rfl, rfl, fun _ _ h => by simp [start, Sampler.empty] at h, rfl⟩

/-- What is on a track, and nothing else, has been sampled. -/
theorem Holds.isSome_get?_iff (h : Holds library rate played t) (key : ContentKey) :
    (t.cache.get? key).isSome = true ↔ ∃ q ∈ played, q.1.key = key := by
  rw [← OrderedMap.mem_keys_iff, h.keys, List.mem_eraseDups, List.mem_map]

/-- **A placement adds itself and nothing else.** -/
theorem Holds.add (h : Holds library rate played t) (hrate : p.resource.samplingRate = rate)
    (hadd : t.add rule library p = .ok t') :
    Holds library rate (played ++ [(p.entry, p.pulse)]) t' := by
  obtain ⟨w, hreq, -, hentries, hfinish⟩ := add_eq_ok hadd
  rw [Placement.request, hrate] at hreq
  refine ⟨?_, ?_, fun key w' hw' => ?_, ?_⟩
  · rw [hentries, h.entries, List.map_append]
    rfl
  · rw [Sampler.keys_request hreq, List.map_append, List.map_singleton, eraseDups_concat, h.keys]
    simp only [List.mem_eraseDups]
  · cases hkey : t.cache.get? key with
    | some w₀ =>
      -- seen before: its first pulse is still the first
      rw [Sampler.get?_request_of_isSome hreq (by rw [hkey]; rfl)] at hw'
      obtain ⟨q, hq, hrender⟩ := h.sampled key w' hw'
      exact ⟨q, by rw [List.find?_append, hq]; rfl, hrender⟩
    | none =>
      obtain ⟨rfl, hrender⟩ := Sampler.request_of_get?_eq_none hreq hkey hw'
      have hnew : played.find? (fun q => q.1.key = p.entry.key) = none := by
        rw [List.find?_eq_none]
        intro q hq hqk
        have hsome := (h.isSome_get?_iff p.entry.key).mpr ⟨q, hq, of_decide_eq_true hqk⟩
        simp [hkey] at hsome
      exact ⟨(p.entry, p.pulse), by rw [List.find?_append, hnew]; simp, hrender⟩
  · rw [hfinish, h.finish, List.map_append, List.map_singleton, peak_concat,
      Cache.samples_of_get? (Sampler.get?_request hreq)]
    congr 2
    refine List.map_congr_left fun q hq => ?_
    have hsome := (h.isSome_get?_iff q.1.key).mpr ⟨q, hq, rfl⟩
    rw [Cache.samples, Cache.samples, Sampler.get?_request_of_isSome hreq hsome]

/-- The track that placements make on their own; none without placements. -/
def ofPlacements (rule : TuningRule) (library : WaveformLibrary Float) :
    List Placement → Except CompileError (Option Track)
  | [] => .ok none
  | p :: rest => ((p :: rest).foldlM (add rule library) (start p.resource)).map some

theorem ofPlacements_concat (placed : List Placement) (p : Placement) :
    ofPlacements rule library (placed ++ [p])
      = ofPlacements rule library placed >>= fun t =>
        ((t.getD (start p.resource)).add rule library p).map some := by
  cases placed with
  | nil =>
    simp only [List.nil_append, ofPlacements, List.foldlM_cons, List.foldlM_nil, bind_pure]
    rfl
  | cons q rest =>
    rw [ofPlacements, List.cons_append, ofPlacements, ← List.cons_append, List.foldlM_append]
    cases (q :: rest).foldlM (add rule library) (start q.resource) with
    | error e => rfl
    | ok t => cases h : t.add rule library p
      <;> simp [h, bind, Except.bind, Except.map, pure, Except.pure]

/-- A track on its own is determined by its placements, if they are all sampled at the same rate. -/
theorem holds_ofPlacements {placed : List Placement}
    (hrate : ∀ p ∈ placed, p.resource.samplingRate = rate)
    (h : ofPlacements rule library placed = .ok (some t)) :
    Holds library rate (placed.map fun p => (p.entry, p.pulse)) t := by
  cases placed with
  | nil => simp [ofPlacements] at h
  | cons p rest =>
    rw [ofPlacements] at h
    cases hfold : (p :: rest).foldlM (add rule library) (start p.resource) with
    | error e => simp [hfold, Except.map] at h
    | ok t' =>
      simp only [hfold, Except.map, Except.ok.injEq, Option.some.injEq] at h
      subst h
      revert hrate
      refine foldlM_induction (motive := fun done t =>
        (∀ p ∈ done, p.resource.samplingRate = rate) →
          Holds library rate (done.map fun p => (p.entry, p.pulse)) t) ?_ ?_ hfold
      · exact fun _ => holds_start library rate _
      · intro done p t t' ih hadd hrate
        rw [List.map_append]
        exact (ih fun p hp => hrate p (List.mem_append_left _ hp)).add
          (hrate p (List.mem_append_right _ List.mem_cons_self)) hadd

end Track

/-! ## All tracks -/

namespace Compilation

variable {rule : TuningRule} {c c' : Compilation}

theorem add_eq_ok {p : Placement} (h : c.add rule library p = .ok c') :
    ∃ t, (c.track p.channel p.resource).add rule library p = .ok t ∧
      c'.tracks = c.tracks.insert p.channel t ∧ c'.duration = max c.duration t.finish := by
  rw [add] at h
  obtain ⟨t, ht, h⟩ := bind_eq_ok.mp h
  obtain rfl := pure_eq_ok.mp h
  exact ⟨t, ht, rfl, rfl⟩

/-- A placement changes its own track, and no other. -/
theorem track_add {p : Placement} (h : c.add rule library p = .ok c') (name : String)
    (r : Resource) :
    (name ≠ p.channel ∧ c'.track name r = c.track name r) ∨
      (name = p.channel ∧
        (c.track p.channel p.resource).add rule library p = .ok (c'.track name r)) := by
  obtain ⟨t, ht, htracks, -⟩ := add_eq_ok h
  rw [track, htracks, OrderedMap.get?_insert]
  by_cases hname : name = p.channel
  · rw [if_pos hname]
    exact Or.inr ⟨hname, ht⟩
  · rw [if_neg hname]
    exact Or.inl ⟨hname, rfl⟩

/-- A collection that succeeds has met no error among the placements. -/
theorem collect_eq_ok {placements : List (Except CompileError Placement)}
    (h : c.collect rule library placements = .ok c') :
    ∃ placed : List Placement, placements = placed.map .ok ∧
      placed.foldlM (add rule library) c = .ok c' := by
  refine foldlM_induction (motive := fun done s =>
    ∃ placed : List Placement, done = placed.map .ok ∧ placed.foldlM (add rule library) c = .ok s)
    ⟨[], rfl, rfl⟩ ?_ h
  rintro done x s s' ⟨placed, rfl, hs⟩ hx
  obtain ⟨p, rfl, hp⟩ := bind_eq_ok.mp hx
  refine ⟨placed ++ [p], by simp, ?_⟩
  rw [foldlM_concat hs, hp]

/-- **The loop does not mix resources.** The track of a resource is what its own placements make, in
their order and whatever stands between them. -/
theorem ofPlacements_collect {placed : List Placement}
    (h : placed.foldlM (add rule library) start = .ok c) (name : String) :
    Track.ofPlacements rule library (placed.filter fun p => p.channel = name)
      = .ok (c.tracks.get? name) := by
  refine foldlM_induction (motive := fun done c =>
    Track.ofPlacements rule library (done.filter fun p => p.channel = name)
      = .ok (c.tracks.get? name))
    rfl ?_ h
  intro done p c c' ih hadd
  obtain ⟨t, ht, htracks, -⟩ := add_eq_ok hadd
  rw [List.filter_append, htracks, OrderedMap.get?_insert]
  by_cases hname : p.channel = name
  · subst hname
    rw [List.filter_cons_of_pos (by simp), List.filter_nil, Track.ofPlacements_concat, ih,
      if_pos rfl]
    change Except.map some ((c.track p.channel p.resource).add rule library p) = _
    rw [ht]
    rfl
  · rw [List.filter_cons_of_neg (by simpa using hname), List.filter_nil, List.append_nil, ih,
      if_neg fun h => hname h.symm]

theorem mem_ends_iff {time : Int} :
    time ∈ c.tracks.entries.map (fun entry => entry.2.finish) ↔
      ∃ name t, c.tracks.get? name = some t ∧ t.finish = time := by
  simp only [List.mem_map, Prod.exists, OrderedMap.mem_entries_iff]

/-- **The running maximum is the maximum.** The duration is raised to the end of the track at hand
and never looks at the others. That is enough because the end of a track only moves forward. -/
theorem duration_collect {placed : List Placement}
    (h : placed.foldlM (add rule library) start = .ok c) :
    c.duration = peak (c.tracks.entries.map fun entry => entry.2.finish) := by
  refine foldlM_induction (motive := fun _ c =>
    c.duration = peak (c.tracks.entries.map fun entry => entry.2.finish)) rfl ?_ h
  intro done p c c' ih hadd
  obtain ⟨t, ht, htracks, hduration⟩ := add_eq_ok hadd
  have hget : ∀ name, c'.tracks.get? name
      = if name = p.channel then some t else c.tracks.get? name := fun name => by
    rw [htracks, OrderedMap.get?_insert]
  have hlast : t.finish ≤ peak (c'.tracks.entries.map fun entry => entry.2.finish) :=
    le_peak (mem_ends_iff.mpr ⟨p.channel, t, by rw [hget, if_pos rfl], rfl⟩)
  rw [hduration, ih]
  refine Int.le_antisymm (Int.max_le.mpr ⟨?_, hlast⟩) ?_
  · refine peak_le_iff.mpr ⟨peak_nonneg _, fun time htime => ?_⟩
    obtain ⟨name, u, hu, rfl⟩ := mem_ends_iff.mp htime
    by_cases hname : name = p.channel
    · subst hname
      have hbefore : (c.track p.channel p.resource) = u := by rw [track, hu, Option.getD_some]
      exact (hbefore ▸ Track.finish_le_of_add ht).trans hlast
    · exact le_peak (mem_ends_iff.mpr ⟨name, u, by rw [hget, if_neg hname, hu], rfl⟩)
  · refine peak_le_iff.mpr ⟨(peak_nonneg _).trans (Int.le_max_left _ _), fun time htime => ?_⟩
    obtain ⟨name, u, hu, rfl⟩ := mem_ends_iff.mp htime
    rw [hget] at hu
    split at hu
    · rw [← Option.some.inj hu]
      exact Int.le_max_right _ _
    · exact (le_peak (mem_ends_iff.mpr ⟨name, u, hu, rfl⟩)).trans (Int.le_max_left _ _)

/-- A finished track. -/
theorem finishTrack_eq_ok {name : String} {r : Resource} {t : Track} {compiled : CompiledResource}
    (h : c.finishTrack settings name r t = .ok compiled) :
    ∃ memory,
      Memory.allocate name t.cache c.acquisitions
        (if settings.limitBanks then some r.kind.traits.slotCapacity else none) = .ok memory ∧
      compiled = ⟨name, r, t.entries.mergeSort fun a b => decide (a.time ≤ b.time), t.cache, memory,
        t.frequency, t.finish⟩ := by
  rw [finishTrack] at h
  obtain ⟨memory, hm, h⟩ := bind_eq_ok.mp h
  exact ⟨memory, hm, (pure_eq_ok.mp h).symm⟩

/-- The resources with a track, in the order of the schedule. -/
def used (c : Compilation) (s : Schedule) : List (String × Resource × Track) :=
  s.resources.entries.filterMap fun (name, r) => (c.tracks.get? name).map fun t => (name, r, t)

theorem finish_eq_ok {compiled : CompiledSchedule} (h : c.finish s settings = .ok compiled) :
    List.Forall₂ (fun x r => c.finishTrack settings x.1 x.2.1 x.2.2 = .ok r)
      (c.used s) compiled.resources ∧
      compiled.acquisitions = c.acquisitions ∧ compiled.duration = c.duration ∧
      compiled.asked = c.asked := by
  rw [finish] at h
  obtain ⟨resources, hr, h⟩ := bind_eq_ok.mp h
  obtain rfl := pure_eq_ok.mp h
  exact ⟨mapM_eq_ok.mp hr, rfl, rfl, rfl⟩

theorem mem_used {name : String} {r : Resource} {t : Track} :
    (name, r, t) ∈ c.used s ↔ s.resources.get? name = some r ∧ c.tracks.get? name = some t := by
  simp only [used, List.mem_filterMap, Option.map_eq_some_iff, Prod.exists, Prod.mk.injEq]
  constructor
  · rintro ⟨name', r', hmem, t', ht, rfl, rfl, rfl⟩
    exact ⟨(s.resources.mem_entries_iff name' r').mp hmem, ht⟩
  · rintro ⟨hr, ht⟩
    exact ⟨name, r, (s.resources.mem_entries_iff name r).mpr hr, t, ht, rfl, rfl, rfl⟩

end Compilation

/-! ## The compiled schedule -/

/-- A compiled resource as the schedule determines it. -/
structure CompiledResource.IsProjection (library : WaveformLibrary Float) (s : Schedule)
    (settings : Settings) (r : CompiledResource) : Prop where
  /-- It is a resource of the schedule. -/
  resource : s.resources.get? r.name = some r.resource
  /-- Its entries are those of the schedule, sorted by time. -/
  entries : IsStableSort Entry.time ((s.playedOn settings r.name r.resource).map Prod.fst) r.entries
  /-- Its waveforms are those of its contents, each where it was first seen. -/
  keys : r.cache.keys = ((s.playedOn settings r.name r.resource).map fun q => q.1.key).eraseDups
  /-- A waveform is sampled from the first pulse that has its content. -/
  sampled : ∀ key w, r.cache.get? key = some w →
    ∃ q, (s.playedOn settings r.name r.resource).find? (fun q => q.1.key = key) = some q ∧
      library.render q.2 r.resource.samplingRate = .ok w
  /-- It ends with the last of its waveforms. -/
  finish : r.finish = peak (r.entries.map fun e => e.time + r.cache.samples e.key)

/-- A compiled schedule as its schedule determines it. -/
structure CompiledSchedule.IsProjection (library : WaveformLibrary Float) (s : Schedule)
    (settings : Settings) (compiled : CompiledSchedule) : Prop where
  /-- It has the resources on which something is played, in the order of the schedule. -/
  resources : compiled.resources.map (fun r => (r.name, r.resource))
    = s.resources.entries.filter fun x => !(s.playedOn settings x.1 x.2).isEmpty
  /-- Each of them is what the schedule says about it. -/
  projects : ∀ r ∈ compiled.resources, r.IsProjection library s settings
  /-- The sequence ends with the last of them. -/
  duration : compiled.duration = peak (compiled.resources.map CompiledResource.finish)

namespace Schedule

variable {compiled : CompiledSchedule}

/-- A schedule that compiles: all its pulses are placed, and their tracks are finished. -/
theorem compile_eq_ok (h : s.compile library settings = .ok compiled) :
    ∃ (placed : List Placement) (c : Compilation), s.placements settings = placed.map .ok ∧
      placed.foldlM (Compilation.add Track.tune library) .start = .ok c ∧
      c.finish s settings = .ok compiled := by
  rw [compile] at h
  obtain ⟨c, hc, h⟩ := bind_eq_ok.mp h
  obtain ⟨placed, hplaced, hfold⟩ := Compilation.collect_eq_ok hc
  exact ⟨placed, c, hplaced, hfold, h⟩

/-- The compiler gets to a placement, after those before it. -/
structure Reaches (s : Schedule) (library : WaveformLibrary Float) (settings : Settings)
    (before : List Placement) (p : Placement) (c : Compilation) : Prop where
  placements : ∃ after, s.placements settings = before.map .ok ++ .ok p :: after
  collected : before.foldlM (Compilation.add Track.tune library) .start = .ok c

section Placed

variable {placed : List Placement} (hplaced : s.placements settings = placed.map .ok)

include hplaced

theorem playedOn_eq_map {name : String} {r : Resource} (hr : s.resources.get? name = some r) :
    s.playedOn settings name r
      = (placed.filter fun p => p.channel = name).map fun p => (p.entry, p.pulse) := by
  rw [← filterMap_placements hr, hplaced, List.filterMap_map, ← List.filterMap_eq_map,
    List.filterMap_filter]
  congr 1
  funext p
  simp [Placement.on]

theorem resource_of_mem_placed {p : Placement} (h : p ∈ placed) :
    s.resources.get? p.channel = some p.resource := by
  have hmem : .ok p ∈ s.placements settings := by
    rw [hplaced]
    exact List.mem_map.mpr ⟨p, h, rfl⟩
  exact resource_of_mem_placements hmem

variable {rule : TuningRule} {c : Compilation}
  (hfold : placed.foldlM (Compilation.add rule library) .start = .ok c)

include hfold

/-- The track of a resource holds what the schedule plays on it. -/
theorem holds_track {name : String} {r : Resource} {t : Track} (hr : s.resources.get? name = some r)
    (ht : c.tracks.get? name = some t) :
    t.Holds library r.samplingRate (s.playedOn settings name r) := by
  have hown := Compilation.ofPlacements_collect hfold name
  rw [ht] at hown
  rw [playedOn_eq_map hplaced hr]
  refine Track.holds_ofPlacements (fun p hp => ?_) hown
  obtain ⟨hmem, hname⟩ := List.mem_filter.mp hp
  have hp := resource_of_mem_placed hplaced hmem
  rw [of_decide_eq_true hname, hr] at hp
  rw [Option.some.inj hp]

/-- A resource has a track exactly when something is played on it. -/
theorem isSome_track {name : String} {r : Resource} (hr : s.resources.get? name = some r) :
    (c.tracks.get? name).isSome = !(s.playedOn settings name r).isEmpty := by
  have hown := Compilation.ofPlacements_collect hfold name
  rw [playedOn_eq_map hplaced hr, List.isEmpty_map]
  cases hon : placed.filter fun p => p.channel = name with
  | nil =>
    rw [hon] at hown
    rw [← Except.ok.inj hown]
    rfl
  | cons p rest =>
    rw [hon, Track.ofPlacements] at hown
    cases hf : (p :: rest).foldlM (Track.add rule library) (Track.start p.resource) with
    | error e => simp [hf, Except.map] at hown
    | ok t =>
      rw [hf] at hown
      rw [← Except.ok.inj hown]
      rfl

/-- Only resources of the schedule have tracks. -/
theorem exists_resource_of_track {name : String} {t : Track} (ht : c.tracks.get? name = some t) :
    ∃ r, s.resources.get? name = some r := by
  have hown := Compilation.ofPlacements_collect hfold name
  cases hon : placed.filter fun p => p.channel = name with
  | nil =>
    rw [hon, ht] at hown
    simp [Track.ofPlacements] at hown
  | cons p rest =>
    have hp : p ∈ placed.filter fun p => p.channel = name := by simp [hon]
    obtain ⟨hmem, hname⟩ := List.mem_filter.mp hp
    rw [← of_decide_eq_true hname]
    exact ⟨p.resource, resource_of_mem_placed hplaced hmem⟩

end Placed

/-- A compiled resource is the finished track of a resource of the schedule. -/
theorem exists_track_of_mem {c : Compilation} (hfinish : c.finish s settings = .ok compiled)
    {r : CompiledResource} (hr : r ∈ compiled.resources) :
    ∃ t, s.resources.get? r.name = some r.resource ∧ c.tracks.get? r.name = some t ∧
      c.finishTrack settings r.name r.resource t = .ok r := by
  obtain ⟨hmap, -⟩ := Compilation.finish_eq_ok hfinish
  obtain ⟨⟨name, resource, t⟩, hmem, hr⟩ := exists_of_mem_right hmap hr
  obtain ⟨hresource, ht⟩ := Compilation.mem_used.mp hmem
  have hr' := hr
  obtain ⟨memory, -, rfl⟩ := Compilation.finishTrack_eq_ok hr
  exact ⟨t, hresource, ht, hr'⟩

/-- Every compiled resource is the projection of its schedule. -/
theorem isProjection_of_mem (h : s.compile library settings = .ok compiled) {r : CompiledResource}
    (hr : r ∈ compiled.resources) : r.IsProjection library s settings := by
  obtain ⟨placed, c, hplaced, hfold, hfinish⟩ := compile_eq_ok h
  obtain ⟨t, hresource, ht, hr⟩ := exists_track_of_mem hfinish hr
  have hholds := holds_track hplaced hfold hresource ht
  obtain ⟨memory, -, hr⟩ := Compilation.finishTrack_eq_ok hr
  have hcache : r.cache = t.cache := by rw [hr]
  have hentries : IsStableSort Entry.time ((s.playedOn settings r.name r.resource).map Prod.fst)
      r.entries := by
    rw [hr, ← hholds.entries]
    exact isStableSort_mergeSort Entry.time t.entries
  refine ⟨hresource, hentries, ?_, ?_, ?_⟩
  · rw [hcache, hholds.keys]
  · rw [hcache]
    exact hholds.sampled
  · have hfin : r.finish = t.finish := by rw [hr]
    rw [hfin, hholds.finish, hcache]
    refine peak_congr fun time => ?_
    simp only [List.mem_map, hentries.mem_iff, Prod.exists, exists_and_right, exists_eq_right]

/-- The compiled resources are those on which something is played, in the order of the schedule. -/
theorem resources_compile (h : s.compile library settings = .ok compiled) :
    compiled.resources.map (fun r => (r.name, r.resource))
      = s.resources.entries.filter fun x => !(s.playedOn settings x.1 x.2).isEmpty := by
  obtain ⟨placed, c, hplaced, hfold, hfinish⟩ := compile_eq_ok h
  obtain ⟨hmap, -⟩ := Compilation.finish_eq_ok hfinish
  have hkeep : compiled.resources.map (fun r => (r.name, r.resource))
      = (c.used s).map fun x => (x.1, x.2.1) := by
    refine map_eq_map_of_forall₂ hmap fun x r hr => ?_
    obtain ⟨memory, -, rfl⟩ := Compilation.finishTrack_eq_ok hr
    rfl
  rw [hkeep, Compilation.used, List.map_filterMap, ← List.filterMap_eq_filter]
  refine List.filterMap_congr fun x hx => ?_
  obtain ⟨name, r⟩ := x
  have hr := (s.resources.mem_entries_iff name r).mp hx
  simp only [Option.guard, ← isSome_track hplaced hfold hr]
  cases c.tracks.get? name <;> rfl

/-- The sequence ends with the last of the resources. -/
theorem duration_compile (h : s.compile library settings = .ok compiled) :
    compiled.duration = peak (compiled.resources.map CompiledResource.finish) := by
  obtain ⟨placed, c, hplaced, hfold, hfinish⟩ := compile_eq_ok h
  obtain ⟨hmap, -, hduration, -⟩ := Compilation.finish_eq_ok hfinish
  rw [hduration, Compilation.duration_collect hfold]
  refine peak_congr fun time => ?_
  constructor
  · intro htime
    obtain ⟨⟨name, t⟩, hmem, rfl⟩ := List.mem_map.mp htime
    have ht := (c.tracks.mem_entries_iff name t).mp hmem
    obtain ⟨r, hr⟩ := exists_resource_of_track hplaced hfold ht
    obtain ⟨compiled, hcompiled, hok⟩ := exists_of_mem_left hmap (Compilation.mem_used.mpr ⟨hr, ht⟩)
    obtain ⟨memory, -, rfl⟩ := Compilation.finishTrack_eq_ok hok
    exact List.mem_map.mpr ⟨_, hcompiled, rfl⟩
  · intro htime
    obtain ⟨r, hr, rfl⟩ := List.mem_map.mp htime
    obtain ⟨t, -, ht, hok⟩ := exists_track_of_mem hfinish hr
    obtain ⟨memory, -, hr⟩ := Compilation.finishTrack_eq_ok hok
    exact List.mem_map.mpr ⟨(r.name, t), (c.tracks.mem_entries_iff _ _).mpr ht, by rw [hr]⟩

/-- **A compilation loses and invents nothing.** Whatever the order in which the pulses of different
resources come, what is compiled is the projection of the schedule to each of them. -/
theorem compile_projects (h : s.compile library settings = .ok compiled) :
    compiled.IsProjection library s settings :=
  ⟨resources_compile h, fun _ => isProjection_of_mem h, duration_compile h⟩

/-- Three qubits. The last one is driven, then the second one is read out, and the first one is left
alone. -/
def sample : Schedule :=
  ((((((blank "sample").addResource (.plain "q2" .awg 1e9)).addResource
    (.plain "q1" .acq 1e9)).addResource (.plain "q0" .awg 1e9)).addPulse
    "drive" (.square "q0" 0 12e-9 0.5) 0).addPulse "rest" (.silent none 0 1e-6) 0).addPulse
    "answer" (.square "q1_READOUT" 4e-9 8e-9 1) 16e-9

theorem compile_projects_sample :
    ∃ compiled, sample.compile .standard ⟨true, false, "_READOUT"⟩ = .ok compiled ∧
      compiled.duration = 28 ∧ compiled.resources.map CompiledResource.name = ["q1", "q0"] ∧
      compiled.IsProjection .standard sample ⟨true, false, "_READOUT"⟩ := by
  have hvalue : (sample.compile .standard ⟨true, false, "_READOUT"⟩).toOption.map
      (fun c => (c.duration, c.resources.map CompiledResource.name)) = some (28, ["q1", "q0"]) := by
    decide +kernel
  obtain ⟨compiled, h, hc⟩ := exists_ok_of_toOption hvalue
  obtain ⟨hduration, hnames⟩ := Prod.mk.inj hc
  exact ⟨compiled, h, hduration, hnames, compile_projects h⟩

end Schedule

end Sequencer
