import Mathlib.Data.List.Induction
import Sequencer.Proofs.Executed

/-!
# Resources are compiled independently

The programs of the resources are made side by side, each from its compiled resource alone. That is
sound if a compiled resource depends on nothing but its own pulses. The compiler gives no such
guarantee by its form: one loop collects the placements of all resources, and one list of acquired
contents serves all memories.

To say that a resource is on its own, every pulse that is played elsewhere loses its channel. Such a
pulse is still executed, and still in error if it has no known function, but it is not placed. What
is compiled from the schedule that is left is the one resource, exactly as it was compiled among the
others.

## Main definitions

* `Pulse.only`, `Schedule.only` — without the channels of other resources
* `Placement.concerns` — the placements that are left

## Main results

* `Schedule.placements_only` — the placements of one resource alone
* `Compilation.collect_of_ofPlacements` — the loop on one resource is the loop of its track
* `Schedule.compile_only` — a resource is compiled as if there were no other
-/

namespace Sequencer

/-! ## A schedule for one resource -/

/-- The same pulse, without its channel unless it is played on the resource `name`. -/
def Pulse.only (settings : Settings) (name : String) (p : Pulse Float) : Pulse Float :=
  if p.goesTo settings name then p else { p with channel := none }

/-- The same schedule, in which nothing is played but on the resource `name`. -/
def Schedule.only (s : Schedule) (settings : Settings) (name : String) : Schedule :=
  { s with operations := s.operations.mapValues fun operation =>
      { operation with pulses := operation.pulses.map (Pulse.only settings name) } }

/-- Whether a placement is left if only the resource `name` is. An error is, unless it is about the
channel of another resource. -/
def Placement.concerns (name : String) : Except CompileError Placement → Bool
  | .ok p => p.channel = name
  | .error (.unknownChannel other _) => other = name
  | .error _ => true

theorem Pulse.normalize_eq_error {p : Pulse Float} {e : CompileError} :
    p.normalize = .error e ↔
      ∃ function, p.function = some function ∧ Shape.ofName? function = none ∧
        e = .unsupportedWaveform function := by
  rw [normalize]
  cases hfunction : p.function with
  | none => simp
  | some function => cases hshape : Shape.ofName? function <;> simp [hshape, eq_comm]

namespace Schedule

variable {s : Schedule} {settings : Settings} {library : WaveformLibrary Float} {name : String}

/-- What comes of a pulse that is not in error is left exactly if the pulse is played on the
resource. -/
theorem concerns_of_mem_placePulse {p normalized : Pulse Float} {modulations : Modulations Float}
    {time : Float} (hnormalize : p.normalize = .ok (modulations, normalized))
    {x : Except CompileError Placement} (hx : x ∈ s.placePulse settings time p) :
    Placement.concerns name x = p.goesTo settings name := by
  rw [placePulse, hnormalize] at hx
  cases hchannel : p.channel with
  | none => simp [hchannel] at hx
  | some channel =>
    simp only [hchannel] at hx
    split at hx
    · obtain rfl := List.mem_singleton.mp hx
      simp [Placement.concerns, Pulse.goesTo, hchannel]
    · obtain rfl := List.mem_singleton.mp hx
      simp [Placement.concerns, Pulse.goesTo, hchannel]

theorem placePulse_only (time : Float) (p : Pulse Float) :
    (s.only settings name).placePulse settings time (p.only settings name)
      = (s.placePulse settings time p).filter (Placement.concerns name) := by
  cases hnormalize : p.normalize with
  | error e =>
    -- a pulse in error stays in error, with a channel or without
    obtain ⟨function, hfunction, hshape, rfl⟩ := Pulse.normalize_eq_error.mp hnormalize
    have honly : (p.only settings name).normalize = .error (.unsupportedWaveform function) := by
      refine Pulse.normalize_eq_error.mpr ⟨function, ?_, hshape, rfl⟩
      rw [Pulse.only]
      split <;> exact hfunction
    rw [placePulse, placePulse, honly, hnormalize]
    rfl
  | ok split =>
    have hmem : ∀ x ∈ s.placePulse settings time p, Placement.concerns name x
        = p.goesTo settings name :=
      fun x hx => concerns_of_mem_placePulse hnormalize hx
    rw [Pulse.only]
    split
    · next hgoes =>
      rw [List.filter_eq_self.mpr fun x hx => (hmem x hx).trans hgoes]
      rfl
    · next hgoes =>
      rw [List.filter_eq_nil_iff.mpr fun x hx => by rwa [hmem x hx], placePulse]
      split
      · next e he =>
        have hfunction := Pulse.normalize_eq_error.mp he
        have herror : p.normalize = .error e := Pulse.normalize_eq_error.mpr hfunction
        rw [hnormalize] at herror
        cases herror
      · rfl

theorem placeConstraint_only (c : TimingConstraint) :
    (s.only settings name).placeConstraint settings c
      = (s.placeConstraint settings c).filter (Placement.concerns name) := by
  have hget : (s.only settings name).operations.get? c.operation
      = (s.operations.get? c.operation).map fun operation =>
          { operation with pulses := operation.pulses.map (Pulse.only settings name) } :=
    OrderedMap.get?_mapValues _ _ _
  rw [placeConstraint, placeConstraint, hget]
  cases s.operations.get? c.operation with
  | none => rfl
  | some operation =>
    simp only [Option.map_some, List.isEmpty_map]
    split
    · rfl
    cases c.time with
    | none => rfl
    | some time =>
      simp only [List.flatMap_map, List.filter_flatMap, placePulse_only]

/-- **The placements of one resource alone** are those that concern it, in their order. -/
theorem placements_only (s : Schedule) (settings : Settings) (name : String) :
    (s.only settings name).placements settings = (s.placements settings).filter
      (Placement.concerns name) := by
  rw [placements, placements, List.filter_flatMap]
  congr 1
  funext c
  exact placeConstraint_only c

theorem placements_only_of_placed {placed : List Placement}
    (hplaced : s.placements settings = placed.map .ok) (name : String) :
    (s.only settings name).placements settings
      = (placed.filter fun p => p.channel = name).map .ok := by
  rw [placements_only, hplaced, List.filter_map]
  rfl

end Schedule

/-! ## A loop over one resource -/

namespace Compilation

variable {rule : TuningRule} {library : WaveformLibrary Float} {name : String}

/-- The loop over the placements of one resource goes wherever the loop of its track does, and makes
no other track. -/
theorem collect_of_ofPlacements {placed : List Placement} {t : Option Track}
    (hname : ∀ p ∈ placed, p.channel = name) (h : Track.ofPlacements rule library placed = .ok t) :
    ∃ c, placed.foldlM (add rule library) start = .ok c ∧ c.tracks.entries = t.toList.map fun t =>
      (name, t) := by
  induction placed using List.reverseRecOn generalizing t with
  | nil =>
    obtain rfl := Except.ok.inj h
    exact ⟨start, rfl, rfl⟩
  | append_singleton placed p ih =>
    rw [Track.ofPlacements_concat] at h
    obtain ⟨before, hbefore, h⟩ := bind_eq_ok.mp h
    obtain ⟨c, hc, hentries⟩ := ih (fun q hq => hname q (List.mem_append_left _ hq)) hbefore
    have hchannel : p.channel = name := hname p (by simp)
    have htrack : c.track p.channel p.resource = before.getD (.start p.resource) := by
      rw [track, OrderedMap.get?, hentries, hchannel]
      cases before <;> simp
    cases hadd : (before.getD (.start p.resource)).add rule library p with
    | error e =>
      rw [hadd] at h
      cases h
    | ok after =>
      rw [hadd] at h
      obtain rfl := Except.ok.inj h
      rw [foldlM_concat hc, add, htrack, hadd]
      refine ⟨_, rfl, ?_⟩
      show insertEntry c.tracks.entries p.channel after = _
      rw [hentries, hchannel]
      cases before <;> simp [insertEntry]

/-- Where all tracks can be finished, so can the compilation. -/
theorem finish_of_forall₂ {c : Compilation} {s : Schedule} {settings : Settings}
    {resources : List CompiledResource}
    (h : List.Forall₂ (fun x r => c.finishTrack settings x.1 x.2.1 x.2.2 = .ok r)
      (c.used s) resources) :
    ∃ compiled, c.finish s settings = .ok compiled ∧ compiled.resources = resources := by
  refine ⟨⟨resources, c.acquisitions, c.duration, c.asked⟩, ?_, rfl⟩
  rw [finish]
  exact bind_eq_ok.mpr ⟨resources, mapM_eq_ok.mpr h, rfl⟩

/-- With a single track, a single resource is used. -/
theorem used_of_entries {c : Compilation} {s : Schedule} {r : Resource} {t : Track}
    (htracks : c.tracks.entries = [(name, t)]) (hr : s.resources.get? name = some r) :
    c.used s = [(name, r, t)] := by
  have hget : ∀ other, c.tracks.get? other = if other = name then some t else none := by
    intro other
    rw [OrderedMap.get?, htracks]
    by_cases hother : other = name
    · simp [hother]
    · simp [List.lookup_cons, hother, beq_false_of_ne hother]
  obtain ⟨before, after, hsplit⟩ := List.append_of_mem ((s.resources.mem_entries_iff name r).mpr hr)
  have hdistinct := s.resources.distinct
  rw [hsplit, List.map_append, List.map_cons, List.nodup_append, List.nodup_cons] at hdistinct
  obtain ⟨-, ⟨hafter, -⟩, hbefore⟩ := hdistinct
  have hnone : ∀ xs : List (String × Resource), name ∉ xs.map Prod.fst →
      (xs.filterMap fun x => (c.tracks.get? x.1).map fun t => (x.1, x.2, t)) = [] := by
    intro xs hxs
    rw [List.filterMap_eq_nil_iff]
    intro x hx
    have hne : x.1 ≠ name := fun heq => hxs (List.mem_map.mpr ⟨x, hx, heq⟩)
    rw [hget, if_neg hne]
    rfl
  show (s.resources.entries.filterMap fun x => (c.tracks.get? x.1).map fun t => (x.1, x.2, t)) = _
  rw [hsplit, List.filterMap_append,
    hnone before fun hmem => hbefore name hmem name List.mem_cons_self rfl,
    List.filterMap_cons_some (by rw [hget, if_pos rfl, Option.map_some]), hnone after hafter,
    List.nil_append]

end Compilation

/-! ## Memories -/

/-- Only the contents of the cache are looked for among those that are acquired. -/
theorem Memory.allocate_congr {c : Cache} {a b : List ContentKey}
    (h : ∀ key ∈ c.keys, key ∈ a ↔ key ∈ b) (resource : String) (capacity : Option Nat) :
    allocate resource c a capacity = allocate resource c b capacity := by
  have hplace : ∀ entry ∈ c.entries, ∀ m, place a m entry = place b m entry := by
    intro entry hentry m
    have hbank : bankFor a entry.1 = bankFor b entry.1 := by
      rw [bankFor, bankFor]
      exact ite_cond_congr (propext (h entry.1 (List.mem_map.mpr ⟨entry, hentry, rfl⟩)))
    rw [place, place, hbank]
  rw [allocate, allocate, foldlM_congr hplace]

/-- A track is finished without a look at what other resources acquire. -/
theorem Compilation.finishTrack_congr {c c' : Compilation} {t : Track}
    (h : ∀ key ∈ t.cache.keys, key ∈ c.acquisitions ↔ key ∈ c'.acquisitions) (settings : Settings)
    (name : String) (r : Resource) :
    c.finishTrack settings name r t = c'.finishTrack settings name r t := by
  rw [finishTrack, finishTrack, Memory.allocate_congr h]

namespace Schedule

variable {s : Schedule} {settings : Settings} {library : WaveformLibrary Float}
  {compiled : CompiledSchedule} {r : CompiledResource}

/-- The contents of a resource are acquired with all placements if and only if they are with its
own. -/
theorem mem_acquisitions_only_iff (hfree : s.CollisionFree) {placed : List Placement}
    {c own : Compilation} (hplaced : s.placements settings = placed.map .ok)
    (hfold : placed.foldlM (Compilation.add Track.tune library) .start = .ok c) {name : String}
    (hown : (placed.filter fun p => p.channel = name).foldlM
      (Compilation.add Track.tune library) .start = .ok own)
    {resource : Resource} (hresource : s.resources.get? name = some resource) {t : Track}
    (ht : c.tracks.get? name = some t) {key : ContentKey} (hkey : key ∈ t.cache.keys) :
    key ∈ own.acquisitions ↔ key ∈ c.acquisitions := by
  rw [Compilation.mem_acquisitions_iff hown, Compilation.mem_acquisitions_iff hfold]
  constructor
  · rintro ⟨p, hp, hacquires, hpkey⟩
    exact ⟨p, (List.mem_filter.mp hp).1, hacquires, hpkey⟩
  · rintro ⟨p, hp, hacquires, rfl⟩
    -- some placement of the resource has the same key, so both are on the same channel
    rw [(holds_track hplaced hfold hresource ht).keys, List.mem_eraseDups] at hkey
    obtain ⟨q, hq, hqkey⟩ := List.mem_map.mp hkey
    obtain ⟨other, hother, hname, rfl⟩ := (mem_playedOn_iff hplaced hresource q).mp hq
    have hsame := (channel_eq_of_key_eq hplaced hfree hp hother hqkey.symm).1
    exact ⟨p, List.mem_filter.mpr ⟨hp, decide_eq_true (hsame.trans hname)⟩, hacquires, rfl⟩

/-- **A resource is compiled as if there were no other.** Without the channels of all other
resources the schedule still compiles, to this resource alone: with the same entries, waveforms,
memory, frequency and end. -/
theorem compile_only (hfree : s.CollisionFree) (h : s.compile library settings = .ok compiled)
    (hr : r ∈ compiled.resources) :
    ∃ alone, (s.only settings r.name).compile library settings = .ok alone ∧ alone.resources = [r] ∧
      alone.duration = r.finish := by
  obtain ⟨placed, c, hplaced, hfold, hfinish⟩ := compile_eq_ok h
  obtain ⟨t, hresource, ht, hok⟩ := exists_track_of_mem hfinish hr
  have hown := Compilation.ofPlacements_collect hfold r.name
  rw [ht] at hown
  have hchannel : ∀ p ∈ placed.filter (fun p => p.channel = r.name), p.channel = r.name :=
    fun p hp => of_decide_eq_true (List.mem_filter.mp hp).2
  obtain ⟨c', hfold', hentries⟩ := Compilation.collect_of_ofPlacements hchannel hown
  have hacquired : ∀ key ∈ t.cache.keys, key ∈ c'.acquisitions ↔ key ∈ c.acquisitions :=
    fun key hkey => mem_acquisitions_only_iff hfree hplaced hfold hfold' hresource ht hkey
  have hused : c'.used (s.only settings r.name) = [(r.name, r.resource, t)] :=
    Compilation.used_of_entries hentries hresource
  have hfinished : List.Forall₂ (fun x r => c'.finishTrack settings x.1 x.2.1 x.2.2 = .ok r)
      (c'.used (s.only settings r.name)) [r] := by
    rw [hused]
    exact .cons
      ((Compilation.finishTrack_congr hacquired settings r.name r.resource).trans hok) .nil
  obtain ⟨alone, halone, hresources⟩ := Compilation.finish_of_forall₂ hfinished
  have hcompile : (s.only settings r.name).compile library settings = .ok alone := by
    rw [compile, compileWith, placements_only_of_placed hplaced, Compilation.collect,
      List.foldlM_map]
    exact bind_eq_ok.mpr ⟨c', hfold', halone⟩
  refine ⟨alone, hcompile, hresources, ?_⟩
  rw [duration_compile hcompile, hresources]
  show max 0 r.finish = r.finish
  exact max_eq_right (isProjection_of_mem h hr).finish_nonneg

/-- The driven qubit of the sample schedule, without the one that is read out. -/
theorem compile_only_sample :
    ∃ compiled, sample.CollisionFree ∧ sample.compile .standard .standard = .ok compiled ∧
      ∃ r ∈ compiled.resources, r.name = "q0" ∧
        ∃ alone, (sample.only .standard "q0").compile .standard .standard = .ok alone ∧
          alone.resources = [r] ∧ alone.duration = r.finish := by
  have hfree : sample.CollisionFree := by decide +kernel
  obtain ⟨configurations, h, hvalue⟩ := configure_sample
  obtain ⟨changes, clean, compiled, hclean, hcompiled, hmap⟩ := configure_eq_ok h
  obtain ⟨-, rfl⟩ := Prod.mk.inj (Except.ok.inj hclean)
  have hmem : ("q0", 28, [⟨0, .awg, 0, 1, 12⟩]) ∈ configurations.map fun x =>
      (x.1, x.2.program.duration, x.2.program.timeline) := by
    rw [hvalue]
    exact List.mem_cons_of_mem _ List.mem_cons_self
  obtain ⟨x, hx, hname⟩ := List.mem_map.mp hmem
  obtain ⟨r, hr, p, -, rfl⟩ := exists_of_mem_right hmap hx
  have hname : r.name = "q0" := (Prod.mk.inj hname).1
  refine ⟨compiled, hfree, hcompiled, r, hr, hname, ?_⟩
  rw [← hname]
  exact compile_only hfree hcompiled hr

end Schedule

end Sequencer
