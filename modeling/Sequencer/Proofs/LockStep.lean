import Sequencer.Configuration
import Sequencer.Proofs.Performance
import Sequencer.Proofs.Projection

/-!
# All programs take the same time

The sequencers of a schedule are not coordinated while they run: each loops over its own program.
They stay in step because every program takes the same time, to the sample. That time is the end of
the last waveform of the whole schedule, and a program that ends earlier waits.

Three stages have to agree for this. The tracks keep the latest end of their waveforms while they
are collected, the plan checks that end against the duration of the sequence, and its last wait is
computed from a clock of its own, which truncation may have held back. The clock never passes the
end that the track has kept, so the wait is never negative and the sum comes out as the duration.

## Main definitions

* `Schedule.ends` — when the waveforms of a schedule end, as the schedule has it

## Main results

* `Schedule.duration_eq_peak_ends` — the duration of the sequence
* `Schedule.configure_eq_ok` — where a configuration comes from
* `Schedule.programs_in_step` — all programs take the duration of the sequence
-/

namespace Sequencer

/-! ## When waveforms end -/

/-- The number of samples of a content, given what is played on a resource: those of the first pulse
that has the content, since later ones share its waveform. -/
def WaveformLibrary.samples (library : WaveformLibrary Float) (rate : Float)
    (played : List (Entry × Pulse Float)) (key : ContentKey) : Nat :=
  match played.find? fun q => q.1.key = key with
  | some q => ((library.render q.2 rate).toOption.map Waveform.length).getD 0
  | none => 0

/-- The end of every pulse that a schedule places: its start in samples and the length of its
waveform. -/
def Schedule.ends (s : Schedule) (library : WaveformLibrary Float) (settings : Settings) :
    List Int :=
  s.resources.entries.flatMap fun (name, r) =>
    (s.playedOn settings name r).map fun q =>
      q.1.time + library.samples r.samplingRate (s.playedOn settings name r) q.1.key

variable {s : Schedule} {library : WaveformLibrary Float} {settings : Settings}

namespace CompiledResource.IsProjection

variable {r : CompiledResource} (h : r.IsProjection library s settings)

include h

theorem mem_entries_iff (e : Entry) :
    e ∈ r.entries ↔ ∃ q ∈ s.playedOn settings r.name r.resource, q.1 = e := by
  rw [h.entries.mem_iff, List.mem_map]

theorem key_mem_cache {e : Entry} (he : e ∈ r.entries) : e.key ∈ r.cache.keys := by
  obtain ⟨q, hq, rfl⟩ := (mem_entries_iff h e).mp he
  rw [h.keys, List.mem_eraseDups]
  exact List.mem_map.mpr ⟨q, hq, rfl⟩

/-- Everything that a resource plays has been sampled. -/
theorem exists_waveform {e : Entry} (he : e ∈ r.entries) : ∃ w, r.cache.get? e.key = some w :=
  Option.isSome_iff_exists.mp ((OrderedMap.mem_keys_iff _ _).mp (key_mem_cache h he))

/-- The waveform of a content is that of the first pulse that has it. -/
theorem get?_cache (key : ContentKey) :
    r.cache.get? key
      = ((s.playedOn settings r.name r.resource).find? fun q => q.1.key = key).bind
        fun q => (library.render q.2 r.resource.samplingRate).toOption := by
  cases hw : r.cache.get? key with
  | some w =>
    obtain ⟨q, hq, hrender⟩ := h.sampled key w hw
    rw [hq, Option.bind_some, hrender]
    rfl
  | none =>
    have hkey : key ∉ r.cache.keys := by simp [OrderedMap.mem_keys_iff, hw]
    have hfind : (s.playedOn settings r.name r.resource).find? (fun q => q.1.key = key) = none := by
      rw [List.find?_eq_none]
      intro q hq hqkey
      rw [h.keys, List.mem_eraseDups] at hkey
      exact hkey (List.mem_map.mpr ⟨q, hq, of_decide_eq_true hqkey⟩)
    rw [hfind, Option.bind_none]

/-- The waveform that a resource has for an entry is as long as the schedule says. -/
theorem samples_eq {q : Entry × Pulse Float} (hq : q ∈ s.playedOn settings r.name r.resource) :
    r.cache.samples q.1.key
      = library.samples r.resource.samplingRate
        (s.playedOn settings r.name r.resource) q.1.key := by
  obtain ⟨w, hw⟩ := exists_waveform h ((mem_entries_iff h q.1).mpr ⟨q, hq, rfl⟩)
  obtain ⟨first, hfirst, hrender⟩ := h.sampled _ w hw
  rw [Cache.samples_of_get? hw, WaveformLibrary.samples, hfirst]
  simp [hrender, Except.toOption]

/-- No waveform of a resource ends after the end that the resource has kept. -/
theorem end_le_finish {e : Entry} (he : e ∈ r.entries) {w : Waveform Float}
    (hw : r.cache.get? e.key = some w) : e.time + w.length ≤ r.finish := by
  rw [h.finish, ← Cache.samples_of_get? hw]
  exact le_peak (List.mem_map.mpr ⟨e, he, rfl⟩)

theorem finish_nonneg : 0 ≤ r.finish := by
  rw [h.finish]
  exact peak_nonneg _

end CompiledResource.IsProjection

namespace Schedule

variable {compiled : CompiledSchedule}

/-- The compiled resources are those on which something is played. -/
theorem exists_compiled_iff (h : s.compile library settings = .ok compiled) (name : String)
    (r : Resource) :
    (∃ compiledResource ∈ compiled.resources, compiledResource.name = name ∧
        compiledResource.resource = r) ↔
      (name, r) ∈ s.resources.entries ∧ s.playedOn settings name r ≠ [] := by
  have hmem : (name, r) ∈ compiled.resources.map (fun r => (r.name, r.resource)) ↔
      (name, r) ∈ s.resources.entries ∧ s.playedOn settings name r ≠ [] := by
    rw [resources_compile h, List.mem_filter]
    simp
  rw [← hmem, List.mem_map]
  simp only [Prod.mk.injEq]

/-- **The sequence ends with the last waveform of the schedule.** -/
theorem duration_eq_peak_ends (h : s.compile library settings = .ok compiled) :
    compiled.duration = peak (s.ends library settings) := by
  have hfinish : compiled.resources.map CompiledResource.finish
      = compiled.resources.map fun r =>
          peak (r.entries.map fun e => e.time + r.cache.samples e.key) :=
    List.map_congr_left fun r hr => (isProjection_of_mem h hr).finish
  rw [duration_compile h, hfinish, peak_flatMap]
  refine peak_congr fun time => ?_
  simp only [ends, List.mem_flatMap, List.mem_map, Prod.exists]
  constructor
  · rintro ⟨r, hr, e, he, rfl⟩
    have hproj := isProjection_of_mem h hr
    obtain ⟨q, hq, rfl⟩ := (hproj.mem_entries_iff e).mp he
    refine ⟨r.name, r.resource, (s.resources.mem_entries_iff _ _).mpr hproj.resource,
      q.1, q.2, hq, ?_⟩
    rw [hproj.samples_eq hq]
  · rintro ⟨name, r, hmem, e, p, hq, rfl⟩
    obtain ⟨c, hc, rfl, rfl⟩ := (exists_compiled_iff h name r).mpr ⟨hmem, List.ne_nil_of_mem hq⟩
    have hproj := isProjection_of_mem h hc
    refine ⟨c, hc, e, (hproj.mem_entries_iff e).mpr ⟨(e, p), hq, rfl⟩, ?_⟩
    rw [hproj.samples_eq hq]

/-- The program of a compiled resource takes the duration of the sequence. -/
theorem duration_of_program (h : s.compile library settings = .ok compiled) {r : CompiledResource}
    (hr : r ∈ compiled.resources) {p : Program}
    (hp : r.program compiled.duration settings = .ok p) :
    (p.duration : Int) = compiled.duration := by
  have hproj := isProjection_of_mem h hr
  have hne : r.entries ≠ [] := by
    obtain ⟨-, hplayed⟩ := (exists_compiled_iff h r.name r.resource).mp ⟨r, hr, rfl, rfl⟩
    obtain ⟨q, hq⟩ := List.exists_mem_of_ne_nil _ hplayed
    exact List.ne_nil_of_mem ((hproj.mem_entries_iff q.1).mpr ⟨q, hq, rfl⟩)
  exact CompiledResource.duration_program hproj.entries.ascending hne hproj.finish_nonneg
    (fun e he w hw => hproj.end_le_finish he hw) hp

/-! ## Configurations -/

/-- A schedule that can be configured compiles under the settings made fit for use, and its
configurations hold the programs of the compiled resources, in order. -/
theorem configure_eq_ok {configurations : List (String × Configuration)}
    (h : s.configure library settings = .ok configurations) :
    ∃ changes clean compiled, settings.sanitize = .ok (changes, clean) ∧
      s.compile library clean = .ok compiled ∧
      List.Forall₂
        (fun r x => ∃ p, r.program compiled.duration clean = .ok p ∧ x = (r.name, r.configure p))
        compiled.resources configurations := by
  rw [configure] at h
  obtain ⟨⟨changes, clean⟩, hclean, h⟩ := bind_eq_ok.mp h
  obtain ⟨compiled, hcompiled, h⟩ := bind_eq_ok.mp h
  refine ⟨changes, clean, compiled, hclean, hcompiled, (mapM_eq_ok.mp h).imp fun r x hx => ?_⟩
  obtain ⟨p, hp, hx⟩ := bind_eq_ok.mp hx
  exact ⟨p, hp, (pure_eq_ok.mp hx).symm⟩

/-- **All programs take the same time.** It is the end of the last waveform that the schedule places
on any resource, and it is the duration of the sequence as the compilation reports it. -/
theorem programs_in_step (s : Schedule) (library : WaveformLibrary Float) (settings : Settings) :
    (∀ compiled, s.compile library settings = .ok compiled →
      compiled.duration = peak (s.ends library settings) ∧
      ∀ r ∈ compiled.resources, ∀ p, r.program compiled.duration settings = .ok p →
        (p.duration : Int) = compiled.duration) ∧
    ∀ configurations, s.configure library settings = .ok configurations →
      ∃ changes clean, settings.sanitize = .ok (changes, clean) ∧
        ∀ x ∈ configurations, (x.2.program.duration : Int) = peak (s.ends library clean) := by
  refine ⟨fun compiled h =>
    ⟨duration_eq_peak_ends h, fun r hr p hp => duration_of_program h hr hp⟩, ?_⟩
  intro configurations h
  obtain ⟨changes, clean, compiled, hclean, hcompiled, hmap⟩ := configure_eq_ok h
  refine ⟨changes, clean, hclean, fun x hx => ?_⟩
  obtain ⟨r, hr, p, hp, rfl⟩ := exists_of_mem_right hmap hx
  rw [← duration_eq_peak_ends hcompiled]
  exact duration_of_program hcompiled hr hp

/-- The configurations of the sample schedule, with the times their programs take and what they
sound. -/
theorem configure_sample :
    ∃ configurations, sample.configure .standard .standard = .ok configurations ∧
      configurations.map (fun x => (x.1, x.2.program.duration, x.2.program.timeline))
        = [("q1", 28, [⟨20, .acq, 0, 1, 8⟩]), ("q0", 28, [⟨0, .awg, 0, 1, 12⟩])] :=
  exists_ok_of_toOption (by decide +kernel)

theorem programs_in_step_sample :
    ∃ compiled configurations, sample.compile .standard .standard = .ok compiled ∧
      compiled.duration = peak (sample.ends .standard .standard) ∧
      (∃ r ∈ compiled.resources, ∃ p, r.program compiled.duration .standard = .ok p ∧
        (p.duration : Int) = compiled.duration) ∧
      sample.configure .standard .standard = .ok configurations ∧
      (∃ x ∈ configurations, x.1 = "q0" ∧ x.2.program.duration = 28) ∧
      ∀ x ∈ configurations, (x.2.program.duration : Int)
        = peak (sample.ends .standard .standard) := by
  obtain ⟨configurations, h, hvalue⟩ := configure_sample
  obtain ⟨changes, clean, compiled, hclean, hcompiled, hmap⟩ := configure_eq_ok h
  obtain ⟨-, rfl⟩ := Prod.mk.inj (Except.ok.inj hclean)
  have hmem : ("q0", 28, [⟨0, .awg, 0, 1, 12⟩]) ∈
      configurations.map fun x => (x.1, x.2.program.duration, x.2.program.timeline) := by
        simp [hvalue]
  obtain ⟨x, hx, hx'⟩ := List.mem_map.mp hmem
  simp only [Prod.mk.injEq] at hx'
  obtain ⟨r, hr, p, hp, rfl⟩ := exists_of_mem_right hmap hx
  obtain ⟨hstep, hconfigure⟩ := programs_in_step sample .standard .standard
  obtain ⟨hduration, hprograms⟩ := hstep compiled hcompiled
  obtain ⟨changes', clean', hclean', hall⟩ := hconfigure configurations h
  obtain ⟨-, rfl⟩ := Prod.mk.inj (Except.ok.inj hclean')
  exact ⟨compiled, configurations, hcompiled, hduration, ⟨r, hr, p, hp, hprograms r hr p hp⟩, h,
    ⟨_, hx, hx'.1, hx'.2.1⟩, hall⟩

end Schedule

end Sequencer
