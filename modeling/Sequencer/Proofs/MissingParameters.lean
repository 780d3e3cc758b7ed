import Sequencer.Proofs.Executed
import Sequencer.Proofs.LockStep
import Sequencer.Proofs.Signal

/-!
# Amplitudes that are missing

A waveform function cannot do without its amplitudes, and the library refuses a pulse that does not
have them. The compiler never shows it such a pulse. It normalizes pulses first, and normalization
puts a unit amplitude where there was one or none. A missing amplitude is therefore not reported. It
becomes a register that is not set, and the pulse is played with whatever an earlier one has left
there.

This is stated as a comparison with a library that does not check at all, because it supplies what
is missing. For the compiler the two are the same library: the pulses that they treat differently
are not among those that it asks for.

## Main definitions

* `Schedule.Complete` — the pulses that are played have the amplitudes they need
* `WaveformLibrary.filled` — the standard functions, without the check
* `Modulations.Sets` — the registers that a pulse of a shape needs are set

## Main results

* `Pulse.carries_of_normalize` — a normalized pulse has all amplitudes
* `Schedule.configure_congr` — a compilation depends on what the library says about normalized
  pulses, and on nothing else that it says
* `Schedule.missing_parameters_unnoticed` — the check makes no difference
* `Schedule.unscaled_accepted` — a schedule that is accepted without an amplitude
-/

namespace Sequencer

/-! ## The check and what passes it -/

/-- The gains that a pulse of a shape needs are set. -/
def Modulations.Sets (m : Modulations Float) : Shape → Prop
  | .square | .softSquare => m.gain.isSome = true
  | .drag => m.gain.isSome = true ∧ m.gainQ.isSome = true

namespace Pulse

variable {p normalized : Pulse Float} {modulations : Modulations Float} {function : String}
  {shape : Shape}

/-- Normalization sets a register exactly if the amplitude is there. -/
theorem sets_split_iff (p : Pulse Float) (shape : Shape) :
    (p.split shape).1.Sets shape ↔ p.Carries shape := by
  cases shape <;> exact Iff.rfl

theorem carries_split (p : Pulse Float) (shape : Shape) : (p.split shape).2.Carries shape := by
  cases shape with
  | square | softSquare => rfl
  | drag => exact ⟨rfl, rfl⟩

theorem function_split (p : Pulse Float) (shape : Shape) :
    (p.split shape).2.function = p.function := by
  cases shape <;> rfl

/-- **A normalized pulse has all amplitudes**, whether they were written or not. -/
theorem carries_of_normalize (h : p.normalize = .ok (modulations, normalized))
    (hfunction : normalized.function = some function) :
    ∃ shape, Shape.ofName? function = some shape ∧ normalized.Carries shape := by
  rcases normalize_eq_ok h with ⟨hnone, -, rfl⟩ | ⟨written, shape, hwritten, hshape, -, rfl⟩
  · rw [hnone] at hfunction
    cases hfunction
  · rw [function_split, hwritten] at hfunction
    obtain rfl := Option.some.inj hfunction
    exact ⟨shape, hshape, p.carries_split shape⟩

/-- The same pulse with a value in place of each missing amplitude. -/
def fill (value : Float) (p : Pulse Float) : Pulse Float :=
  { p with
    amplitude := p.amplitude.or (some value)
    gaussAmplitude := p.gaussAmplitude.or (some value)
    derivativeAmplitude := p.derivativeAmplitude.or (some value) }

theorem carries_fill (value : Float) (p : Pulse Float) (shape : Shape) :
    (p.fill value).Carries shape := by
  cases shape with
  | square | softSquare => simp [Carries, fill]
  | drag => simp [Carries, fill]

end Pulse

namespace WaveformLibrary

variable {p : Pulse Float} {function : String} {shape : Shape}

/-- The standard functions without the check: they take a value in place of each missing
amplitude. -/
def filled (value : Float) : WaveformLibrary Float :=
  fun function times p => standard function times (p.fill value)

theorem require_eq_ok {parameter : String} {value : Option Float} {a : Float}
    (h : require function parameter value = .ok a) : value = some a := by
  cases value with
  | none => cases h
  | some b => rw [Except.ok.inj h]

/-- The standard functions accept a pulse exactly if it has the amplitudes. -/
theorem exists_standard_iff (hshape : Shape.ofName? function = some shape) (times : List Float) :
    (∃ w, standard function times p = .ok w) ↔ p.Carries shape := by
  constructor
  · rintro ⟨w, hw⟩
    simp only [standard, standardOver, hshape] at hw
    cases shape with
    | square | softSquare =>
      obtain ⟨a, ha, -⟩ := bind_eq_ok.mp hw
      simp [Pulse.Carries, require_eq_ok ha]
    | drag =>
      obtain ⟨g, hg, hw⟩ := bind_eq_ok.mp hw
      obtain ⟨d, hd, -⟩ := bind_eq_ok.mp hw
      simp [Pulse.Carries, require_eq_ok hg, require_eq_ok hd]
  · intro hcarries
    cases shape with
    | square =>
      obtain ⟨a, ha⟩ := Option.isSome_iff_exists.mp hcarries
      exact ⟨_, standardOver_square .double times hshape ha⟩
    | softSquare =>
      obtain ⟨a, ha⟩ := Option.isSome_iff_exists.mp hcarries
      exact ⟨_, standardOver_softSquare .double times hshape ha⟩
    | drag =>
      obtain ⟨g, hg⟩ := Option.isSome_iff_exists.mp hcarries.1
      obtain ⟨d, hd⟩ := Option.isSome_iff_exists.mp hcarries.2
      exact ⟨_, standardOver_drag .double times hshape hg hd⟩

/-- The value is not used if the amplitudes are there. -/
theorem filled_of_carries (hshape : Shape.ofName? function = some shape)
    (hcarries : p.Carries shape) (value : Float) (times : List Float) :
    filled value function times p = standard function times p := by
  rw [filled, standard]
  cases shape with
  | square =>
    obtain ⟨a, ha⟩ := Option.isSome_iff_exists.mp hcarries
    have hfill : (p.fill value).amplitude = some a := by simp [Pulse.fill, ha]
    rw [standardOver_square .double times hshape ha, standardOver_square .double times hshape hfill]
  | softSquare =>
    obtain ⟨a, ha⟩ := Option.isSome_iff_exists.mp hcarries
    have hfill : (p.fill value).amplitude = some a := by simp [Pulse.fill, ha]
    rw [standardOver_softSquare .double times hshape ha,
      standardOver_softSquare .double times hshape hfill]
  | drag =>
    obtain ⟨g, hg⟩ := Option.isSome_iff_exists.mp hcarries.1
    obtain ⟨d, hd⟩ := Option.isSome_iff_exists.mp hcarries.2
    have hg' : (p.fill value).gaussAmplitude = some g := by simp [Pulse.fill, hg]
    have hd' : (p.fill value).derivativeAmplitude = some d := by simp [Pulse.fill, hd]
    rw [standardOver_drag .double times hshape hg hd,
      standardOver_drag .double times hshape hg' hd']
    rfl

end WaveformLibrary

/-! ## What a compilation asks the library -/

section Library

variable {library library' : WaveformLibrary Float} {s : Schedule}

theorem Compilation.add_congr {p : Placement}
    (h : library.render p.pulse p.resource.samplingRate
      = library'.render p.pulse p.resource.samplingRate)
    (rule : TuningRule) (c : Compilation) : c.add rule library p = c.add rule library' p := by
  simp only [add, Track.add, Placement.request, Sampler.request_congr h]

namespace Schedule

/-- The library is asked for normalized pulses only. -/
theorem compile_congr (h : ∀ p ∈ s.pulses, ∀ rate, library.render p rate = library'.render p rate)
    (settings : Settings) : s.compile library settings = s.compile library' settings := by
  rw [compile, compile, compileWith, compileWith, Compilation.collect, Compilation.collect]
  congr 1
  refine foldlM_congr (fun x hx c => ?_) _
  cases x with
  | error e => rfl
  | ok p => exact Compilation.add_congr (h p.pulse (pulse_of_mem_placements hx).1 _) _ c

theorem configure_congr (h : ∀ p ∈ s.pulses, ∀ rate, library.render p rate = library'.render p rate)
    (settings : Settings) : s.configure library settings = s.configure library' settings := by
  simp only [configure, compile_congr h]

/-- On normalized pulses the check makes no difference. -/
theorem render_filled {p : Pulse Float} (hp : p ∈ s.pulses) (value rate : Float) :
    WaveformLibrary.render .standard p rate = WaveformLibrary.render (.filled value) p rate := by
  obtain ⟨written, modulations, hnormalize⟩ := exists_of_mem_pulses hp
  cases hfunction : p.function with
  | none =>
    rw [WaveformLibrary.render_of_none hfunction, WaveformLibrary.render_of_none hfunction]
  | some function =>
    obtain ⟨shape, hshape, hcarries⟩ := Pulse.carries_of_normalize hnormalize hfunction
    rw [WaveformLibrary.render_of_some hfunction, WaveformLibrary.render_of_some hfunction]
    exact (WaveformLibrary.filled_of_carries hshape hcarries value _).symm

end Schedule

end Library

/-! ## Schedules with missing amplitudes -/

namespace Schedule

/-- The executed pulses that are to sound: those with a channel and a known waveform function. -/
def Sounds (s : Schedule) (p : Pulse Float) (function : String) (shape : Shape) : Prop :=
  p ∈ s.executed ∧ p.channel.isSome = true ∧ p.function = some function ∧
    Shape.ofName? function = some shape

/-- All of them have the amplitudes that they need. -/
def Complete (s : Schedule) : Prop :=
  ∀ p function shape, s.Sounds p function shape → p.Carries shape

/-- A missing amplitude goes unnoticed. -/
structure MissingUnnoticed (s : Schedule) (settings : Settings) (value : Float) : Prop where
  /-- The library would notice it. -/
  complete_iff : s.Complete ↔ ∀ p function shape, s.Sounds p function shape →
    ∀ times, ∃ w, WaveformLibrary.standard function times p = .ok w
  /-- A library without the check would not. -/
  lenient : ∀ p function shape times, Shape.ofName? function = some shape →
    ∃ w, WaveformLibrary.filled value function times p = .ok w
  /-- The schedule is configured as if there were no check. -/
  unchecked : s.configure .standard settings = s.configure (.filled value) settings
  /-- So to be accepted is to be complete only for a schedule that is complete anyway, or that is
  refused without the check. -/
  accepted_iff :
    (∀ configurations, s.configure .standard settings = .ok configurations → s.Complete) ↔
    s.Complete ∨ ∃ e, s.configure (.filled value) settings = .error e
  /-- In a compiled schedule, a missing amplitude is a register that is not set. -/
  unset : ∀ compiled, s.compile .standard settings = .ok compiled →
    ∀ p function shape, s.Sounds p function shape → ∃ r ∈ compiled.resources, ∃ e ∈ r.entries,
      p.goesTo settings r.name = true ∧ (e.modulations.Sets shape ↔ p.Carries shape)

variable {s : Schedule} {settings : Settings}

/-- A pulse that sounds has an entry, with its own register settings. -/
theorem exists_entry {library : WaveformLibrary Float} {compiled : CompiledSchedule}
    (h : s.compile library settings = .ok compiled) {p : Pulse Float} {function : String}
    {shape : Shape} (hp : s.Sounds p function shape) :
    ∃ r ∈ compiled.resources, ∃ e ∈ r.entries,
      p.goesTo settings r.name = true ∧ e.modulations = (p.split shape).1 := by
  obtain ⟨hmem, hchannel, hfunction, hshape⟩ := hp
  obtain ⟨placed, c, hplaced, -, -⟩ := compile_eq_ok h
  obtain ⟨q, hq, hplaces⟩ :=
    exists_of_mem_left (forall₂_placed hplaced) (List.mem_filter.mpr ⟨hmem, hchannel⟩)
  have hresource := resource_of_mem_placed hplaced hq
  have hplayed : (q.entry, q.pulse) ∈ s.playedOn settings q.channel q.resource :=
    (mem_playedOn_iff hplaced hresource _).mpr ⟨q, hq, rfl, rfl⟩
  obtain ⟨r, hr, hname, hown⟩ := (exists_compiled_iff h q.channel q.resource).mpr
    ⟨(s.resources.mem_entries_iff _ _).mpr hresource, List.ne_nil_of_mem hplayed⟩
  rw [← hname, ← hown] at hplayed
  refine ⟨r, hr, q.entry, mem_entries_of_mem_playedOn h hr hplayed, ?_, ?_⟩
  · exact (hplaces.goesTo_iff r.name).mpr hname.symm
  · have hnormalize := hplaces.normalize
    rw [Pulse.normalize_of_shape hfunction hshape, Except.ok.injEq] at hnormalize
    rw [hnormalize]

/-- **A missing amplitude goes unnoticed.** The library refuses a pulse without the amplitudes that
its function needs, but the compiler does not: a schedule is accepted or refused, and configured, as
if there were no such check, and where an amplitude is missing its register is not set. -/
theorem missing_parameters_unnoticed (s : Schedule) (settings : Settings) (value : Float) :
    s.MissingUnnoticed settings value := by
  have hsame : s.configure .standard settings = s.configure (.filled value) settings :=
    configure_congr (fun p hp rate => render_filled hp value rate) settings
  refine ⟨?_, fun p function shape times hshape => ?_, hsame, ?_,
    fun compiled h p function shape hp => ?_⟩
  · constructor
    · intro hcomplete p function shape hp times
      exact (WaveformLibrary.exists_standard_iff hp.2.2.2 times).mpr (hcomplete p function shape hp)
    · intro hsampled p function shape hp
      exact (WaveformLibrary.exists_standard_iff hp.2.2.2 []).mp (hsampled p function shape hp [])
  · exact (WaveformLibrary.exists_standard_iff hshape times).mpr (p.carries_fill value shape)
  · rw [hsame]
    cases s.configure (.filled value) settings with
    | error e => simp
    | ok configurations => simp
  · obtain ⟨r, hr, e, he, hgoes, hmodulations⟩ := exists_entry h hp
    refine ⟨r, hr, e, he, hgoes, ?_⟩
    rw [hmodulations]
    exact p.sets_split_iff shape

/-- A square pulse without an amplitude. -/
def unscaled : Schedule :=
  ((blank "unscaled").addResource (.plain "q0" .awg 1e9)).addPulse
    "drive" { Pulse.square "q0" 0 20e-9 0 with amplitude := none } 0

/-- **A schedule that is accepted without an amplitude**, although the library refuses its pulse. -/
theorem unscaled_accepted :
    (∃ configurations, unscaled.configure .standard .standard = .ok configurations ∧
      configurations.length = 1) ∧
      ¬ unscaled.Complete ∧ ∃ p, unscaled.Sounds p "square" .square ∧
        ∀ times, WaveformLibrary.standard "square" times p
          = .error (.missingParameter "square" "amp") := by
  have hvalue : (unscaled.configure .standard .standard).toOption.map List.length = some 1 := by
    decide +kernel
  have hsounds : unscaled.Sounds
      { Pulse.square "q0" 0 20e-9 0 with amplitude := none } "square" .square :=
    ⟨List.mem_cons_self, rfl, rfl, rfl⟩
  refine ⟨exists_ok_of_toOption hvalue, fun hcomplete => ?_, _, hsounds, fun times => rfl⟩
  exact absurd (hcomplete _ _ _ hsounds) (by decide)

end Schedule

end Sequencer
