import Sequencer.Proofs.Agreement
import Sequencer.Proofs.Projection

/-!
# Registers and times leave the memory alone

Amplitudes and phases are set by registers, and times by waits. A schedule in which only these are
changed, a sweep of an amplitude or of a delay, needs the same waveforms in the same places, so that
a sequencer does not have to be loaded again. This compares two compilations in which every single
pulse may differ.

Both run in step. What differs between the two is what normalization takes out of a pulse and the
time of its entry; the first goes to the registers, and neither is looked at again before the
entries are sorted. All that is looked at — contents, caches, frequencies, the list of acquired
contents, the capacity of the banks — is the same on both sides, and so is the error if there is
one.

## Main definitions

* `Pulse.Varies`, `Schedule.Varies` — the same but for registers and times
* `WaveformLibrary.IgnoresStart` — samples do not depend on when a pulse starts
* `CompiledResource.SameMemory` — the same waveforms in the same places, with the same frequency

## Main results

* `Pulse.Varies.normalize` — normalization takes out what varies
* `Compilation.Alike.add` — two placements in step
* `Schedule.Varies.compile` — two compilations in step
* `Schedule.memory_unaffected` — registers and times leave the memory alone
-/

namespace Sequencer

/-! ## What varies -/

/-- Pulses that differ in nothing but when they start, and in what a sequencer sets by registers:
the amplitude of a square or a soft square, the amplitudes and the phase of a drag pulse. These may
also be missing. -/
structure Pulse.Varies (p q : Pulse Float) : Prop where
  channel : p.channel = q.channel
  duration : p.duration = q.duration
  function : p.function = q.function
  amplitude : p.amplitude = q.amplitude ∨ p.function = some "square" ∨
    p.function = some "soft_square"
  gaussAmplitude : p.gaussAmplitude = q.gaussAmplitude ∨ p.function = some "drag"
  derivativeAmplitude : p.derivativeAmplitude = q.derivativeAmplitude ∨ p.function = some "drag"
  phase : p.phase = q.phase ∨ p.function = some "drag"
  modulation : p.modulation = q.modulation
  sigmas : p.sigmas = q.sigmas
  extra : p.extra = q.extra

/-- Operations of the same name whose pulses differ in registers and starts. -/
structure Schedule.Operation.Varies (a b : Schedule.Operation) : Prop where
  name : a.name = b.name
  pulses : List.Forall₂ Pulse.Varies a.pulses b.pulses

/-- Schedules that differ in registers and times. A time that has been determined is still
determined. -/
structure Schedule.Varies (s t : Schedule) : Prop where
  name : s.name = t.name
  operations : ∀ key, Option.Rel Schedule.Operation.Varies (s.operations.get? key)
    (t.operations.get? key)
  constraints : List.Forall₂ (fun c d => c.operation = d.operation ∧ c.time.isSome = d.time.isSome)
    s.constraints t.constraints
  resources : s.resources = t.resources

/-! ## Pulses -/

namespace Shape

/-- The name of a waveform function. -/
def name : Shape → String
  | .square => "square"
  | .softSquare => "soft_square"
  | .drag => "drag"

theorem eq_name_of_ofName? {function : String} {shape : Shape} (h : ofName? function = some shape) :
    function = shape.name := by
  rw [ofName?] at h
  split at h
  · next hname =>
    obtain rfl := Option.some.inj h
    exact hname
  split at h
  · next hname =>
    obtain rfl := Option.some.inj h
    exact hname
  split at h
  · next hname =>
    obtain rfl := Option.some.inj h
    exact hname
  · cases h

end Shape

namespace Pulse

variable {p q : Pulse Float}

/-- Pulses that differ in nothing but when they start. -/
def EqButStart (p q : Pulse Float) : Prop := ∃ start, p = { q with start := start }

theorem EqButStart.contentKey (h : p.EqButStart q) : p.contentKey = q.contentKey := by
  obtain ⟨start, rfl⟩ := h
  rfl

theorem EqButStart.function (h : p.EqButStart q) : p.function = q.function := by
  obtain ⟨start, rfl⟩ := h
  rfl

theorem EqButStart.modulation (h : p.EqButStart q) : p.modulation = q.modulation := by
  obtain ⟨start, rfl⟩ := h
  rfl

/-- A silent pulse has nothing to set by registers. -/
theorem Varies.eqButStart (h : p.Varies q) (hsilent : p.function = none) : p.EqButStart q := by
  have hamplitude := h.amplitude.resolve_right (by simp [hsilent])
  have hgauss := h.gaussAmplitude.resolve_right (by simp [hsilent])
  have hderivative := h.derivativeAmplitude.resolve_right (by simp [hsilent])
  have hphase := h.phase.resolve_right (by simp [hsilent])
  refine ⟨p.start, ?_⟩
  rw [← h.channel, ← h.duration, ← h.function, ← hamplitude, ← hgauss, ← hderivative, ← hphase,
    ← h.modulation, ← h.sigmas, ← h.extra]

/-- What varies is what the shape of a pulse takes to the registers. -/
theorem Varies.split (h : p.Varies q) {shape : Shape} (hshape : p.function = some shape.name) :
    (p.split shape).2.EqButStart (q.split shape).2 := by
  refine ⟨p.start, ?_⟩
  cases shape with
  | square | softSquare =>
    have hgauss := h.gaussAmplitude.resolve_right (by simp [hshape, Shape.name])
    have hderivative := h.derivativeAmplitude.resolve_right (by simp [hshape, Shape.name])
    have hphase := h.phase.resolve_right (by simp [hshape, Shape.name])
    simp only [Pulse.split]
    rw [← h.channel, ← h.duration, ← h.function, ← hgauss, ← hderivative, ← hphase, ← h.modulation,
      ← h.sigmas, ← h.extra]
  | drag =>
    have hamplitude := h.amplitude.resolve_right (by simp [hshape, Shape.name])
    simp only [Pulse.split]
    rw [← h.channel, ← h.duration, ← h.function, ← hamplitude, ← h.modulation, ← h.sigmas,
      ← h.extra]

/-- **Normalization takes out what varies.** -/
theorem Varies.normalize (h : p.Varies q) :
    Agree (fun a b => a.2.EqButStart b.2) p.normalize q.normalize := by
  rw [Pulse.normalize.eq_def, Pulse.normalize.eq_def, ← h.function]
  cases hfunction : p.function with
  | none => exact .ok (h.eqButStart hfunction)
  | some function =>
    cases hshape : Shape.ofName? function with
    | none =>
      simp only [hshape]
      exact .error _
    | some shape =>
      simp only [hshape]
      rw [Shape.eq_name_of_ofName? hshape] at hfunction
      exact .ok (h.split hfunction)

end Pulse

/-! ## Placements -/

/-- Placements that differ in the time and the registers of their entries. -/
structure Placement.Alike (p q : Placement) : Prop where
  channel : p.channel = q.channel
  resource : p.resource = q.resource
  acquires : p.acquires = q.acquires
  key : p.entry.key = q.entry.key
  pulse : p.pulse.EqButStart q.pulse

namespace Schedule

variable {s t : Schedule}

theorem Varies.placePulse (h : s.Varies t) (settings : Settings) (time time' : Float)
    {p q : Pulse Float} (hpulse : p.Varies q) :
    List.Forall₂ (Agree Placement.Alike) (s.placePulse settings time p)
      (t.placePulse settings time' q) := by
  rw [Schedule.placePulse, Schedule.placePulse, ← hpulse.channel]
  rcases hpulse.normalize.outcome with ⟨e, hp, hq⟩ | ⟨⟨m, a⟩, ⟨m', b⟩, hp, hq, hab⟩
  · rw [hp, hq]
    exact .cons (.error e) .nil
  · rw [hp, hq]
    cases p.channel with
    | none => exact .nil
    | some channel =>
      simp only
      rw [← h.resources, ← h.name]
      cases s.resources.get? (settings.resolve channel).1 with
      | none => exact .cons (.error _) .nil
      | some resource => exact .cons (.ok ⟨rfl, rfl, rfl, hab.contentKey, hab⟩) .nil

theorem Varies.placeConstraint (h : s.Varies t) (settings : Settings) {c d : TimingConstraint}
    (hconstraint : c.operation = d.operation ∧ c.time.isSome = d.time.isSome) :
    List.Forall₂ (Agree Placement.Alike) (s.placeConstraint settings c)
      (t.placeConstraint settings d) := by
  obtain ⟨hoperation, htime⟩ := hconstraint
  rw [Schedule.placeConstraint, Schedule.placeConstraint, ← hoperation, ← h.name]
  rcases outcome_of_rel (h.operations c.operation) with ⟨ha, hb⟩ | ⟨a, b, ha, hb, hab⟩
  · rw [ha, hb]
    exact .cons (.error _) .nil
  · rw [ha, hb]
    have hempty : a.pulses.isEmpty = b.pulses.isEmpty := by
      rw [Bool.eq_iff_iff, List.isEmpty_iff_length_eq_zero, List.isEmpty_iff_length_eq_zero,
        hab.pulses.length_eq]
    simp only [← hempty, ← hab.name]
    split
    · exact .cons (.error _) .nil
    cases hc : c.time with
    | none =>
      cases hd : d.time with
      | none => exact .cons (.error _) .nil
      | some time' => simp [hc, hd] at htime
    | some time =>
      cases hd : d.time with
      | none => simp [hc, hd] at htime
      | some time' =>
        exact List.rel_flatMap hab.pulses fun _ _ hpulse => h.placePulse settings time time' hpulse

theorem Varies.placements (h : s.Varies t) (settings : Settings) :
    List.Forall₂ (Agree Placement.Alike) (s.placements settings) (t.placements settings) :=
  List.rel_flatMap h.constraints fun _ _ hconstraint => h.placeConstraint settings hconstraint

end Schedule

/-! ## Tracks -/

/-- A library whose samples do not depend on when a pulse starts. -/
def WaveformLibrary.IgnoresStart (library : WaveformLibrary Float) : Prop :=
  ∀ function times (p : Pulse Float) start,
    library function times { p with start := start } = library function times p

theorem WaveformLibrary.ignoresStart_standard : IgnoresStart .standard := fun _ _ _ _ => rfl

theorem WaveformLibrary.IgnoresStart.render {library : WaveformLibrary Float}
    (h : library.IgnoresStart) {p q : Pulse Float} (hpulse : p.EqButStart q) (rate : Float) :
    library.render p rate = library.render q rate := by
  have hsame := hpulse.function
  obtain ⟨start, hp⟩ := hpulse
  cases hfunction : q.function with
  | none =>
    rw [render_of_none hfunction, render_of_none (hsame.trans hfunction), hp]
  | some function =>
    rw [render_of_some hfunction, render_of_some (hsame.trans hfunction), hp]
    exact h function _ q start

variable {library : WaveformLibrary Float}

/-- Tracks with the same waveforms and the same frequency. -/
structure Track.Alike (t t' : Track) : Prop where
  cache : t.cache = t'.cache
  frequency : t.frequency = t'.frequency

theorem Track.Alike.add (hlibrary : library.IgnoresStart) {t t' : Track} (h : t.Alike t')
    {p q : Placement} (hpq : p.Alike q) :
    Agree Track.Alike (t.add tune library p) (t'.add tune library q) := by
  have htune : t.tune p = t'.tune q := by
    rw [tune, tune, h.cache, h.frequency, hpq.key, hpq.resource, hpq.pulse.modulation]
  have hrender : library.render p.pulse p.resource.samplingRate
      = library.render q.pulse q.resource.samplingRate := by
    rw [hpq.resource, hlibrary.render hpq.pulse]
  have hget : t.cache.get? p.entry.key = t'.cache.get? q.entry.key := by rw [h.cache, hpq.key]
  rw [Track.add, Track.add, htune, Placement.request, Placement.request]
  refine (Agree.refl _).bind ?_
  rintro frequency _ rfl
  -- the pulses may start at different times, so the questions differ and the answers do not
  cases hfound : t'.cache.get? q.entry.key with
  | some w =>
    rw [Sampler.request_of_some hfound, Sampler.request_of_some (hget.trans hfound)]
    exact .ok ⟨h.cache, rfl⟩
  | none =>
    cases hsampled : library.render q.pulse q.resource.samplingRate with
    | error e =>
      rw [Sampler.request_of_error hfound hsampled,
        Sampler.request_of_error (hget.trans hfound) (hrender.trans hsampled)]
      exact .error e
    | ok w =>
      rw [Sampler.request_of_ok hfound hsampled,
        Sampler.request_of_ok (hget.trans hfound) (hrender.trans hsampled), h.cache, hpq.key]
      exact .ok ⟨rfl, rfl⟩

/-! ## Compilations -/

/-- Compiled resources with the same waveforms in the same places, and with the same frequency. -/
structure CompiledResource.SameMemory (r r' : CompiledResource) : Prop where
  name : r.name = r'.name
  resource : r.resource = r'.resource
  /-- The contents and their samples, in order. -/
  cache : r.cache = r'.cache
  memory : r.memory = r'.memory
  frequency : r.frequency = r'.frequency

/-- Compiled schedules with the same waveforms in the same places on all resources, and with the
same acquired contents. -/
structure CompiledSchedule.SameMemory (compiled compiled' : CompiledSchedule) : Prop where
  resources : List.Forall₂ CompiledResource.SameMemory compiled.resources compiled'.resources
  acquisitions : compiled.acquisitions = compiled'.acquisitions

namespace Compilation

/-- Compilations with the same waveforms and frequencies on all tracks, and the same acquired
contents. -/
structure Alike (c c' : Compilation) : Prop where
  tracks : ∀ name, Option.Rel Track.Alike (c.tracks.get? name) (c'.tracks.get? name)
  acquisitions : c.acquisitions = c'.acquisitions

variable {c c' : Compilation}

theorem Alike.track (h : c.Alike c') (name : String) (r : Resource) :
    (c.track name r).Alike (c'.track name r) := by
  rw [Compilation.track, Compilation.track]
  rcases outcome_of_rel (h.tracks name) with ⟨ha, hb⟩ | ⟨a, b, ha, hb, hab⟩
  · rw [ha, hb]
    exact ⟨rfl, rfl⟩
  · rw [ha, hb]
    exact hab

/-- **Two placements in step.** -/
theorem Alike.add (hlibrary : library.IgnoresStart) (h : c.Alike c') {p q : Placement}
    (hpq : p.Alike q) : Agree Alike (c.add Track.tune library p) (c'.add Track.tune library q) := by
  rw [Compilation.add, Compilation.add, ← hpq.channel, ← hpq.resource, ← hpq.acquires, ← hpq.key,
    ← h.acquisitions]
  refine ((h.track p.channel p.resource).add hlibrary hpq).bind fun t t' htt' =>
    .ok ⟨fun name => ?_, rfl⟩
  rw [OrderedMap.get?_insert, OrderedMap.get?_insert]
  split
  · exact .some htt'
  · exact h.tracks name

theorem Alike.collect (hlibrary : library.IgnoresStart) (h : c.Alike c')
    {placements placements' : List (Except CompileError Placement)}
    (hplacements : List.Forall₂ (Agree Placement.Alike) placements placements') :
    Agree Alike (c.collect Track.tune library placements)
      (c'.collect Track.tune library placements') := by
  refine Agree.foldlM hplacements (fun c c' x y hc hxy => ?_) h
  exact hxy.bind fun p q hpq => hc.add hlibrary hpq

theorem Alike.finishTrack (h : c.Alike c') (settings : Settings) (name : String) (r : Resource)
    {t t' : Track} (htt' : t.Alike t') :
    Agree CompiledResource.SameMemory (c.finishTrack settings name r t)
      (c'.finishTrack settings name r t') := by
  rw [Compilation.finishTrack, Compilation.finishTrack, ← htt'.cache, ← htt'.frequency,
    ← h.acquisitions]
  refine (Agree.refl _).bind ?_
  rintro memory _ rfl
  exact .ok ⟨rfl, rfl, rfl, rfl, rfl⟩

theorem Alike.used (h : c.Alike c') {s t : Schedule} (hresources : s.resources = t.resources) :
    List.Forall₂ (fun x y => x.1 = y.1 ∧ x.2.1 = y.2.1 ∧ x.2.2.Alike y.2.2) (c.used s)
      (c'.used t) := by
  have hself : List.Forall₂ Eq s.resources.entries s.resources.entries := List.forall₂_refl _
  rw [Compilation.used, Compilation.used, ← hresources]
  refine List.rel_filterMap ?_ hself
  rintro ⟨name, r⟩ _ rfl
  simp only
  rcases outcome_of_rel (h.tracks name) with ⟨ha, hb⟩ | ⟨a, b, ha, hb, hab⟩
  · rw [ha, hb]
    exact .none
  · rw [ha, hb]
    exact .some ⟨rfl, rfl, hab⟩

theorem Alike.finish (h : c.Alike c') {s t : Schedule} (hresources : s.resources = t.resources)
    (settings : Settings) :
    Agree CompiledSchedule.SameMemory (c.finish s settings) (c'.finish t settings) := by
  rw [Compilation.finish, Compilation.finish]
  refine (Agree.mapM (h.used hresources) ?_).bind fun resources resources' hall =>
    .ok ⟨hall, h.acquisitions⟩
  rintro ⟨name, r, t⟩ ⟨_, _, t'⟩ ⟨rfl, rfl, htt'⟩
  exact h.finishTrack settings name r htt'

end Compilation

namespace Schedule

/-- **Two compilations in step.** -/
theorem Varies.compile {s t : Schedule} (h : s.Varies t) (hlibrary : library.IgnoresStart)
    (settings : Settings) :
    Agree CompiledSchedule.SameMemory (s.compile library settings)
      (t.compile library settings) := by
  have hstart : Compilation.Alike .start .start := ⟨fun _ => .none, rfl⟩
  rw [Schedule.compile, Schedule.compile, compileWith, compileWith]
  exact (hstart.collect hlibrary (h.placements settings)).bind fun c c' hcc' =>
    hcc'.finish h.resources settings

/-- **Registers and times leave the memory alone.** Two schedules that differ in nothing but the
times of operations, the starts of pulses, the amplitudes of squares and soft squares, and the
amplitudes and phases of drag pulses, either cannot be compiled for the same reason, or are compiled
to the same waveforms in the same places, with the same frequencies and the same acquired
contents. -/
theorem memory_unaffected {s t : Schedule} (h : s.Varies t) (settings : Settings) :
    (∃ e, s.compile .standard settings = .error e ∧ t.compile .standard settings = .error e) ∨
      ∃ compiled compiled', s.compile .standard settings = .ok compiled ∧
        t.compile .standard settings = .ok compiled' ∧ compiled.SameMemory compiled' :=
  (h.compile WaveformLibrary.ignoresStart_standard settings).outcome

/-- A square and a drag pulse on two qubits, at a time and with an amplitude that may be missing. -/
def sweep (time : Float) (amplitude : Option Float) : Schedule :=
  ((((blank "sweep").addResource (.plain "q0" .awg 1e9)).addResource
    (.plain "q1" .awg 1e9)).addPulse
    "drive" { Pulse.square "q0" time 12e-9 0 with amplitude := amplitude } time).addPulse
    "turn" { Pulse.drag "q1" 0 16e-9 0 0.125 0 with
      gaussAmplitude := amplitude, phase := amplitude } time

theorem varies_sweep (time time' : Float) (amplitude amplitude' : Option Float) :
    (sweep time amplitude).Varies (sweep time' amplitude') where
  name := rfl
  operations := by
    intro key
    simp only [sweep, addPulse, addOperation, place, OrderedMap.get?_insert]
    split
    · exact .some ⟨rfl,
        .cons ⟨rfl, rfl, rfl, .inl rfl, .inr rfl, .inr rfl, .inr rfl, rfl, rfl, rfl⟩ .nil⟩
    split
    · exact .some ⟨rfl, .cons ⟨rfl, rfl, rfl, .inr (.inl rfl), .inl rfl, .inl rfl, .inl rfl, rfl,
        rfl, rfl⟩ .nil⟩
    · exact .none
  constraints := .cons ⟨rfl, rfl⟩ (.cons ⟨rfl, rfl⟩ .nil)
  resources := rfl

theorem memory_unaffected_sweep :
    (sweep 0 (some 0.25)).Varies (sweep 20e-9 none) ∧
      ∃ compiled compiled', (sweep 0 (some 0.25)).compile .standard .standard = .ok compiled ∧
        (sweep 20e-9 none).compile .standard .standard = .ok compiled' ∧
        compiled.SameMemory compiled' ∧ compiled.duration = 16 ∧ compiled'.duration = 52 := by
  have hvaries := varies_sweep 0 20e-9 (some 0.25) none
  have hvalue :
    ((sweep 0 (some 0.25)).compile .standard .standard).toOption.map CompiledSchedule.duration
      = some 16 := by decide +kernel
  have hvalue' :
    ((sweep 20e-9 none).compile .standard .standard).toOption.map CompiledSchedule.duration
      = some 52 := by decide +kernel
  obtain ⟨compiled, h, hduration⟩ := exists_ok_of_toOption hvalue
  obtain ⟨compiled', h', hduration'⟩ := exists_ok_of_toOption hvalue'
  rcases memory_unaffected hvaries .standard with ⟨e, he, -⟩ | ⟨_, _, ha, hb, hsame⟩
  · rw [h] at he
    cases he
  · obtain rfl := Except.ok.inj (h.symm.trans ha)
    obtain rfl := Except.ok.inj (h'.symm.trans hb)
    exact ⟨hvaries, compiled, compiled', h, h', hsame, hduration, hduration'⟩

end Schedule

end Sequencer
