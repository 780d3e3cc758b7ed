import Sequencer.Proofs.Comments
import Sequencer.Proofs.Workers

/-!
# What the flags change

Two settings are flags, and each is meant to change one thing. Comments are for people who read a
program. Limits on the banks are there to refuse a schedule whose waveforms do not fit.

Both flags are passed through the whole compilation, so each statement compares two compilations.
With and without comments they run in step to the end. With limits on the banks, a compilation
either does what it does without them, or it is refused; that relation is kept by every way to put
computations together, and the only place where it is not an equality is the check itself.

If several resources fail, the error that is reported may be that of any of them, in both
compilations. So it is the possible outcomes that are compared, resource by resource, and not only
the outcomes in order.

## Main definitions

* `Configuration.Silences` — a configuration with and without comments
* `Corresponds` — possible outcomes on two sides
* `CompileError.OutOfCapacity`, `Limited` — the same outcome, unless a bank is too small

## Main results

* `CompiledSchedule.Yields.agree` — what is true of every resource is true of the outcomes
* `Limited.bind`, `Limited.mapM` — limits in a sequence and in a list of computations
* `Schedule.configure_flags` — what the flags change
-/

namespace Sequencer

/-! ## Comments -/

/-- The second configuration is the first without its comments: the same waveforms, the same
instrument, the same rows but for the comments, and a listing that is the same line by line but for
the comments and the blanks before them. -/
structure Configuration.Silences (on off : Configuration) : Prop where
  awg : off.awg = on.awg
  acq : off.acq = on.acq
  instrument : off.instrument = on.instrument
  rows : off.program.rows = on.program.rows.map Row.uncommented
  lines : Listing.lines off.program.listing = (Listing.lines on.program.listing).map Listing.code

/-! ## Outcomes -/

/-- Whatever one side can come to, the other side can come to as well. -/
structure Corresponds {α β : Type} (R : α → β → Prop) (P : Except CompileError α → Prop)
    (Q : Except CompileError β → Prop) : Prop where
  forth : ∀ x, P x → ∃ y, Q y ∧ Agree R x y
  back : ∀ y, Q y → ∃ x, P x ∧ Agree R x y

namespace Corresponds

variable {α β : Type} {R : α → β → Prop} {P P' : Except CompileError α → Prop}
  {Q Q' : Except CompileError β → Prop}

/-- Where there is one outcome on each side, it is enough to compare these. -/
theorem of_iff {x : Except CompileError α} {y : Except CompileError β} (hP : ∀ z, P z ↔ z = x)
    (hQ : ∀ z, Q z ↔ z = y) (h : Agree R x y) : Corresponds R P Q where
  forth := fun z hz => ⟨y, (hQ y).mpr rfl, (hP z).mp hz ▸ h⟩
  back := fun z hz => ⟨x, (hP x).mpr rfl, (hQ z).mp hz ▸ h⟩

theorem congr (h : Corresponds R P Q) (hP : ∀ z, P' z ↔ P z) (hQ : ∀ z, Q' z ↔ Q z) :
    Corresponds R P' Q' := by
  obtain rfl : P' = P := funext fun z => propext (hP z)
  obtain rfl : Q' = Q := funext fun z => propext (hQ z)
  exact h

end Corresponds

namespace CompiledSchedule

variable {compiled : CompiledSchedule} {settings settings' : Settings}

/-- Resources that are configured alike under two settings, in order. -/
theorem agree_configure {R : String × Configuration → String × Configuration → Prop}
    (h : ∀ r : CompiledResource, Agree R (r.configured compiled.duration settings)
      (r.configured compiled.duration settings')) :
    Agree (List.Forall₂ R) (compiled.configure settings) (compiled.configure settings') := by
  refine Agree.mapM (List.forall₂_same.mpr fun r _ => rfl) fun r _ hr => ?_
  subst hr
  exact h r

/-- If the resources are configured alike under two settings, then whichever of them is the first to
fail can be the first to fail under both. -/
theorem Yields.agree {R : String × Configuration → String × Configuration → Prop}
    (h : ∀ r : CompiledResource, Agree R (r.configured compiled.duration settings)
      (r.configured compiled.duration settings'))
    {x : Except CompileError (List (String × Configuration))} (hx : compiled.Yields settings x) :
    ∃ y, compiled.Yields settings' y ∧ Agree (List.Forall₂ R) x y := by
  cases hx with
  | ok hall =>
    have hagree := agree_configure h
    rw [configure_of_yields (.ok hall)] at hagree
    exact ⟨_, compiled.yields_configure settings', hagree⟩
  | @error r e hr he =>
    have hagree := h r
    rw [he] at hagree
    rcases hagree.outcome with ⟨_, heq, he'⟩ | ⟨_, _, hok, -⟩
    · obtain rfl := Except.error.inj heq
      exact ⟨_, .error hr he', .error e⟩
    · cases hok

theorem corresponds_yields {R : String × Configuration → String × Configuration → Prop}
    (h : ∀ r : CompiledResource, Agree R (r.configured compiled.duration settings)
      (r.configured compiled.duration settings')) :
    Corresponds (List.Forall₂ R) (compiled.Yields settings) (compiled.Yields settings') where
  forth := fun _ hx => hx.agree h
  back := fun y hy => by
    obtain ⟨x, hx, hagree⟩ := hy.agree (R := fun b a => R a b) fun r => (h r).symm
    exact ⟨x, hx, hagree.symm.imp fun _ _ => List.Forall₂.flip⟩

theorem yields_congr
    (h : ∀ r : CompiledResource, r.configured compiled.duration settings
      = r.configured compiled.duration settings')
    {outcome : Except CompileError (List (String × Configuration))} :
    compiled.Yields settings outcome ↔ compiled.Yields settings' outcome := by
  constructor
  · rintro (hall | ⟨hr, he⟩)
    · exact .ok (hall.imp fun r x hx => (h r).symm.trans hx)
    · exact .error hr ((h _).symm.trans he)
  · rintro (hall | ⟨hr, he⟩)
    · exact .ok (hall.imp fun r x hx => (h r).trans hx)
    · exact .error hr ((h _).trans he)

end CompiledSchedule

/-! ## Limited banks -/

/-- A bank is too small for what has to go there. -/
def CompileError.OutOfCapacity (e : CompileError) : Prop :=
  ∃ resource bank required capacity, capacity < required ∧
    e = .bankCapacityExceeded resource bank required capacity

/-- The two outcomes are the same, unless the first is that a bank is too small. -/
def Limited {α : Type} (limited free : Except CompileError α) : Prop :=
  limited = free ∨ ∃ e, e.OutOfCapacity ∧ limited = .error e

namespace Limited

variable {α β : Type}

theorem refl (x : Except CompileError α) : Limited x x := Or.inl rfl

theorem bind {x y : Except CompileError α} {f g : α → Except CompileError β} (h : Limited x y)
    (hf : ∀ a, Limited (f a) (g a)) : Limited (x >>= f) (y >>= g) := by
  rcases h with rfl | ⟨e, he, rfl⟩
  · cases x with
    | error e => exact refl _
    | ok a => exact hf a
  · exact Or.inr ⟨e, he, rfl⟩

theorem mapM {f g : α → Except CompileError β} (hf : ∀ a, Limited (f a) (g a)) (xs : List α) :
    Limited (xs.mapM f) (xs.mapM g) := by
  induction xs with
  | nil => exact refl _
  | cons x xs ih =>
    rw [List.mapM_cons, List.mapM_cons]
    exact (hf x).bind fun _ => ih.bind fun _ => refl _

end Limited

/-- Memory of limited capacity is laid out as without a limit. -/
theorem Memory.limited_allocate (resource : String) (c : Cache) (acquisitions : List ContentKey)
    (capacity : Nat) :
    Limited (allocate resource c acquisitions (some capacity))
      (allocate resource c acquisitions none) := by
  have hfits : ∀ (m : Memory) (b : Bank), Limited (m.fits resource capacity b) (.ok ()) := by
    intro m b
    rw [fits]
    split
    · next hlt => exact Or.inr ⟨_, ⟨_, _, _, _, hlt, rfl⟩, rfl⟩
    · exact Limited.refl _
  refine (Limited.refl _).bind fun m => ?_
  exact (hfits m .awg).bind fun _ => (hfits m .acq).bind fun _ => Limited.refl _

/-! ## Settings -/

namespace Settings

variable (settings : Settings)

/-- The same settings, with banks of limited capacity or without. -/
def withLimits (limits : Bool) : Settings := { settings with limitBanks := limits }

/-- The same settings, without blanks around the suffix. -/
def trimmed :
    Settings := { settings with acquisitionSuffix := Text.trim settings.acquisitionSuffix }

end Settings

namespace CompiledResource

variable (r : CompiledResource) (settings : Settings) (limits : Bool)

/-- A walk reads nothing from the settings but whether there are comments. -/
theorem walk_withLimits (previous : Option Entry) (clock : Int) (entries : List Entry) :
    r.walk (settings.withLimits limits) previous clock entries
      = r.walk settings previous clock entries := by
  induction entries generalizing previous clock with
  | nil => rfl
  | cons e rest ih =>
    rw [walk, walk]
    simp only [ih]
    rfl

theorem program_withLimits (duration : Int) :
    r.program duration (settings.withLimits limits) = r.program duration settings := by
  have hplan : r.plan duration (settings.withLimits limits) = r.plan duration settings := by
    rw [plan, plan, walk_withLimits]
    rfl
  rw [program, program, hplan]

end CompiledResource

/-! ## Configurations -/

theorem CompiledResource.agree_configured (r : CompiledResource) (duration : Int)
    (settings : Settings) :
    Agree (fun on off => off.1 = on.1 ∧ on.2.Silences off.2) (r.configured duration settings)
      (r.configured duration settings.silent) := by
  refine (r.program_silent duration settings).bind fun on off h => .ok ⟨rfl, ?_⟩
  exact ⟨rfl, rfl, rfl, h.rows, h.lines_listing⟩

/-- Limits are forgotten when programs are made. -/
theorem CompiledResource.configured_withLimits_trimmed (r : CompiledResource) (duration : Int)
    (settings : Settings) (limits : Bool) :
    r.configured duration (settings.withLimits limits).trimmed
      = r.configured duration settings.trimmed := by
  show r.configured duration (settings.trimmed.withLimits limits) = _
  rw [configured, configured, program_withLimits]

namespace Settings

/-- Only the suffix decides whether settings are fit for use, and the flags stay as they are. -/
theorem sanitize_of_empty {settings : Settings} (h : Text.trim settings.acquisitionSuffix = "") :
    settings.sanitize = .error .emptySuffix := by
  simp only [sanitize, h, if_true]

theorem exists_sanitize {settings : Settings} (h : Text.trim settings.acquisitionSuffix ≠ "") :
    ∃ changes, settings.sanitize = .ok (changes, settings.trimmed) := by
  by_cases hsame : Text.trim settings.acquisitionSuffix = settings.acquisitionSuffix
  · have htrimmed : settings.trimmed = settings := by rw [trimmed, hsame]
    rw [hsame] at h
    exact ⟨[], by simp only [sanitize, hsame, h, if_false, if_true, htrimmed]⟩
  · exact ⟨_, by simp only [sanitize, h, hsame, if_false]; rfl⟩

end Settings

namespace Schedule

variable {s : Schedule} {library : WaveformLibrary Float} {settings : Settings}

/-- A schedule comes to nothing without a suffix. -/
theorem yields_of_empty (h : Text.trim settings.acquisitionSuffix = "")
    (outcome : Except CompileError (List (String × Configuration))) :
    s.Yields library settings outcome ↔ outcome = .error .emptySuffix := by
  have hunfit := Settings.sanitize_of_empty h
  constructor
  · intro hyields
    cases hyields with
    | unfit h =>
      rw [hunfit] at h
      rw [Except.error.inj h]
    | uncompiled hclean _ | compiled hclean _ _ =>
      rw [hunfit] at hclean
      cases hclean
  · rintro rfl
    exact .unfit hunfit

section Suffix

variable (hsuffix : Text.trim settings.acquisitionSuffix ≠ "")

include hsuffix

/-- A schedule that does not compile with the trimmed suffix comes to that error. -/
theorem yields_of_error {e : CompileError} (h : s.compile library settings.trimmed = .error e)
    (outcome : Except CompileError (List (String × Configuration))) :
    s.Yields library settings outcome ↔ outcome = .error e := by
  obtain ⟨changes, hclean⟩ := Settings.exists_sanitize hsuffix
  rw [yields_iff hclean, h]
  simp

/-- One that compiles comes to what its resources come to. -/
theorem yields_of_compiled {compiled : CompiledSchedule}
    (h : s.compile library settings.trimmed = .ok compiled)
    (outcome : Except CompileError (List (String × Configuration))) :
    s.Yields library settings outcome ↔ compiled.Yields settings.trimmed outcome := by
  obtain ⟨changes, hclean⟩ := Settings.exists_sanitize hsuffix
  rw [yields_iff hclean, h]
  simp

theorem configure_of_suffix (s : Schedule) (library : WaveformLibrary Float) :
    s.configure library settings
      = s.compile library settings.trimmed >>= fun compiled =>
          compiled.configure settings.trimmed := by
  obtain ⟨changes, hclean⟩ := Settings.exists_sanitize hsuffix
  exact configure_of_sanitize hclean

end Suffix

theorem configure_of_empty (h : Text.trim settings.acquisitionSuffix = "") (s : Schedule)
    (library : WaveformLibrary Float) : s.configure library settings = .error .emptySuffix := by
  rw [configure, Settings.sanitize_of_empty h]
  rfl

/-- Nothing is commented before programs are made. -/
theorem compile_silent (s : Schedule) (library : WaveformLibrary Float) (settings : Settings) :
    s.compile library settings.silent = s.compile library settings := by
  have hplacements : s.placements settings.silent = s.placements settings := rfl
  have hfinish : ∀ c : Compilation, c.finish s settings.silent = c.finish s settings := fun _ => rfl
  simp only [compile, compileWith, hplacements, hfinish]

/-- The silent settings, trimmed, are the trimmed settings made silent. -/
theorem compile_silent_trimmed (s : Schedule) (library : WaveformLibrary Float)
    (settings : Settings) :
    s.compile library settings.silent.trimmed = s.compile library settings.trimmed :=
  compile_silent s library settings.trimmed

/-- With and without comments, a schedule comes to the same. -/
theorem corresponds_silent (s : Schedule) (library : WaveformLibrary Float) (settings : Settings) :
    Corresponds (List.Forall₂ fun on off => off.1 = on.1 ∧ on.2.Silences off.2)
      (s.Yields library settings) (s.Yields library settings.silent) := by
  by_cases hempty : Text.trim settings.acquisitionSuffix = ""
  · have hempty' : Text.trim settings.silent.acquisitionSuffix = "" := hempty
    exact .of_iff (yields_of_empty hempty) (yields_of_empty hempty') (.error _)
  · have hsuffix' : Text.trim settings.silent.acquisitionSuffix ≠ "" := hempty
    have hsilent := compile_silent_trimmed s library settings
    cases hcompiled : s.compile library settings.trimmed with
    | error e =>
      exact .of_iff (yields_of_error hempty hcompiled)
        (yields_of_error hsuffix' (hsilent.trans hcompiled)) (.error e)
    | ok compiled =>
      refine (CompiledSchedule.corresponds_yields fun r =>
        r.agree_configured compiled.duration settings.trimmed).congr ?_ ?_
      · exact yields_of_compiled hempty hcompiled
      · exact yields_of_compiled hsuffix' (hsilent.trans hcompiled)

theorem agree_configure (s : Schedule) (library : WaveformLibrary Float) (settings : Settings) :
    Agree (List.Forall₂ fun on off => off.1 = on.1 ∧ on.2.Silences off.2)
      (s.configure library settings) (s.configure library settings.silent) := by
  by_cases hempty : Text.trim settings.acquisitionSuffix = ""
  · have hempty' : Text.trim settings.silent.acquisitionSuffix = "" := hempty
    rw [configure_of_empty hempty, configure_of_empty hempty']
    exact .error _
  · have hsuffix' : Text.trim settings.silent.acquisitionSuffix ≠ "" := hempty
    rw [configure_of_suffix hempty, configure_of_suffix hsuffix', compile_silent_trimmed]
    refine (Agree.refl _).bind fun compiled _ h => ?_
    subst h
    exact CompiledSchedule.agree_configure fun r =>
      r.agree_configured compiled.duration settings.trimmed

/-- Collecting the placements does not depend on limits, and neither does sorting the entries. -/
theorem limited_compile (s : Schedule) (library : WaveformLibrary Float) (settings : Settings) :
    Limited (s.compile library (settings.withLimits true))
      (s.compile library (settings.withLimits false)) := by
  refine (Limited.refl _).bind fun c => ?_
  refine (Limited.mapM (fun used => ?_) _).bind fun _ => .refl _
  exact (Memory.limited_allocate _ _ _ _).bind fun _ => .refl _

/-- With limits on the banks, a schedule comes to what it comes to without them, or a bank is too
small whatever the workers do. -/
theorem yields_withLimits (s : Schedule) (library : WaveformLibrary Float) (settings : Settings) :
    (∀ outcome, s.Yields library (settings.withLimits true) outcome ↔
      s.Yields library (settings.withLimits false) outcome) ∨
    ∃ e, e.OutOfCapacity ∧
      ∀ outcome, s.Yields library (settings.withLimits true) outcome ↔ outcome = .error e := by
  by_cases hempty : Text.trim settings.acquisitionSuffix = ""
  · have hempty' : ∀ limits,
        Text.trim (settings.withLimits limits).acquisitionSuffix = "" := fun _ => hempty
    exact Or.inl fun outcome => (yields_of_empty (hempty' true) outcome).trans
      (yields_of_empty (hempty' false) outcome).symm
  have hsuffix : ∀ limits,
      Text.trim (settings.withLimits limits).acquisitionSuffix ≠ "" := fun _ => hempty
  rcases limited_compile s library settings.trimmed with hsame | ⟨e, he, herror⟩
  · left
    intro outcome
    cases hcompiled : s.compile library (settings.trimmed.withLimits false) with
    | error e =>
      rw [hcompiled] at hsame
      exact (yields_of_error (hsuffix true) hsame outcome).trans
        (yields_of_error (hsuffix false) hcompiled outcome).symm
    | ok compiled =>
      rw [hcompiled] at hsame
      rw [yields_of_compiled (hsuffix true) hsame, yields_of_compiled (hsuffix false) hcompiled]
      refine CompiledSchedule.yields_congr fun r => ?_
      rw [r.configured_withLimits_trimmed, r.configured_withLimits_trimmed]
  · exact Or.inr ⟨e, he, yields_of_error (hsuffix true) herror⟩

theorem limited_configure (s : Schedule) (library : WaveformLibrary Float) (settings : Settings) :
    Limited (s.configure library (settings.withLimits true))
      (s.configure library (settings.withLimits false)) := by
  by_cases hempty : Text.trim settings.acquisitionSuffix = ""
  · have hempty' : ∀ limits,
        Text.trim (settings.withLimits limits).acquisitionSuffix = "" := fun _ => hempty
    rw [configure_of_empty (hempty' true), configure_of_empty (hempty' false)]
    exact .refl _
  · have hsuffix : ∀ limits,
        Text.trim (settings.withLimits limits).acquisitionSuffix ≠ "" := fun _ => hempty
    rw [configure_of_suffix (hsuffix true), configure_of_suffix (hsuffix false)]
    refine (limited_compile s library settings.trimmed).bind fun compiled => ?_
    refine Limited.mapM (fun r => ?_) _
    rw [r.configured_withLimits_trimmed, r.configured_withLimits_trimmed]
    exact .refl _

/-- **What the flags change.** With and without comments, a schedule is configured alike or fails
alike, whichever resource fails first, and the configurations differ in the comments alone. With
limits on the banks, it comes to what it comes to without them, or a bank is too small. Both are
true as well of the outcomes in order. -/
theorem configure_flags (s : Schedule) (library : WaveformLibrary Float) (settings : Settings) :
    Corresponds (List.Forall₂ fun on off => off.1 = on.1 ∧ on.2.Silences off.2)
        (s.Yields library { settings with comments := true })
        (s.Yields library { settings with comments := false }) ∧
      Agree (List.Forall₂ fun on off => off.1 = on.1 ∧ on.2.Silences off.2)
        (s.configure library { settings with comments := true })
        (s.configure library { settings with comments := false }) ∧
      ((∀ outcome, s.Yields library { settings with limitBanks := true } outcome ↔
          s.Yields library { settings with limitBanks := false } outcome) ∨
        ∃ e, e.OutOfCapacity ∧
          ∀ outcome, s.Yields library { settings with limitBanks := true } outcome ↔
            outcome = .error e) ∧
      Limited (s.configure library { settings with limitBanks := true })
        (s.configure library { settings with limitBanks := false }) :=
  ⟨corresponds_silent s library { settings with comments := true },
    agree_configure s library { settings with comments := true },
    yields_withLimits s library settings, limited_configure s library settings⟩

end Schedule

end Sequencer
