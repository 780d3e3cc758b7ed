import Sequencer.Proofs.LockStep

/-!
# Resources are configured side by side

The programs of a compiled schedule have nothing to do with each other, and they are made by several
workers at the same time. As long as none of them fails, nobody can tell in which order. If several
fail, one of their errors is reported, and which one it is depends on who was first.

So a schedule has outcomes, not one outcome: the configurations, if every resource has one, and
otherwise the error of any resource that has none. To make them one after the other is a way to get
at one of these outcomes, and what is said about a schedule should not depend on it.

## Main definitions

* `CompiledSchedule.Yields` — the possible outcomes for a compiled schedule
* `Schedule.Yields` — the possible outcomes for a schedule

## Main results

* `Schedule.yields_configure` — one resource after the other gives one of the outcomes
* `Schedule.yields_iff` — only the resources are left to the workers
* `Schedule.yields_ok_iff` — configurations do not depend on the order
-/

namespace Sequencer

/-- What the workers can come to: all configurations, or the error of any resource. -/
inductive CompiledSchedule.Yields (compiled : CompiledSchedule) (settings : Settings) :
    Except CompileError (List (String × Configuration)) → Prop where
  | ok {configurations : List (String × Configuration)}
      (h : List.Forall₂ (fun r x => r.configured compiled.duration settings = .ok x)
        compiled.resources configurations) : Yields compiled settings (.ok configurations)
  | error {r : CompiledResource} {e : CompileError} (hr : r ∈ compiled.resources)
      (h : r.configured compiled.duration settings = .error e) :
      Yields compiled settings (.error e)

/-- What a schedule can come to. Only the resources are left to the workers. -/
inductive Schedule.Yields (s : Schedule) (library : WaveformLibrary Float) (settings : Settings) :
    Except CompileError (List (String × Configuration)) → Prop where
  | unfit {e : CompileError} (h : settings.sanitize = .error e) :
      Yields s library settings (.error e)
  | uncompiled {changes : List Settings.Change} {clean : Settings} {e : CompileError}
      (hclean : settings.sanitize = .ok (changes, clean)) (h : s.compile library clean = .error e) :
      Yields s library settings (.error e)
  | compiled {changes : List Settings.Change} {clean : Settings} {compiled : CompiledSchedule}
      {outcome : Except CompileError (List (String × Configuration))}
      (hclean : settings.sanitize = .ok (changes, clean))
      (hcompiled : s.compile library clean = .ok compiled) (h : compiled.Yields clean outcome) :
      Yields s library settings outcome

namespace CompiledSchedule

variable (compiled : CompiledSchedule) (settings : Settings)

/-- One resource after the other gives one of the outcomes. -/
theorem yields_configure : compiled.Yields settings (compiled.configure settings) := by
  cases h : compiled.configure settings with
  | ok configurations => exact .ok (mapM_eq_ok.mp h)
  | error e =>
    obtain ⟨r, hr, he⟩ := exists_of_mapM_eq_error h
    exact .error hr he

variable {compiled settings}

/-- If all workers are done, the order does not matter. -/
theorem configure_of_yields {configurations : List (String × Configuration)}
    (h : compiled.Yields settings (.ok configurations)) :
    compiled.configure settings = .ok configurations := by
  cases h with
  | ok h => exact mapM_eq_ok.mpr h

end CompiledSchedule

namespace Schedule

variable {s : Schedule} {library : WaveformLibrary Float} {settings : Settings}

theorem configure_of_sanitize {changes : List Settings.Change} {clean : Settings}
    (h : settings.sanitize = .ok (changes, clean)) :
    s.configure library settings
      = s.compile library clean >>= fun compiled => compiled.configure clean := by
  rw [configure, h]
  rfl

/-- Settings are made fit for use in one way, and the compilation has one result. -/
theorem yields_iff {changes : List Settings.Change} {clean : Settings}
    (hclean : settings.sanitize = .ok (changes, clean))
    (outcome : Except CompileError (List (String × Configuration))) :
    s.Yields library settings outcome ↔
      (∃ e, s.compile library clean = .error e ∧ outcome = .error e) ∨
        ∃ compiled, s.compile library clean = .ok compiled ∧ compiled.Yields clean outcome := by
  constructor
  · intro h
    cases h with
    | unfit h =>
      rw [hclean] at h
      cases h
    | uncompiled hclean' he =>
      rw [hclean] at hclean'
      obtain ⟨-, rfl⟩ := Prod.mk.inj (Except.ok.inj hclean')
      exact Or.inl ⟨_, he, rfl⟩
    | compiled hclean' hcompiled h =>
      rw [hclean] at hclean'
      obtain ⟨-, rfl⟩ := Prod.mk.inj (Except.ok.inj hclean')
      exact Or.inr ⟨_, hcompiled, h⟩
  · rintro (⟨e, he, rfl⟩ | ⟨compiled, hcompiled, h⟩)
    · exact .uncompiled hclean he
    · exact .compiled hclean hcompiled h

/-- **One resource after the other gives one of the outcomes.** -/
theorem yields_configure (s : Schedule) (library : WaveformLibrary Float) (settings : Settings) :
    s.Yields library settings (s.configure library settings) := by
  cases hclean : settings.sanitize with
  | error e =>
    have hconfigure : s.configure library settings = .error e := by
      rw [configure, hclean]
      rfl
    rw [hconfigure]
    exact .unfit hclean
  | ok sanitized =>
    rw [configure_of_sanitize hclean]
    cases hcompiled : s.compile library sanitized.2 with
    | error e => exact .uncompiled hclean hcompiled
    | ok compiled => exact .compiled hclean hcompiled (compiled.yields_configure sanitized.2)

/-- **Configurations do not depend on the order of the workers**, and neither does whether there are
any. -/
theorem yields_ok_iff {configurations : List (String × Configuration)} :
    s.Yields library settings (.ok configurations) ↔
      s.configure library settings = .ok configurations := by
  constructor
  · intro h
    cases h with
    | compiled hclean hcompiled h =>
      rw [configure_of_sanitize hclean, hcompiled]
      exact CompiledSchedule.configure_of_yields h
  · intro h
    rw [← h]
    exact yields_configure s library settings

end Schedule

end Sequencer
