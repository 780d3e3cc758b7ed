import Sequencer.Proofs.Timing

/-!
# What the program of a resource sounds

A program is planned entry by entry with a running clock: wait until the entry starts, set the
registers, play until the waveform ends or the next entry starts. The entries carry absolute times,
the program only durations, so one wrong term in the clock would move every later entry.

The invariant is that the clock of the plan and the time that its statements take are the same
number. Both are kept apart here, the clock in `walk` and the time in `elapsed`, and the induction
over the entries shows that they agree. Truncation keeps the clock from passing the next entry,
which is where the order of the entries is used.

## Main definitions

* `Encodes` — the statements of a list of steps
* `Run`, `Performance` — soundings without a gap, and soundings that are one part per entry
* `CompiledResource.Sounds` — the part of an entry

## Main results

* `CompiledResource.walk_performs` — the invariant
* `CompiledResource.timeline_program` — a program sounds its entries at their times
* `CompiledResource.duration_program` — a program fills the duration of the sequence
-/

namespace Sequencer

variable {t : Traits} {statements : List Statement}

/-! ## Encoded steps -/

/-- The statements that steps are encoded as. -/
def Encodes (t : Traits) (steps : List Step) (statements : List Statement) : Prop :=
  ∃ parts, steps.mapM (Step.encode t) = .ok parts ∧ parts.flatten = statements

theorem encodes_nil : Encodes t [] statements ↔ statements = [] := by
  constructor
  · rintro ⟨parts, hparts, rfl⟩
    obtain rfl := pure_eq_ok.mp hparts
    rfl
  · rintro rfl
    exact ⟨[], rfl, rfl⟩

theorem encodes_cons {step : Step} {rest : List Step} :
    Encodes t (step :: rest) statements ↔
      ∃ a b, step.encode t = .ok a ∧ Encodes t rest b ∧ statements = a ++ b := by
  simp only [Encodes, mapM_eq_ok, List.forall₂_cons_left_iff]
  constructor
  · rintro ⟨-, ⟨a, parts, ha, hparts, rfl⟩, rfl⟩
    exact ⟨a, parts.flatten, ha, ⟨parts, hparts, rfl⟩, rfl⟩
  · rintro ⟨a, -, ha, ⟨parts, hparts, rfl⟩, rfl⟩
    exact ⟨a :: parts, ⟨a, parts, ha, hparts, rfl⟩, rfl⟩

theorem encodes_append {xs ys : List Step} :
    Encodes t (xs ++ ys) statements ↔
      ∃ a b, Encodes t xs a ∧ Encodes t ys b ∧ statements = a ++ b := by
  induction xs generalizing statements with
  | nil => simp [encodes_nil]
  | cons step xs ih =>
    rw [List.cons_append, encodes_cons]
    constructor
    · rintro ⟨a, b, ha, hb, rfl⟩
      obtain ⟨b₁, b₂, h₁, h₂, rfl⟩ := ih.mp hb
      exact ⟨a ++ b₁, b₂, encodes_cons.mpr ⟨a, b₁, ha, h₁, rfl⟩, h₂, (List.append_assoc _ _ _).symm⟩
    · rintro ⟨a, b, ha, hb, rfl⟩
      obtain ⟨a₁, a₂, h₁, h₂, rfl⟩ := encodes_cons.mp ha
      exact ⟨a₁, a₂ ++ b, h₁, ih.mpr ⟨a₂, b, h₂, hb, rfl⟩, List.append_assoc _ _ _⟩

/-- The context of a step only matters when it fails. -/
theorem Step.encode_emit_eq_ok {context : Option Context} {op : Operation} :
    (Step.emit context op).encode t = .ok statements ↔ op.statements t = .ok statements :=
  mapError_eq_ok

theorem encodes_emit {context : Option Context} {op : Operation} :
    Encodes t [.emit context op] statements ↔ op.statements t = .ok statements := by
  simp [encodes_cons, encodes_nil, Step.encode_emit_eq_ok]

theorem not_encodes_fail {e : CompileError} {rest : List Step} :
    ¬ Encodes t (.fail e :: rest) statements := by
  simp [encodes_cons, Step.encode]

/-- A step that asks for no time. -/
def Step.Untimed : Step → Prop
  | .emit _ op => op.duration? = none
  | .fail _ => False

theorem Step.idle_of_untimed {step : Step} (h : step.encode t = .ok statements)
    (hstep : step.Untimed) : Idle 0 statements := by
  cases step with
  | emit context op => exact Operation.idle_of_untimed (Step.encode_emit_eq_ok.mp h) hstep
  | fail e => exact hstep.elim

theorem Encodes.idle_of_untimed {steps : List Step} (h : Encodes t steps statements)
    (hsteps : ∀ step ∈ steps, step.Untimed) : Idle 0 statements := by
  induction steps generalizing statements with
  | nil =>
    obtain rfl := encodes_nil.mp h
    exact Idle.nil
  | cons step steps ih =>
    obtain ⟨a, b, ha, hb, rfl⟩ := encodes_cons.mp h
    have hstep : Idle 0 a := Step.idle_of_untimed ha (hsteps step List.mem_cons_self)
    exact hstep.append (ih hb fun step h => hsteps step (List.mem_cons_of_mem _ h))

/-! ## Parts of a performance -/

/-- Soundings of the waveform in one slot, each starting where the one before it ends. -/
inductive Run (slot : Slot) : Nat → List Sounding → Nat → Prop where
  | nil (time : Nat) : Run slot time [] time
  | cons {start chunk stop : Nat} {rest : List Sounding} (h : Run slot (start + chunk) rest stop) :
    Run slot start (⟨start, slot.bank, slot.pathI, slot.pathQ, chunk⟩ :: rest) stop

/-- Soundings that are one part per entry, in the order of the entries and nothing else. What the
part of an entry has to be may depend on the entry after it. -/
inductive Performance (part : Entry → Option Entry → List Sounding → Prop) :
    List Entry → List Sounding → Prop where
  | nil : Performance part [] []
  | cons {e : Entry} {rest : List Entry} {run soundings : List Sounding}
    (h : part e rest.head? run) (hrest : Performance part rest soundings) :
    Performance part (e :: rest) (run ++ soundings)

theorem Performance.mono {part part' : Entry → Option Entry → List Sounding → Prop}
    {entries : List Entry} {soundings : List Sounding} (h : Performance part entries soundings)
    (himp : ∀ e ∈ entries, ∀ next run, part e next run → part' e next run) :
    Performance part' entries soundings := by
  induction h with
  | nil => exact .nil
  | cons h _ ih =>
    refine .cons (himp _ List.mem_cons_self _ _ h) (ih fun e he => ?_)
    exact himp e (List.mem_cons_of_mem _ he)

/-- Chunks in series are a run over their sum. -/
theorem Sounding.run_series (slot : Slot) (start : Nat) (cs : List Nat) :
    Run slot start (Sounding.series slot.bank slot.pathI slot.pathQ start cs) (start + cs.sum) := by
  induction cs generalizing start with
  | nil => exact .nil start
  | cons c cs ih =>
    rw [List.sum_cons, ← Nat.add_assoc]
    exact .cons (ih (start + c))

theorem Sounding.series_ne_nil {bank : Bank} {slotI slotQ start : Nat} {cs : List Nat}
    (h : cs ≠ []) : Sounding.series bank slotI slotQ start cs ≠ [] := by
  cases cs with
  | nil => exact absurd rfl h
  | cons c cs => simp [Sounding.series]

namespace CompiledResource

variable {r : CompiledResource} {settings : Settings}

/-- How long an entry is heard: for the whole waveform, unless the next entry cuts it short. -/
def span (length : Nat) (e : Entry) : Option Entry → Int
  | some next => min (length : Int) (next.time - e.time)
  | none => length

/-- The part of an entry: a run of its own waveform that starts at its time and lasts for its
span. -/
def Sounds (r : CompiledResource) (e : Entry) (next : Option Entry) (run : List Sounding) : Prop :=
  ∃ waveform slot start stop, r.cache.get? e.key = some waveform ∧
    r.memory.lookup e.key = some slot ∧
    run ≠ [] ∧ Run slot start run stop ∧ (start : Int) = e.time ∧
    (stop : Int) = e.time + span waveform.length e next

theorem playTime_eq_span (length : Nat) (e : Entry) (rest : List Entry) :
    playTime length e rest = span length e rest.head? := by
  cases rest <;> rfl

theorem span_le (length : Nat) (e : Entry) (next : Option Entry) : span length e next ≤ length := by
  cases next with
  | none => exact Int.le_refl _
  | some next => exact Int.min_le_left _ _

theorem playTime_nonneg (length : Nat) {e : Entry} {rest : List Entry}
    (h : (e :: rest).Pairwise fun a b => a.time ≤ b.time) : 0 ≤ playTime length e rest := by
  cases rest with
  | nil => exact Int.natCast_nonneg _
  | cons next rest =>
    have hnext : e.time ≤ next.time := (List.pairwise_cons.mp h).1 next List.mem_cons_self
    exact Int.le_min.mpr ⟨Int.natCast_nonneg _, by omega⟩

/-! ## Steps of an entry -/

theorem idle_waitSteps {context : Context} {duration : Int} {comment : String}
    (h : Encodes t (waitSteps settings context duration comment) statements) :
    Idle duration.toNat statements := by
  rw [waitSteps] at h
  split at h
  · have hop := encodes_emit.mp h
    exact ⟨Operation.elapsed_statements hop, fun start => Operation.timeline_statements hop start⟩
  · obtain rfl := encodes_nil.mp h
    rw [Int.toNat_of_nonpos (by omega)]
    exact Idle.nil

theorem untimed_modulate {context : Option Context} {bank : Bank} {m : Modulations Float}
    {step : Step} (h : step ∈ (modulate settings bank m).map (.emit context)) : step.Untimed := by
  obtain ⟨op, hop, rfl⟩ := List.mem_map.mp h
  simp only [modulate, List.mem_append, Option.mem_toList, Option.map_eq_some_iff] at hop
  rcases hop with ((⟨_, _, rfl⟩ | ⟨_, _, rfl⟩) | ⟨_, _, rfl⟩) | ⟨_, _, rfl⟩ <;> rfl

theorem duration?_sound (slot : Slot) (duration : Nat) :
    (sound slot duration).duration? = some duration := by
  rw [sound]
  split <;> rfl

theorem soundings_sound (limit start : Nat) (slot : Slot) (duration : Nat) :
    (sound slot duration).soundings limit start
      = Sounding.series slot.bank slot.pathI slot.pathQ start (chunks limit duration) := by
  rw [sound]
  split <;> rename_i h <;> rw [h] <;> rfl

/-- The steps of an entry wait, and then sound the waveform in the slot of the entry. -/
theorem entrySteps_sound {e : Entry} {wait duration : Int}
    (h : Encodes t (r.entrySteps settings e wait duration) statements) :
    ∃ slot, r.memory.lookup e.key = some slot ∧
      elapsed statements = wait.toNat + duration.toNat ∧
      ∀ start, timeline start statements = Sounding.series slot.bank slot.pathI slot.pathQ
        (start + wait.toNat) (chunks t.immediateMax duration.toNat) := by
  simp only [entrySteps] at h
  obtain ⟨waiting, rest, hwait, hrest, rfl⟩ := encodes_append.mp h
  obtain ⟨blank, rest, hblank, hsound, rfl⟩ := encodes_cons.mp hrest
  cases hslot : r.memory.lookup e.key with
  | none =>
    rw [hslot] at hsound
    exact absurd hsound not_encodes_fail
  | some slot =>
    simp only [hslot, List.map_append, List.map_cons, List.map_nil] at hsound
    obtain ⟨setting, playing, hset, hplay, rfl⟩ := encodes_append.mp hsound
    have hop := encodes_emit.mp hplay
    -- everything before the sound is idle for the time of the wait
    have hblank' : Idle 0 blank := Step.idle_of_untimed hblank rfl
    have hset' : Idle 0 setting := hset.idle_of_untimed fun _ => untimed_modulate
    have hidle : Idle (wait.toNat + 0 + 0) (waiting ++ blank ++ setting) :=
      ((idle_waitSteps hwait).append hblank').append hset'
    refine ⟨slot, rfl, ?_, fun start => ?_⟩
    · rw [← List.append_assoc, ← List.append_assoc, elapsed_append, hidle.elapsed,
        Operation.elapsed_statements hop, duration?_sound]
      rfl
    · rw [← List.append_assoc, ← List.append_assoc, timeline_append, hidle.timeline, hidle.elapsed,
        Operation.timeline_statements hop, soundings_sound]
      rfl

/-! ## The walk over the entries -/

/-- Entries that can be encoded start no earlier than the clock and have been sampled. -/
theorem encodes_walk_cons {previous : Option Entry} {clock : Int} {e : Entry} {rest : List Entry}
    (h : Encodes t (r.walk settings previous clock (e :: rest)).1 statements) :
    clock ≤ e.time ∧ ∃ waveform, r.cache.get? e.key = some waveform ∧
      r.walk settings previous clock (e :: rest)
        = (r.entrySteps settings e (e.time - clock) (playTime waveform.length e rest)
            ++ (r.walk settings (some e) (e.time + playTime waveform.length e rest) rest).1,
          (r.walk settings (some e) (e.time + playTime waveform.length e rest) rest).2) := by
  by_cases hclock : e.time < clock
  · simp only [walk, if_pos hclock] at h
    exact absurd h not_encodes_fail
  · cases hw : r.cache.get? e.key with
    | none =>
      simp only [walk, if_neg hclock, hw] at h
      exact absurd h not_encodes_fail
    | some waveform =>
      refine ⟨Int.not_lt.mp hclock, waveform, rfl, ?_⟩
      simp only [walk, if_neg hclock, hw]

/-- **The clock of the plan is the time of the program.** The entries that follow a time `start`
sound each at its own time and for its span, and the statements take the time up to the clock at the
end. -/
theorem walk_performs {previous : Option Entry} {clock : Int} {entries : List Entry} {start : Nat}
    (hclock : clock = start) (sorted : entries.Pairwise fun a b => a.time ≤ b.time)
    (h : Encodes t (r.walk settings previous clock entries).1 statements) :
    Performance r.Sounds entries (timeline start statements) ∧
      ((start + elapsed statements : Nat) : Int) = (r.walk settings previous clock entries).2 := by
  induction entries generalizing previous clock start statements with
  | nil =>
    obtain rfl := encodes_nil.mp h
    exact ⟨.nil, hclock.symm⟩
  | cons e rest ih =>
    obtain ⟨hle, waveform, hw, hwalk⟩ := encodes_walk_cons h
    have hplay := playTime_nonneg waveform.length sorted
    rw [hwalk] at h ⊢
    obtain ⟨now, later, hnow, hlater, rfl⟩ := encodes_append.mp h
    obtain ⟨slot, hslot, helapsed, hsound⟩ := entrySteps_sound hnow
    -- the entry starts at its time, and the rest starts where its span ends
    have hstart : ((start + (e.time - clock).toNat : Nat) : Int) = e.time := by omega
    have hnext : e.time + playTime waveform.length e rest
        = ((start + elapsed now : Nat) : Int) := by
      rw [helapsed]
      omega
    obtain ⟨hperf, hend⟩ := ih hnext (List.pairwise_cons.mp sorted).2 hlater
    refine ⟨?_, by rw [elapsed_append, ← Nat.add_assoc]; exact hend⟩
    rw [timeline_append]
    refine .cons ⟨waveform, slot, start + (e.time - clock).toNat, start + elapsed now, hw, hslot,
      ?_, ?_, hstart, by rw [← hnext, playTime_eq_span]⟩ hperf
    · rw [hsound]
      exact Sounding.series_ne_nil (chunks_ne_nil _ _)
    · rw [hsound, helapsed, ← Nat.add_assoc]
      have := Sounding.run_series slot (start + (e.time - clock).toNat)
        (chunks t.immediateMax (playTime waveform.length e rest).toNat)
      rwa [sum_chunks] at this

/-- The clock never passes a bound on the ends of all waveforms. -/
theorem walk_le {previous : Option Entry} {clock bound : Int} {entries : List Entry}
    (hclock : clock ≤ bound)
    (hends : ∀ e ∈ entries, ∀ w, r.cache.get? e.key = some w → e.time + w.length ≤ bound)
    (h : Encodes t (r.walk settings previous clock entries).1 statements) :
    (r.walk settings previous clock entries).2 ≤ bound := by
  induction entries generalizing previous clock statements with
  | nil => exact hclock
  | cons e rest ih =>
    obtain ⟨-, waveform, hw, hwalk⟩ := encodes_walk_cons h
    rw [hwalk] at h ⊢
    obtain ⟨-, later, -, hlater, rfl⟩ := encodes_append.mp h
    have hend := hends e List.mem_cons_self waveform hw
    have hplay := span_le waveform.length e rest.head?
    rw [← playTime_eq_span] at hplay
    refine ih (by omega) (fun e he => hends e (List.mem_cons_of_mem _ he)) hlater

/-! ## The whole program -/

theorem encodes_program {duration : Int} {p : Program} (h : r.program duration settings = .ok p) :
    Encodes r.traits (r.plan duration settings) p.statements := by
  rw [program_eq] at h
  obtain ⟨parts, hparts, h⟩ := bind_eq_ok.mp h
  obtain ⟨_, -, h⟩ := bind_eq_ok.mp h
  obtain rfl := pure_eq_ok.mp h
  exact ⟨parts, hparts, rfl⟩

theorem traits_program {duration : Int} {p : Program} (h : r.program duration settings = .ok p) :
    p.traits = r.traits := by
  rw [program_eq] at h
  obtain ⟨_, -, h⟩ := bind_eq_ok.mp h
  obtain ⟨_, -, h⟩ := bind_eq_ok.mp h
  obtain rfl := pure_eq_ok.mp h
  rfl

/-- A plan that can be encoded passes the check on its duration, and its statements are those of the
walk and the padding in a fixed frame. -/
theorem encodes_plan_eq {duration : Int} (h : Encodes t (r.plan duration settings) statements) :
    r.finish ≤ duration ∧ ∃ body pad,
      statements
        = [.commented none .waitSync (settings.comment "#Sync with other sequencers"),
            .commented (some startLabel) (.setMarker 1) none] ++ (body ++ (pad ++
          [.lineBreak,
            .commented none (.jump startLabel) (settings.comment "#Loop back to start")])) ∧
      Encodes t (r.walk settings none 0 r.entries).1 body ∧
      Encodes t (r.padding settings (duration - (r.walk settings none 0 r.entries).2)) pad := by
  rw [plan] at h
  obtain ⟨sync, rest, hsync, hrest, rfl⟩ := encodes_cons.mp h
  obtain ⟨marker, rest, hmarker, hmain, rfl⟩ := encodes_cons.mp hrest
  obtain rfl := Except.ok.inj (Step.encode_emit_eq_ok.mp hsync)
  obtain rfl := Except.ok.inj (Step.encode_emit_eq_ok.mp hmarker)
  split at hmain
  · exact absurd hmain not_encodes_fail
  · rename_i hfinish
    obtain ⟨middle, after, hmiddle, hafter, rfl⟩ := encodes_append.mp hmain
    obtain ⟨body, pad, hbody, hpad, rfl⟩ := encodes_append.mp hmiddle
    obtain ⟨blank, jump, hblank, hjump, rfl⟩ := encodes_cons.mp hafter
    obtain rfl := Except.ok.inj (Step.encode_emit_eq_ok.mp hblank)
    obtain rfl := Except.ok.inj (encodes_emit.mp hjump)
    exact ⟨Int.not_lt.mp hfinish, body, pad, by simp, hbody, hpad⟩

/-- What a plan adds before and after the walk and the padding takes no time and makes no sound. -/
theorem encodes_plan {duration : Int} (h : Encodes t (r.plan duration settings) statements) :
    r.finish ≤ duration ∧ ∃ before body pad after,
      statements = before ++ (body ++ (pad ++ after)) ∧ Idle 0 before ∧ Idle 0 after ∧
      Encodes t (r.walk settings none 0 r.entries).1 body ∧
      Encodes t (r.padding settings (duration - (r.walk settings none 0 r.entries).2)) pad := by
  obtain ⟨hfinish, body, pad, hstatements, hbody, hpad⟩ := encodes_plan_eq h
  refine ⟨hfinish, _, body, pad, _, hstatements, ?_, ?_, hbody, hpad⟩
  · show Idle (0 + 0) ([_] ++ [_])
    exact (Idle.untimed rfl).append (Idle.untimed rfl)
  · show Idle (0 + 0) ([_] ++ [_])
    exact Idle.lineBreak.append (Idle.untimed rfl)

/-- The padding is silent. On a resource that plays something it takes all the time that remains. -/
theorem idle_padding {remaining : Int} (h : Encodes t (r.padding settings remaining) statements) :
    Idle (if r.entries = [] then 0 else remaining.toNat) statements := by
  rw [padding] at h
  cases hlast : r.entries.getLast? with
  | none =>
    rw [hlast] at h
    obtain rfl := encodes_nil.mp h
    rw [if_pos (List.getLast?_eq_none_iff.mp hlast)]
    exact Idle.nil
  | some last =>
    rw [hlast] at h
    have hne : r.entries ≠ [] := by
      rintro h0
      simp [h0] at hlast
    rw [if_neg hne]
    exact idle_waitSteps h

/-- A program sounds what its walk over the entries sounds, and takes the time of the walk and the
padding. -/
theorem program_eq_walk {duration : Int} {p : Program} (h : r.program duration settings = .ok p) :
    r.finish ≤ duration ∧ ∃ body, Encodes r.traits (r.walk settings none 0 r.entries).1 body ∧
      p.timeline = timeline 0 body ∧
      p.duration = elapsed body + if r.entries = [] then 0
        else (duration - (r.walk settings none 0 r.entries).2).toNat := by
  obtain ⟨hfinish, before, body, pad, after, hstatements, hbefore, hafter, hbody, hpad⟩ :=
    encodes_plan (encodes_program h)
  refine ⟨hfinish, body, hbody, ?_, ?_⟩
  · rw [Program.timeline, hstatements, timeline_append, timeline_append, timeline_append,
      hbefore.timeline, hbefore.elapsed, (idle_padding hpad).timeline, hafter.timeline]
    simp
  · rw [Program.duration_eq_elapsed, hstatements, elapsed_append, elapsed_append, elapsed_append,
      hbefore.elapsed, hafter.elapsed, (idle_padding hpad).elapsed]
    simp

/-- **A program sounds its entries at their times.** Its timeline is one run per entry, in the order
of the entries: none is skipped, moved, repeated or reordered, and each lasts until its waveform
ends or the next entry starts. -/
theorem timeline_program {duration : Int} {p : Program}
    (sorted : r.entries.Pairwise fun a b => a.time ≤ b.time)
    (h : r.program duration settings = .ok p) : Performance r.Sounds r.entries p.timeline := by
  obtain ⟨-, body, hbody, htimeline, -⟩ := program_eq_walk h
  rw [htimeline]
  exact (walk_performs Int.natCast_zero.symm sorted hbody).1

/-- A resource that plays a waveform, plays it again before it has ended, and acquires after a wait
that is too long for one instruction. -/
def sample : CompiledResource where
  name := "q0"
  resource := .plain "q0" .acq 1e9
  entries := [⟨0, ⟨"a"⟩, .none⟩, ⟨4, ⟨"a"⟩, .none⟩, ⟨70000, ⟨"b"⟩, .none⟩]
  cache := ⟨[(⟨"a"⟩, .real [0, 1, 1, 1, 1, 0]), (⟨"b"⟩, .real [1, 1, 1, 1])], by decide⟩
  memory := {
    awg := ⟨[(⟨"a"⟩, ⟨0, .real [0, 1, 1, 1, 1, 0]⟩)], by decide⟩
    acq := ⟨[(⟨"b"⟩, ⟨0, .real [1, 1, 1, 1]⟩)], by decide⟩ }
  frequency := none
  finish := 70004

theorem timeline_program_sample :
    ∃ p, sample.program 70010 .standard = .ok p ∧
      p.timeline = [⟨0, .awg, 0, 1, 4⟩, ⟨4, .awg, 0, 1, 6⟩, ⟨70000, .acq, 0, 1, 4⟩] ∧
      Performance sample.Sounds sample.entries p.timeline := by
  have h : sample.program 70010 .standard = .ok _ := rfl
  exact ⟨_, h, by decide, timeline_program (by decide) h⟩

/-- **A program fills the sequence.** If no waveform ends after the time that the resource has been
given, the program takes exactly the duration of the sequence. A resource without entries is not
padded, and is left out here. -/
theorem duration_program {duration : Int} {p : Program}
    (sorted : r.entries.Pairwise fun a b => a.time ≤ b.time) (hne : r.entries ≠ [])
    (hfinish : 0 ≤ r.finish)
    (hends : ∀ e ∈ r.entries, ∀ w, r.cache.get? e.key = some w → e.time + w.length ≤ r.finish)
    (h : r.program duration settings = .ok p) : (p.duration : Int) = duration := by
  obtain ⟨hle, body, hbody, -, hduration⟩ := program_eq_walk h
  have hclock := (walk_performs Int.natCast_zero.symm sorted hbody).2
  have hbound := walk_le hfinish hends hbody
  rw [hduration, if_neg hne]
  omega

end CompiledResource

end Sequencer
