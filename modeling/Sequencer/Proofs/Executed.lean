import Sequencer.Proofs.Layout

/-!
# Pulses as they are written

What is placed on a resource is a normalized pulse, and the register settings stand beside it.
Statements about what a schedule asks for are about the pulse as it is written, with its own
amplitudes and its own frequency. If no pulse is in error, the placements are those of the executed
pulses that have a channel, one for each and in their order, so the two can be followed side by
side.

## Main definitions

* `Schedule.executed` — the pulses of executed operations, as they are written
* `Pulse.goesTo` — whether a pulse is played on a resource
* `Placement.Places` — a placement is that of a pulse

## Main results

* `Schedule.forall₂_placed` — each executed pulse with a channel has its placement
* `Schedule.forall₂_placedOn` — and so on each resource
-/

namespace Sequencer

/-- Where a list of lists of computations succeeds everywhere, its results are related to what the
elements stand for if those of each element are. -/
theorem forall₂_flatMap {ε α β γ : Type} {f : α → List (Except ε β)} {g : α → List γ}
    {R : γ → β → Prop} {xs : List α} {ys : List β} (h : xs.flatMap f = ys.map .ok)
    (hstep : ∀ x ∈ xs, ∀ ys : List β, f x = ys.map .ok → List.Forall₂ R (g x) ys) :
    List.Forall₂ R (xs.flatMap g) ys := by
  induction xs generalizing ys with
  | nil =>
    obtain rfl : ys = [] := by simpa using h.symm
    exact .nil
  | cons x xs ih =>
    rw [List.flatMap_cons] at h
    obtain ⟨first, rest, rfl, hfirst, hrest⟩ := List.map_eq_append_iff.mp h.symm
    rw [List.flatMap_cons]
    refine List.rel_append (hstep x List.mem_cons_self first hfirst.symm) (ih hrest.symm ?_)
    exact fun y hy => hstep y (List.mem_cons_of_mem x hy)

/-- Whether a pulse is played on the resource `name`. -/
def Pulse.goesTo (settings : Settings) (name : String) (p : Pulse Float) : Bool :=
  p.channel.any fun channel => (settings.resolve channel).1 = name

/-- A placement is that of a pulse. -/
structure Placement.Places (settings : Settings) (written : Pulse Float) (p : Placement) :
    Prop where
  /-- It is on the resource of the pulse. -/
  channel : ∃ channel, written.channel = some channel ∧
    settings.resolve channel = (p.channel, p.acquires)
  /-- It has the normalized pulse, and the register settings. -/
  normalize : written.normalize = .ok (p.entry.modulations, p.pulse)

namespace Placement

variable {settings : Settings} {written : Pulse Float} {p : Placement}

theorem Places.goesTo_iff (h : Places settings written p) (name : String) :
    written.goesTo settings name = true ↔ p.channel = name := by
  obtain ⟨channel, hchannel, hresolve⟩ := h.channel
  simp [Pulse.goesTo, hchannel, hresolve]

/-- Normalization leaves the frequency as it is. -/
theorem Places.modulation (h : Places settings written p) :
    p.pulse.modulation = written.modulation := by
  rcases Pulse.normalize_eq_ok h.normalize with ⟨-, -, hp⟩ | ⟨_, shape, -, -, -, hp⟩
  · rw [hp]
  · rw [hp]
    cases shape <;> rfl

end Placement

namespace Schedule

variable {s : Schedule} {settings : Settings} {placed : List Placement}

/-- The pulses of all operations that are executed, as they are written. -/
def executed (s : Schedule) : List (Pulse Float) :=
  s.constraints.flatMap fun c => ((s.operations.get? c.operation).map Operation.pulses).getD []

/-- A pulse is placed once if it has a channel, and not at all otherwise. -/
theorem forall₂_placePulse {time : Float} {written : Pulse Float}
    (h : s.placePulse settings time written = placed.map .ok) :
    List.Forall₂ (Placement.Places settings) ([written].filter fun p => p.channel.isSome)
      placed := by
  rw [placePulse] at h
  split at h
  · cases placed <;> simp at h
  next modulations normalized hnormalize =>
  split at h
  · next hnone =>
    obtain rfl : placed = [] := by simpa using h.symm
    simp [hnone]
  next channel hchannel =>
  simp only at h
  split at h
  · cases placed <;> simp at h
  next resource hresource =>
  obtain ⟨p, rfl, hp⟩ := List.map_eq_singleton_iff.mp h.symm
  obtain rfl := Except.ok.inj hp
  rw [List.filter_cons_of_pos (by simp [hchannel]), List.filter_nil]
  exact .cons ⟨⟨channel, hchannel, rfl⟩, hnormalize⟩ .nil

/-- **Each executed pulse with a channel has its placement**, and there are no others. -/
theorem forall₂_placed (hplaced : s.placements settings = placed.map .ok) :
    List.Forall₂ (Placement.Places settings) (s.executed.filter fun p => p.channel.isSome)
      placed := by
  rw [executed, List.filter_flatMap]
  refine forall₂_flatMap hplaced fun c _ placed hc => ?_
  rw [placeConstraint] at hc
  split at hc
  · cases placed <;> simp at hc
  next operation hoperation =>
  split at hc
  · cases placed <;> simp at hc
  split at hc
  · cases placed <;> simp at hc
  rw [hoperation, Option.map_some, Option.getD_some, ← List.flatMap_singleton' operation.pulses,
    List.filter_flatMap]
  exact forall₂_flatMap hc fun p _ placed hp => forall₂_placePulse hp

/-- The pulses of one resource and their placements. -/
theorem forall₂_placedOn (hplaced : s.placements settings = placed.map .ok) (name : String) :
    List.Forall₂ (Placement.Places settings) (s.executed.filter (Pulse.goesTo settings name))
      (placed.filter fun p => p.channel = name) := by
  have hchannel : s.executed.filter (Pulse.goesTo settings name)
      = (s.executed.filter fun p => p.channel.isSome).filter (Pulse.goesTo settings name) := by
    rw [List.filter_filter]
    refine List.filter_congr fun p _ => ?_
    cases hp : p.channel <;> simp [Pulse.goesTo, hp]
  rw [hchannel]
  refine List.rel_filter (fun written p hplaces => ?_) (forall₂_placed hplaced)
  show written.goesTo settings name = true ↔ decide (p.channel = name) = true
  rw [hplaces.goesTo_iff name, decide_eq_true_iff]

end Schedule

end Sequencer
