import Mathlib.Data.List.Forall2

/-!
# Computations that succeed or fail

Compilation and encoding stop at the first error. A success is therefore evidence about every step
on the way, and the lemmas here recover that evidence: from a bind, from a list of computations, and
from a loop. A failure is evidence about the step that has failed, and that all steps before it have
succeeded.

They are stated once for any error type, because two of them alternate in this library: the encoder
has its own errors, and the compiler wraps them.

## Main results

* `bind_eq_ok` — both parts of a sequence have succeeded
* `run_bind_of_ok`, `run_bind_of_error` — a sequence of computations that pass on a state
* `mapM_eq_ok` — a list of computations succeeds element by element; `exists_of_mem_right` and
  `exists_of_mem_left` go from a result to its computation and back
* `foldlM_induction` — what a step of a loop preserves, the loop preserves
* `bind_eq_error`, `exists_of_mapM_eq_error`, `exists_of_foldlM_eq_error` — where a failure comes
  from
-/

namespace Sequencer

variable {ε ε' α β σ : Type}

theorem bind_eq_ok {x : Except ε α} {f : α → Except ε β} {b : β} :
    (x >>= f) = .ok b ↔ ∃ a, x = .ok a ∧ f a = .ok b := by
  cases x with
  | error e => simp [bind, Except.bind]
  | ok a => simp [bind, Except.bind]

theorem mapError_eq_ok {x : Except ε α} {f : ε → ε'} {a : α} :
    x.mapError f = .ok a ↔ x = .ok a := by
  cases x <;> simp [Except.mapError]

@[simp] theorem pure_eq_ok {a b : α} : (pure a : Except ε α) = .ok b ↔ a = b := by
  simp [pure, Except.pure]

theorem exists_ok_of_toOption {x : Except ε α} {f : α → β} {b : β} (h : x.toOption.map f = some b) :
    ∃ a, x = .ok a ∧ f a = b := by
  cases x with
  | error e => simp [Except.toOption] at h
  | ok a => exact ⟨a, rfl, Option.some.inj h⟩

section Stateful

variable {x : EStateM ε σ α} {f : α → EStateM ε σ β} {s s' : σ}

theorem run_get_bind {f : σ → EStateM ε σ β} (s : σ) : (get >>= f).run s = (f s).run s := rfl

/-- A sequence goes on in the state that its first part has left. -/
theorem run_bind_of_ok {a : α} (h : x.run s = .ok a s') : (x >>= f).run s = (f a).run s' := by
  show EStateM.bind x f s = f a s'
  rw [EStateM.bind, show x s = .ok a s' from h]

/-- A sequence ends in the state that a failed first part has left. -/
theorem run_bind_of_error {e : ε} (h : x.run s = .error e s') : (x >>= f).run s = .error e s' := by
  show EStateM.bind x f s = .error e s'
  rw [EStateM.bind, show x s = .error e s' from h]

end Stateful

/-- A list of computations succeeds exactly when each of them does, with the results in order. -/
theorem mapM_eq_ok {f : α → Except ε β} {xs : List α} {ys : List β} :
    xs.mapM f = .ok ys ↔ List.Forall₂ (fun x y => f x = .ok y) xs ys := by
  induction xs generalizing ys with
  | nil =>
    rw [List.mapM_nil, pure_eq_ok, List.forall₂_nil_left_iff]
    exact eq_comm
  | cons x xs ih =>
    rw [List.mapM_cons, List.forall₂_cons_left_iff]
    constructor
    · intro h
      obtain ⟨y, hy, h⟩ := bind_eq_ok.mp h
      obtain ⟨ys', hys, h⟩ := bind_eq_ok.mp h
      exact ⟨y, ys', hy, ih.mp hys, (pure_eq_ok.mp h).symm⟩
    · rintro ⟨y, ys', hy, hys, rfl⟩
      rw [bind_eq_ok]
      refine ⟨y, hy, ?_⟩
      rw [bind_eq_ok]
      exact ⟨ys', ih.mpr hys, rfl⟩

section Elements

variable {R : α → β → Prop} {xs : List α} {ys : List β}

theorem exists_of_mem_right (h : List.Forall₂ R xs ys) {y : β} (hy : y ∈ ys) : ∃ x ∈ xs, R x y := by
  induction h with
  | nil => simp at hy
  | @cons x z xs zs hx _ ih =>
    rcases List.mem_cons.mp hy with rfl | hy
    · exact ⟨x, List.mem_cons_self, hx⟩
    · obtain ⟨x', hx', hR⟩ := ih hy
      exact ⟨x', List.mem_cons_of_mem _ hx', hR⟩

theorem exists_of_mem_left (h : List.Forall₂ R xs ys) {x : α} (hx : x ∈ xs) : ∃ y ∈ ys, R x y :=
  exists_of_mem_right (R := flip R) h.flip hx

/-- What related elements have in common, related lists have in common. -/
theorem map_eq_map_of_forall₂ {γ : Type} {g : β → γ} {k : α → γ} (h : List.Forall₂ R xs ys)
    (hkeep : ∀ x y, R x y → g y = k x) : ys.map g = xs.map k := by
  induction h with
  | nil => rfl
  | cons hx _ ih => rw [List.map_cons, List.map_cons, hkeep _ _ hx, ih]

end Elements

/-- **What a step preserves, the loop preserves.** The motive sees the elements that have been
consumed, so that it can say what the state has become as a function of them. -/
theorem foldlM_induction {f : σ → α → Except ε σ} {motive : List α → σ → Prop} {s s' : σ}
    {xs : List α} (start : motive [] s)
    (step : ∀ done x s s', motive done s → f s x = .ok s' → motive (done ++ [x]) s')
    (h : xs.foldlM f s = .ok s') : motive xs s' := by
  -- generalized over a prefix that has been consumed already
  suffices H : ∀ (xs done : List α) (s : σ), motive done s → xs.foldlM f s = .ok s' →
      motive (done ++ xs) s' by
    simpa using H xs [] s start h
  intro xs
  induction xs with
  | nil =>
    intro done s hs h
    rw [List.foldlM_nil, pure_eq_ok] at h
    subst h
    simpa using hs
  | cons x xs ih =>
    intro done s hs h
    rw [List.foldlM_cons] at h
    obtain ⟨s₁, h₁, h⟩ := bind_eq_ok.mp h
    have := ih (done ++ [x]) s₁ (step done x s s₁ hs h₁) h
    simpa using this

/-- A loop with one more element at the end goes one step further. -/
theorem foldlM_concat {f : σ → α → Except ε σ} {s s' : σ} {xs : List α} (h : xs.foldlM f s = .ok s')
    (x : α) : (xs ++ [x]).foldlM f s = f s' x := by
  rw [List.foldlM_append, h]
  exact bind_pure (f s' x)

theorem foldlM_congr {f g : σ → α → Except ε σ} {xs : List α} (h : ∀ x ∈ xs, ∀ s, f s x = g s x)
    (s : σ) : xs.foldlM f s = xs.foldlM g s := by
  induction xs generalizing s with
  | nil => rfl
  | cons x xs ih =>
    rw [List.foldlM_cons, List.foldlM_cons, h x List.mem_cons_self]
    exact bind_congr fun s' => ih (fun x' hx' => h x' (List.mem_cons_of_mem _ hx')) s'

/-! ## Failures -/

theorem bind_eq_error {x : Except ε α} {f : α → Except ε β} {e : ε} :
    (x >>= f) = .error e ↔ x = .error e ∨ ∃ a, x = .ok a ∧ f a = .error e := by
  cases x with
  | error e' => simp [bind, Except.bind]
  | ok a => simp [bind, Except.bind]

theorem mapError_eq_error {x : Except ε α} {f : ε → ε'} {e : ε'} :
    x.mapError f = .error e ↔ ∃ cause, x = .error cause ∧ f cause = e := by
  cases x <;> simp [Except.mapError]

theorem pure_ne_error {a : α} {e : ε} : (pure a : Except ε α) ≠ .error e := nofun

theorem exists_error_of_toOption {x : Except ε α} (h : x.toOption.isSome = false) :
    ∃ e, x = .error e := by
  cases x with
  | error e => exact ⟨e, rfl⟩
  | ok a => cases h

/-- A list of computations fails with one of them. -/
theorem exists_of_mapM_eq_error {f : α → Except ε β} {xs : List α} {e : ε}
    (h : xs.mapM f = .error e) : ∃ x ∈ xs, f x = .error e := by
  induction xs with
  | nil => exact absurd h pure_ne_error
  | cons x xs ih =>
    rw [List.mapM_cons] at h
    rcases bind_eq_error.mp h with h | ⟨y, -, h⟩
    · exact ⟨x, List.mem_cons_self, h⟩
    rcases bind_eq_error.mp h with h | ⟨ys, -, h⟩
    · obtain ⟨x', hx', h⟩ := ih h
      exact ⟨x', List.mem_cons_of_mem _ hx', h⟩
    · exact absurd h pure_ne_error

/-- A loop fails with one of its steps, and up to there it has succeeded. -/
theorem exists_of_foldlM_eq_error {f : σ → α → Except ε σ} {s : σ} {xs : List α} {e : ε}
    (h : xs.foldlM f s = .error e) :
    ∃ done x rest s', xs = done ++ x :: rest ∧ done.foldlM f s = .ok s' ∧ f s' x = .error e := by
  induction xs generalizing s with
  | nil => exact absurd h pure_ne_error
  | cons x xs ih =>
    rw [List.foldlM_cons] at h
    rcases bind_eq_error.mp h with h | ⟨s₁, hx, h⟩
    · exact ⟨[], x, xs, s, rfl, rfl, h⟩
    · obtain ⟨done, x', rest, s', rfl, hdone, h⟩ := ih h
      refine ⟨x :: done, x', rest, s', rfl, ?_, h⟩
      rw [List.foldlM_cons, hx]
      exact hdone

end Sequencer
