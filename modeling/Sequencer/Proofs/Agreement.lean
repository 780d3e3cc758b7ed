import Mathlib.Data.List.Forall2

/-!
# Two computations that agree

Some statements compare two compilations. They run side by side: either both fail, with the same
error, or both succeed, and then their results are related. The lemmas here let the two sides
proceed in step through a sequence, a list of computations and a loop, so that only what differs
between them has to be looked at.

## Main definitions

* `Agree` — the same error, or related results

## Main results

* `Agree.bind`, `Agree.mapM`, `Agree.foldlM` — the two sides in step
* `Agree.outcome` — the two ways in which computations agree
* `outcome_of_rel` — the two ways in which optional values are related
-/

namespace Sequencer

variable {ε α α' β β' σ σ' : Type}

/-- Two computations fail with the same error, or succeed with related results. -/
inductive Agree (R : α → β → Prop) : Except ε α → Except ε β → Prop where
  | ok {a : α} {b : β} (h : R a b) : Agree R (.ok a) (.ok b)
  | error (e : ε) : Agree R (.error e) (.error e)

namespace Agree

variable {R : α → β → Prop} {S : α' → β' → Prop} {T : σ → σ' → Prop}

theorem refl (x : Except ε α) : Agree Eq x x := by
  cases x with
  | error e => exact .error e
  | ok a => exact .ok rfl

theorem trans {γ : Type} {P : β → γ → Prop} {Q : α → γ → Prop} {x : Except ε α} {y : Except ε β}
    {z : Except ε γ} (hxy : Agree R x y) (hyz : Agree P y z) (hQ : ∀ a b c, R a b → P b c → Q a c) :
    Agree Q x z := by
  cases hxy with
  | error e =>
    cases hyz
    exact .error e
  | ok hab =>
    cases hyz with
    | ok hbc => exact .ok (hQ _ _ _ hab hbc)

theorem symm {x : Except ε α} {y : Except ε β} (h : Agree R x y) :
    Agree (fun b a => R a b) y x := by
  cases h with
  | ok h => exact .ok h
  | error e => exact .error e

theorem imp {R' : α → β → Prop} {x : Except ε α} {y : Except ε β} (h : Agree R x y)
    (hR : ∀ a b, R a b → R' a b) : Agree R' x y := by
  cases h with
  | ok h => exact .ok (hR _ _ h)
  | error e => exact .error e

/-- The two sides of a sequence in step. -/
theorem bind {x : Except ε α} {y : Except ε β} {f : α → Except ε α'} {g : β → Except ε β'}
    (h : Agree R x y) (hf : ∀ a b, R a b → Agree S (f a) (g b)) : Agree S (x >>= f) (y >>= g) := by
  cases h with
  | ok h => exact hf _ _ h
  | error e => exact .error e

/-- Errors that are reworded alike still agree. -/
theorem mapError {ε' : Type} {x : Except ε α} {y : Except ε β} (h : Agree R x y) (f : ε → ε') :
    Agree R (x.mapError f) (y.mapError f) := by
  cases h with
  | ok h => exact .ok h
  | error e => exact .error (f e)

/-- The two sides of a list of computations in step. -/
theorem mapM {f : α → Except ε α'} {g : β → Except ε β'} {xs : List α} {ys : List β}
    (h : List.Forall₂ R xs ys) (hf : ∀ x y, R x y → Agree S (f x) (g y)) :
    Agree (List.Forall₂ S) (xs.mapM f) (ys.mapM g) := by
  induction h with
  | nil => exact .ok .nil
  | cons hx _ ih =>
    rw [List.mapM_cons, List.mapM_cons]
    exact (hf _ _ hx).bind fun _ _ hab => ih.bind fun _ _ hrest => .ok (.cons hab hrest)

/-- The two sides of a loop in step: what a step keeps, the loop keeps. -/
theorem foldlM {f : σ → α → Except ε σ} {g : σ' → β → Except ε σ'} {xs : List α} {ys : List β}
    (h : List.Forall₂ R xs ys) (hstep : ∀ s t x y, T s t → R x y → Agree T (f s x) (g t y)) {s : σ}
    {t : σ'} (hstart : T s t) : Agree T (xs.foldlM f s) (ys.foldlM g t) := by
  induction h generalizing s t with
  | nil => exact .ok hstart
  | cons hx _ ih =>
    rw [List.foldlM_cons, List.foldlM_cons]
    exact (hstep _ _ _ _ hstart hx).bind fun _ _ hnext => ih hnext

/-- The two ways in which computations agree. -/
theorem outcome {x : Except ε α} {y : Except ε β} (h : Agree R x y) :
    (∃ e, x = .error e ∧ y = .error e) ∨ ∃ a b, x = .ok a ∧ y = .ok b ∧ R a b := by
  cases h with
  | ok h => exact Or.inr ⟨_, _, rfl, rfl, h⟩
  | error e => exact Or.inl ⟨e, rfl, rfl⟩

end Agree

/-- Related optional values are both missing, or both there. -/
theorem outcome_of_rel {R : α → β → Prop} {x : Option α} {y : Option β} (h : Option.Rel R x y) :
    (x = none ∧ y = none) ∨ ∃ a b, x = some a ∧ y = some b ∧ R a b := by
  cases h with
  | some h => exact Or.inr ⟨_, _, rfl, rfl, h⟩
  | none => exact Or.inl ⟨rfl, rfl⟩

end Sequencer
