import Mathlib.Data.List.Nodup
import Mathlib.Data.List.Perm.Basic
import Mathlib.Order.Lattice

/-!
# Peaks, first occurrences and stable orders

Three things a compilation does with lists of entries: it keeps the latest end of any waveform, it
keeps each content where it was first seen, and it sorts by time without exchanging what happens at
the same time. They are named here, so that statements about a compilation need not mention how it
is done.

## Main definitions

* `peak` — the latest of some times, and no earlier than the start
* `IsStableSort` — sorted by a time, equal times in the order in which they stood

## Main results

* `peak_le_iff`, `peak_congr` — a peak only depends on which times there are
* `eraseDups_concat` — the first occurrences after one more element
* `isStableSort_mergeSort`
* `IsStableSort.sublist`, `IsStableSort.unique` — a sublist is sorted into a sublist, so sorting has
  one result
-/

namespace Sequencer

/-! ## Peaks -/

/-- The latest of some times; `0` if there is none, or none that is later. -/
def peak (times : List Int) : Int := times.foldl max 0

theorem foldl_max_le_iff {α : Type} [LinearOrder α] (xs : List α) (start bound : α) :
    xs.foldl max start ≤ bound ↔ start ≤ bound ∧ ∀ x ∈ xs, x ≤ bound := by
  induction xs generalizing start with
  | nil => simp
  | cons x xs ih =>
    rw [List.foldl_cons, ih, List.forall_mem_cons, sup_le_iff, and_assoc]

theorem peak_le_iff {times : List Int} {bound : Int} :
    peak times ≤ bound ↔ 0 ≤ bound ∧ ∀ time ∈ times, time ≤ bound :=
  foldl_max_le_iff times 0 bound

theorem peak_nonneg (times : List Int) : 0 ≤ peak times := (peak_le_iff.mp le_rfl).1

theorem le_peak {times : List Int} {time : Int} (h : time ∈ times) : time ≤ peak times :=
  (peak_le_iff.mp le_rfl).2 time h

@[simp] theorem peak_nil : peak [] = 0 := rfl

@[simp] theorem peak_concat (times : List Int) (time : Int) :
    peak (times ++ [time]) = max (peak times) time := by
  simp [peak]

/-- A peak only depends on which times there are, not on their order or number. -/
theorem peak_congr {a b : List Int} (h : ∀ time, time ∈ a ↔ time ∈ b) : peak a = peak b := by
  refine le_antisymm ?_ ?_
  · exact peak_le_iff.mpr ⟨peak_nonneg b, fun time ht => le_peak ((h time).mp ht)⟩
  · exact peak_le_iff.mpr ⟨peak_nonneg a, fun time ht => le_peak ((h time).mpr ht)⟩

/-- The peak of peaks is the peak of all their times. -/
theorem peak_flatMap {α : Type} (xs : List α) (times : α → List Int) :
    peak (xs.map fun x => peak (times x)) = peak (xs.flatMap times) := by
  refine le_antisymm ?_ ?_
  · refine peak_le_iff.mpr ⟨peak_nonneg _, fun time ht => ?_⟩
    obtain ⟨x, hx, rfl⟩ := List.mem_map.mp ht
    refine peak_le_iff.mpr ⟨peak_nonneg _, fun time ht => ?_⟩
    exact le_peak (List.mem_flatMap.mpr ⟨x, hx, ht⟩)
  · refine peak_le_iff.mpr ⟨peak_nonneg _, fun time ht => ?_⟩
    obtain ⟨x, hx, ht⟩ := List.mem_flatMap.mp ht
    exact (le_peak ht).trans (le_peak (List.mem_map.mpr ⟨x, hx, rfl⟩))

/-! ## First occurrences -/

theorem eraseDups_concat {α : Type} [DecidableEq α] (xs : List α) (x : α) :
    (xs ++ [x]).eraseDups = if x ∈ xs then xs.eraseDups else xs.eraseDups ++ [x] := by
  rw [List.eraseDups_append]
  by_cases h : x ∈ xs
  · simp [List.removeAll, h]
  · simp [List.removeAll, h, List.eraseDups_cons]

/-! ## Stable orders -/

/-- `sorted` has the elements of `list` in ascending order of their times, and those of any one time
in the order in which they stood. This determines it. -/
structure IsStableSort {α : Type} (time : α → Int) (list sorted : List α) : Prop where
  ascending : sorted.Pairwise fun a b => time a ≤ time b
  stable : ∀ moment, sorted.filter (fun a => time a = moment) = list.filter fun a => time a = moment

theorem IsStableSort.mem_iff {α : Type} {time : α → Int} {list sorted : List α}
    (h : IsStableSort time list sorted) (a : α) : a ∈ sorted ↔ a ∈ list := by
  have hmem : a ∈ sorted.filter (fun b => time b = time a) ↔ a ∈ list.filter fun b =>
      time b = time a := by
    rw [h.stable]
  simpa [List.mem_filter] using hmem

theorem isStableSort_mergeSort {α : Type} (time : α → Int) (list : List α) :
    IsStableSort time list (list.mergeSort fun a b => decide (time a ≤ time b)) := by
  have trans : ∀ a b c : α, decide (time a ≤ time b) = true → decide (time b ≤ time c) = true →
      decide (time a ≤ time c) = true := by
    intro a b c hab hbc
    simp only [decide_eq_true_eq] at *
    exact hab.trans hbc
  have total : ∀ a b : α, (decide (time a ≤ time b) || decide (time b ≤ time a)) = true := by
    intro a b
    simpa using le_total (time a) (time b)
  refine ⟨?_, fun moment => ?_⟩
  · exact (List.pairwise_mergeSort trans total list).imp fun h => of_decide_eq_true h
  · -- what happens at one time is sorted already, so sorting keeps it as a sublist;
    -- no more happens then
    have hpair : (list.filter fun a => time a = moment).Pairwise
        fun a b => decide (time a ≤ time b) = true := by
      refine List.pairwise_of_forall_mem_list ?_
      intro a ha b hb
      simp only [List.mem_filter, decide_eq_true_eq] at *
      omega
    have hsub := (List.sublist_mergeSort trans total hpair List.filter_sublist).filter
      fun a => time a = moment
    rw [List.filter_filter] at hsub
    simp only [Bool.and_self] at hsub
    refine (hsub.eq_of_length ?_).symm
    exact ((List.mergeSort_perm list _).filter _).length_eq.symm

/-- Two ascending lists can be compared one moment at a time. -/
theorem sublist_of_filter_sublist {α : Type} {time : α → Int} {xs ys : List α}
    (hxs : xs.Pairwise fun a b => time a ≤ time b) (hys : ys.Pairwise fun a b => time a ≤ time b)
    (h : ∀ moment, (xs.filter fun a => time a = moment).Sublist
      (ys.filter fun a => time a = moment)) : xs.Sublist ys := by
  induction ys generalizing xs with
  | nil =>
    cases xs with
    | nil => exact .slnil
    | cons x xs => simpa using h (time x)
  | cons y ys ih =>
    cases xs with
    | nil => exact List.nil_sublist _
    | cons x xs =>
      rw [List.pairwise_cons] at hys
      -- leaving `y` out is right if, at its own moment, it is left out
      have hskip :
          ((x :: xs).filter fun a => time a = time y).Sublist
            (ys.filter fun a => time a = time y) → (x :: xs).Sublist (y :: ys) := by
        intro hy
        refine (ih hxs hys.2 fun moment => ?_).cons y
        by_cases hm : time y = moment
        · subst hm
          exact hy
        · have hmoment := h moment
          rwa [List.filter_cons_of_neg (a := y) (by simpa using hm)] at hmoment
      rw [List.pairwise_cons] at hxs
      by_cases htime : time x = time y
      · have hnow := h (time y)
        rw [List.filter_cons_of_pos (by simpa using htime),
          List.filter_cons_of_pos (by simp)] at hnow
        rcases List.sublist_cons_iff.mp hnow with hleft | ⟨rest, heq, htaken⟩
        · exact hskip (by rwa [List.filter_cons_of_pos (by simpa using htime)])
        · obtain ⟨rfl, rfl⟩ := List.cons.inj heq
          refine (ih hxs.2 hys.2 fun moment => ?_).cons_cons x
          by_cases hm : time x = moment
          · subst hm
            exact htaken
          · have hmoment := h moment
            rwa [List.filter_cons_of_neg (by simpa using hm),
              List.filter_cons_of_neg (by simpa using hm)] at hmoment
      · refine hskip ?_
        have hmem : x ∈ (y :: ys).filter fun a => time a = time x :=
          (h (time x)).subset (List.mem_filter.mpr ⟨List.mem_cons_self, by simp⟩)
        have hlate : time y < time x := by
          rcases List.mem_cons.mp (List.mem_filter.mp hmem).1 with rfl | hx
          · exact absurd rfl htime
          · have hle := hys.1 x hx
            omega
        have hnone : ((x :: xs).filter fun a => time a = time y) = [] := by
          rw [List.filter_eq_nil_iff]
          intro a ha hay
          have hay := of_decide_eq_true hay
          rcases List.mem_cons.mp ha with rfl | ha
          · omega
          · have hle := hxs.1 a ha
            omega
        rw [hnone]
        exact List.nil_sublist _

namespace IsStableSort

variable {α : Type} {time : α → Int} {list list' sorted sorted' : List α}

/-- What is left out before sorting is missing afterwards, and nothing else changes. -/
theorem sublist (hsub : list.Sublist list') (h : IsStableSort time list sorted)
    (h' : IsStableSort time list' sorted') : sorted.Sublist sorted' := by
  refine sublist_of_filter_sublist h.ascending h'.ascending fun moment => ?_
  rw [h.stable, h'.stable]
  exact hsub.filter _

theorem unique (h : IsStableSort time list sorted) (h' : IsStableSort time list sorted') :
    sorted = sorted' :=
  (sublist (List.Sublist.refl list) h h').antisymm (sublist (List.Sublist.refl list) h' h)

theorem perm (h : IsStableSort time list sorted) : sorted.Perm list := by
  rw [h.unique (isStableSort_mergeSort time list)]
  exact List.mergeSort_perm list _

end IsStableSort

/-- If nothing happens at the same time, there is only one ascending order. -/
theorem eq_of_perm_of_nodup {α : Type} {time : α → Int} {xs ys : List α} (hperm : xs.Perm ys)
    (hxs : xs.Pairwise fun a b => time a ≤ time b) (hys : ys.Pairwise fun a b => time a ≤ time b)
    (hnodup : (xs.map time).Nodup) : xs = ys := by
  refine hperm.eq_of_pairwise (fun a b ha hb hab hba => ?_) hxs hys
  exact List.inj_on_of_nodup_map hnodup ha (hperm.mem_iff.mpr hb) (le_antisymm hab hba)

end Sequencer
