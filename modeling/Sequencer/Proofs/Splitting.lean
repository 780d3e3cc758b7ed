import Mathlib.Algebra.Order.Floor.Div
import Sequencer.Proofs.Shape

/-!
# Splitting a duration

`chunks` says in closed form which pieces a duration is spread over: a quotient counts the full
chunks, and what is left over is the last. The same pieces come without a division, by cutting full
chunks off the duration for as long as more than one is left. `Cuts` is this loop, with one
constructor for each outcome of its test.

Two things could go wrong with it. The loop may never end, and with a limit of zero it does not. And
it may leave an empty chunk at a multiple of the limit, which no instruction can carry; but it stops
while a whole chunk is left. So the loop ends with the closed form, and the closed form is the one
list that sums up to the duration, is full up to its last piece and has a last piece in range.

## Main definitions

* `Cuts` — cutting full chunks off a duration ends with these pieces
* `IsSplit` — what a split of a duration has to be

## Main results

* `not_cuts_zero` — nothing is ever cut off by a limit of zero
* `cuts_iff` — cutting ends, with the chunks
* `eq_chunks` — full pieces and a last one in range leave no choice
* `chunks_only_split` — the chunks are the only split
-/

namespace Sequencer

/-! ## Cutting off full chunks -/

/-- Cutting chunks of the length `limit` off a duration ends with these pieces: while more than a
chunk is left, a full one is cut off, and what is left then is the last. -/
inductive Cuts (limit : Nat) : Nat → List Nat → Prop where
  | last {duration : Nat} (h : duration ≤ limit) : Cuts limit duration [duration]
  | full {duration : Nat} {rest : List Nat} (h : limit < duration)
    (hrest : Cuts limit (duration - limit) rest) :
    Cuts limit duration (limit :: rest)

/-- With a limit of zero there is no end to it. -/
theorem not_cuts_zero {duration : Nat} (h : 0 < duration) (pieces : List Nat) :
    ¬ Cuts 0 duration pieces := by
  intro hcuts
  induction hcuts with
  | last hle => omega
  | full _ _ ih => exact ih (by omega)

theorem chunks_of_le {limit duration : Nat} (h : duration ≤ limit) :
    chunks limit duration = [duration] := by
  have hquotient : (duration - 1) / limit = 0 := by
    rw [Nat.div_eq_zero_iff]
    omega
  simp [chunks, lastChunk, hquotient]

theorem chunks_of_lt {limit duration : Nat} (hpos : 0 < limit) (h : limit < duration) :
    chunks limit duration = limit :: chunks limit (duration - limit) := by
  have hquotient : (duration - 1) / limit = (duration - limit - 1) / limit + 1 := by
    rw [← Nat.add_div_right _ hpos]
    congr 1
    omega
  have hlast : lastChunk limit duration = lastChunk limit (duration - limit) := by
    rw [lastChunk, lastChunk, hquotient, Nat.succ_mul]
    omega
  rw [chunks, chunks, hquotient, hlast, List.replicate_succ, List.cons_append]

/-- **Cutting ends, with the chunks.** -/
theorem cuts_iff {limit : Nat} (hpos : 0 < limit) {duration : Nat} {pieces : List Nat} :
    Cuts limit duration pieces ↔ pieces = chunks limit duration := by
  constructor
  · intro h
    induction h with
    | last hle => exact (chunks_of_le hle).symm
    | full hlt _ ih => rw [chunks_of_lt hpos hlt, ih]
  · rintro rfl
    -- each round leaves less than the one before
    induction duration using Nat.strongRecOn with
    | ind duration ih =>
      rcases Nat.lt_or_ge limit duration with hlt | hle
      · rw [chunks_of_lt hpos hlt]
        exact .full hlt (ih (duration - limit) (by omega))
      · rw [chunks_of_le hle]
        exact .last hle

/-! ## Splits -/

/-- A split of a duration into pieces for one instruction each. All pieces but the last are as long
as they can be, the last is no longer than that and is empty only if there is nothing to split, and
there are no more pieces than needed. -/
structure IsSplit (limit duration : Nat) (pieces : List Nat) : Prop where
  ne_nil : pieces ≠ []
  sum : pieces.sum = duration
  spread : Spread limit pieces
  last_le : pieces.getLast ne_nil ≤ limit
  last_pos : 1 ≤ duration → 1 ≤ pieces.getLast ne_nil
  length : pieces.length = max 1 (duration ⌈/⌉ limit)

theorem Spread.eq_append {limit : Nat} {pieces : List Nat} (h : Spread limit pieces)
    (hne : pieces ≠ []) :
    pieces = List.replicate pieces.dropLast.length limit ++ [pieces.getLast hne] := by
  conv_lhs => rw [← List.dropLast_append_getLast hne, List.eq_replicate_of_mem h]

/-- Where full chunks are followed by a last one in range, the quotient counts the full ones. -/
theorem quotient_eq {limit count last : Nat} (hle : last ≤ limit)
    (hpos : 1 ≤ count * limit + last → 1 ≤ last) (hlimit : 0 < limit) :
    (count * limit + last - 1) / limit = count := by
  rcases Nat.eq_zero_or_pos last with hzero | hlast
  · have hnone : count * limit = 0 := by omega
    rw [hzero, hnone, (Nat.mul_eq_zero.mp hnone).resolve_right (by omega)]
    exact Nat.zero_div limit
  · rw [Nat.add_sub_assoc hlast, Nat.mul_comm, Nat.mul_add_div hlimit, Nat.div_eq_of_lt (by omega),
      Nat.add_zero]

/-- **Full pieces and a last one in range leave no choice.** How many pieces there are need not be
said. -/
theorem eq_chunks {limit : Nat} (hlimit : 0 < limit) {pieces : List Nat} (hne : pieces ≠ [])
    (hspread : Spread limit pieces) (hle : pieces.getLast hne ≤ limit)
    (hpos : 1 ≤ pieces.sum → 1 ≤ pieces.getLast hne) : pieces = chunks limit pieces.sum := by
  have hpieces := hspread.eq_append hne
  have hsum : pieces.sum = pieces.dropLast.length * limit + pieces.getLast hne := by
    conv_lhs => rw [hpieces, List.sum_append, List.sum_replicate_nat, List.sum_singleton]
  rw [hsum] at hpos
  have hcount := quotient_eq hle hpos hlimit
  rw [hsum, chunks, lastChunk, hcount, Nat.add_sub_cancel_left]
  exact hpieces

theorem getLast_chunks (limit duration : Nat) :
    (chunks limit duration).getLast (chunks_ne_nil limit duration) = lastChunk limit duration := by
  simp [chunks]

theorem length_chunks {limit : Nat} (hlimit : 0 < limit) (duration : Nat) :
    (chunks limit duration).length = max 1 (duration ⌈/⌉ limit) := by
  rw [Nat.ceilDiv_eq_add_pred_div, chunks, List.length_append, List.length_replicate,
    List.length_singleton]
  rcases Nat.eq_zero_or_pos duration with rfl | hpos
  · rw [Nat.zero_add, Nat.div_eq_of_lt (Nat.sub_one_lt_of_lt hlimit), Nat.zero_div]
    rfl
  · have hshift : duration + limit - 1 = duration - 1 + limit := by omega
    rw [hshift, Nat.add_div_right _ hlimit]
    exact (Nat.max_eq_right (Nat.le_add_left 1 _)).symm

theorem isSplit_chunks {limit : Nat} (hlimit : 0 < limit) (duration : Nat) :
    IsSplit limit duration (chunks limit duration) where
  ne_nil := chunks_ne_nil limit duration
  sum := sum_chunks limit duration
  spread := spread_chunks limit duration
  last_le := by
    rw [getLast_chunks]
    exact lastChunk_le hlimit duration
  last_pos := fun hpos => by
    rw [getLast_chunks, lastChunk_eq, if_neg (by omega)]
    exact Nat.le_add_left 1 _
  length := length_chunks hlimit duration

/-- **The chunks of a duration are its only split**, and cutting full chunks off the duration ends
with them. -/
theorem chunks_only_split {limit : Nat} (hlimit : 1 ≤ limit) (duration : Nat) (pieces : List Nat) :
    (Cuts limit duration pieces ↔ pieces = chunks limit duration) ∧
      (IsSplit limit duration pieces ↔ pieces = chunks limit duration) := by
  refine ⟨cuts_iff hlimit, fun h => ?_, ?_⟩
  · have hsum := h.sum
    subst hsum
    exact eq_chunks hlimit h.ne_nil h.spread h.last_le h.last_pos
  · rintro rfl
    exact isSplit_chunks hlimit duration

/-- A multiple of the limit has a full last chunk. -/
theorem chunks_only_split_multiple :
    1 ≤ 10 ∧ Cuts 10 30 [10, 10, 10] ∧ IsSplit 10 30 [10, 10, 10] ∧
      ¬ IsSplit 10 30 [10, 10, 10, 0] := by
  have hlimit : 1 ≤ 10 := by decide
  obtain ⟨hcuts, hsplit⟩ := chunks_only_split hlimit 30 [10, 10, 10]
  refine ⟨hlimit, hcuts.mpr (by decide), hsplit.mpr (by decide), ?_⟩
  rw [(chunks_only_split hlimit 30 _).2]
  decide

end Sequencer
