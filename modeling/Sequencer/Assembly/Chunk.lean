import Sequencer.Assembly.EncodeError
import Sequencer.Assembly.Traits

/-!
# Chunks of a long duration

An instruction carries at most `immediateMax` samples, so a longer duration is spread over several:
full chunks first, and what remains last. The remainder is the only chunk that can be too short.

## Main definitions

* `chunks` — the chunks of a duration
* `Traits.chunks` — the same, refused when the last chunk is below the minimum
-/

namespace Sequencer

/-- The length of the last chunk of a duration; `0` for an empty duration. -/
def lastChunk (limit duration : Nat) : Nat := duration - (duration - 1) / limit * limit

/-- A duration as full chunks of `limit` followed by a last chunk of at most `limit`. The empty
duration is one empty chunk. -/
def chunks (limit duration : Nat) : List Nat :=
  List.replicate ((duration - 1) / limit) limit ++ [lastChunk limit duration]

/-- The chunks of a duration, if the last one is long enough to be an instruction. -/
def Traits.chunks (t : Traits) (duration : Nat) : Except EncodeError (List Nat) :=
  let last := lastChunk t.immediateMax duration
  if last < t.minDuration then .error (.tooShort last t.minDuration)
  else .ok (Sequencer.chunks t.immediateMax duration)

theorem chunks_ne_nil (limit duration : Nat) : chunks limit duration ≠ [] := by
  simp [chunks]

/-- The last chunk is what remains beyond a multiple of the limit, and a whole chunk if nothing
does. -/
theorem lastChunk_eq (limit duration : Nat) :
    lastChunk limit duration = if duration = 0 then 0 else (duration - 1) % limit + 1 := by
  have hdiv : (duration - 1) / limit * limit + (duration - 1) % limit = duration - 1 :=
    Nat.div_add_mod' _ _
  rw [lastChunk]
  split <;> omega

theorem lastChunk_le {limit : Nat} (h : 0 < limit) (duration : Nat) :
    lastChunk limit duration ≤ limit := by
  have hmod : (duration - 1) % limit < limit := Nat.mod_lt _ h
  rw [lastChunk_eq]
  split <;> omega

/-- All chunks but the last are full. -/
theorem dropLast_chunks (limit duration : Nat) :
    (chunks limit duration).dropLast = List.replicate ((duration - 1) / limit) limit := by
  simp [chunks]

theorem mem_chunks {limit duration chunk : Nat} (h : chunk ∈ chunks limit duration) :
    chunk = limit ∨ chunk = lastChunk limit duration := by
  rcases List.mem_append.mp h with h | h
  · exact Or.inl (List.eq_of_mem_replicate h)
  · exact Or.inr (List.mem_singleton.mp h)

end Sequencer
