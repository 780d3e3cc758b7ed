import Sequencer.Proofs.Layout

/-!
# Allocation

A memory takes the contents of a cache in order. Each goes to the end of its bank, and its position
there is all that programs will know of it. So positions are told by the past alone: a content lies
behind those contents of its own bank that the cache has seen before it, and contents of the other
bank do not count, however the two are interleaved.

It follows that the two slots of a content are its own, and that the slots in use are an initial
segment. How many they are is what a limited capacity is compared with.

## Main definitions

* `Memory.IsExact` — a memory as it is told by a cache and the acquired contents

## Main results

* `Memory.allocate_eq_error_iff` — when an allocation fails, and with which error
* `Memory.find_layout_of_keys_eq` — where a content lies
* `Memory.paths_layout` — the slots in use are an initial segment, each used once
* `Memory.allocate_exact` — allocation is exact
-/

namespace Sequencer

namespace Memory

variable {c : Cache} {acquisitions : List ContentKey}

/-! ## Capacity -/

/-- What an allocation compares, and in which order. -/
theorem allocate_some (h : ∀ b, population acquisitions b c.keys ≤ Allocations.indexLimit)
    (resource : String) (limit : Nat) :
    allocate resource c acquisitions (some limit) =
      if limit < 2 * population acquisitions .awg c.keys then
        .error (.bankCapacityExceeded resource .awg (2 * population acquisitions .awg c.keys) limit)
      else if limit < 2 * population acquisitions .acq c.keys then
        .error (.bankCapacityExceeded resource .acq (2 * population acquisitions .acq c.keys) limit)
      else .ok (layout c acquisitions) := by
  rw [allocate, foldlM_place c.distinct h]
  show (fits _ resource limit .awg >>= fun _ => fits _ resource limit .acq >>= fun _ => _) = _
  rw [fits, fits, slots_layout, slots_layout]
  split
  · rfl
  · split <;> rfl

theorem allocate_none (h : ∀ b, population acquisitions b c.keys ≤ Allocations.indexLimit)
    (resource : String) :
    allocate resource c acquisitions none = .ok (layout c acquisitions) := by
  rw [allocate, foldlM_place c.distinct h]
  rfl

/-- **When an allocation fails:** a capacity is given and a bank needs more. If both do, the first
one is named. -/
theorem allocate_eq_error_iff
    (hindexed : ∀ b, population acquisitions b c.keys ≤ Allocations.indexLimit)
    {resource : String} {capacity : Option Nat} {e : CompileError} :
    allocate resource c acquisitions capacity = .error e ↔
      ∃ limit b, capacity = some limit ∧ limit < 2 * population acquisitions b c.keys ∧
        (b = .acq → 2 * population acquisitions .awg c.keys ≤ limit) ∧
        e = .bankCapacityExceeded resource b (2 * population acquisitions b c.keys) limit := by
  constructor
  · intro h
    cases capacity with
    | none =>
      rw [allocate_none hindexed] at h
      cases h
    | some limit =>
      rw [allocate_some hindexed] at h
      split at h
      · next hawg =>
        obtain rfl := Except.error.inj h
        exact ⟨limit, .awg, rfl, hawg, (fun hb => by cases hb), rfl⟩
      next hawg =>
      split at h
      · next hacq =>
        obtain rfl := Except.error.inj h
        exact ⟨limit, .acq, rfl, hacq, fun _ => Nat.not_lt.mp hawg, rfl⟩
      · cases h
  · rintro ⟨limit, b, rfl, hlimit, hfirst, rfl⟩
    rw [allocate_some hindexed]
    cases b with
    | awg => rw [if_pos hlimit]
    | acq => rw [if_neg (Nat.not_lt.mpr (hfirst rfl)), if_pos hlimit]

/-! ## Places -/

/-- **Where a content lies:** behind the contents of its own bank that the cache has seen before
it. -/
theorem find_layout_of_keys_eq {before after : List ContentKey} {key : ContentKey}
    (h : c.keys = before ++ key :: after) :
    ∃ w, c.get? key = some w ∧ (layout c acquisitions).find key = some (bankFor acquisitions key,
      ⟨population acquisitions (bankFor acquisitions key) before, w⟩) := by
  obtain ⟨first, rest, hentries, hfirst, hrest⟩ := List.map_eq_append_iff.mp h
  obtain ⟨entry, last, rfl, rfl, -⟩ := List.map_eq_cons_iff.mp hrest
  have hcached : c.get? entry.1 = some entry.2 :=
    (c.mem_entries_iff entry.1 entry.2).mp (by simp [hentries])
  refine ⟨entry.2, hcached, find_layout_eq_some_iff.mpr ?_⟩
  rw [share, hentries, List.filter_append, List.filter_cons_of_pos (by simp), ← hfirst, population,
    List.countP_map, List.countP_eq_length_filter]
  exact (List.getElem?_append_right (Nat.le_refl _)).trans (by rw [Nat.sub_self]; rfl)

/-- What is found stands in its bank at its index. -/
theorem getElem?_of_find_layout {key : ContentKey} {b : Bank} {a : Allocation}
    (h : (layout c acquisitions).find key = some (b, a)) :
    ((layout c acquisitions).bank b).entries[a.index]? = some (key, a) := by
  rw [entries_layout, getElem?_number, find_layout_eq_some_iff.mp h]
  rfl

/-- The contents of a bank are at its indices, in order. -/
theorem filterMap_lookup_layout (c : Cache) (acquisitions : List ContentKey) (b : Bank) :
    (c.keys.filter fun key => bankFor acquisitions key = b).filterMap (layout c acquisitions).lookup
      = (List.range (population acquisitions b c.keys)).map (Slot.mk b) := by
  rw [← map_fst_share, List.filterMap_map, ← length_share]
  have hmap : (share c acquisitions b).map ((layout c acquisitions).lookup ∘ Prod.fst)
      = (List.range (share c acquisitions b).length).map (some ∘ Slot.mk b) := by
    refine List.ext_getElem (by simp) fun k hk _ => ?_
    rw [List.length_map] at hk
    simp only [List.getElem_map, List.getElem_range, Function.comp_apply]
    exact lookup_layout_eq_some_iff.mpr ⟨_, List.getElem?_eq_getElem hk⟩
  -- all of them are found, so none is left out
  rw [← Function.id_comp (_ ∘ Prod.fst), ← List.filterMap_map, hmap, List.filterMap_map,
    Function.id_comp, List.filterMap_eq_map]

/-- **The slots in use are an initial segment, each used once.** -/
theorem paths_layout (c : Cache) (acquisitions : List ContentKey) (b : Bank) :
    ((c.keys.filter fun key => bankFor acquisitions key = b).filterMap
      (layout c acquisitions).lookup).flatMap (fun slot => [slot.pathI, slot.pathQ])
      = List.range (2 * population acquisitions b c.keys) := by
  rw [filterMap_lookup_layout, List.flatMap_map, ← flatMap_range_pair]
  rfl

/-! ## Exactness -/

/-- A memory as it is told by a cache and the acquired contents. -/
structure IsExact (m : Memory) (c : Cache) (acquisitions : List ContentKey) : Prop where
  /-- What is in the cache has a place, and nothing else. -/
  isSome_find_iff : ∀ key, (m.find key).isSome = true ↔ key ∈ c.keys
  /-- The bank is told by the acquired contents, the index by what comes before in the cache, and
  the waveform is that of the cache. -/
  find_eq : ∀ before key after, c.keys = before ++ key :: after →
    ∃ w, c.get? key = some w ∧ m.find key = some (bankFor acquisitions key,
      ⟨population acquisitions (bankFor acquisitions key) before, w⟩)
  /-- The waveforms of a bank stand at their indices. -/
  getElem?_eq : ∀ key b a, m.find key = some (b, a) → (m.bank b).entries[a.index]? = some (key, a)
  /-- The slots of all contents of a bank, one content after the other, are numbered from zero
  without a gap. -/
  paths : ∀ b, ((c.keys.filter fun key => bankFor acquisitions key = b).filterMap m.lookup).flatMap
    (fun slot => [slot.pathI, slot.pathQ]) = List.range (2 * population acquisitions b c.keys)
  /-- Slots are words of 32 bits. -/
  pathQ_lt : ∀ key slot, m.lookup key = some slot → slot.pathQ < 4294967296

theorem isSome_find_layout_iff {key : ContentKey} :
    ((layout c acquisitions).find key).isSome = true ↔ key ∈ c.keys := by
  rw [find_layout, Option.isSome_map, ← OrderedMap.mem_keys_iff, mem_bank_layout_iff]
  exact and_iff_left rfl

/-- Both slots of a content are among those in use. -/
theorem pathQ_lt_of_lookup_layout {key : ContentKey} {slot : Slot}
    (h : (layout c acquisitions).lookup key = some slot) :
    slot.pathQ < 2 * population acquisitions slot.bank c.keys := by
  obtain ⟨w, hw⟩ := lookup_layout_eq_some_iff.mp h
  have hindex := (List.getElem?_eq_some_iff.mp hw).1
  rw [length_share] at hindex
  rw [Slot.pathQ]
  omega

/-- **Allocation is exact.** It fails if and only if a capacity is given that a bank exceeds, and
then it names the first such bank with the slots it needs. If it succeeds, the contents of the cache
have a place and no others do: in the bank for acquisitions exactly if they are acquired, behind the
contents of the same bank that the cache has seen before, and with the waveform of the cache. No
slot is used twice or left out. -/
theorem allocate_exact (hsize : ∀ b, population acquisitions b c.keys < 2147483648)
    (resource : String) (capacity : Option Nat) :
    (∀ e, allocate resource c acquisitions capacity = .error e ↔
      ∃ limit b, capacity = some limit ∧ limit < 2 * population acquisitions b c.keys ∧
        (b = .acq → 2 * population acquisitions .awg c.keys ≤ limit) ∧
        e = .bankCapacityExceeded resource b (2 * population acquisitions b c.keys) limit) ∧
    ∀ m, allocate resource c acquisitions capacity = .ok m → m.IsExact c acquisitions := by
  have hindexed : ∀ b, population acquisitions b c.keys ≤ Allocations.indexLimit := by
    intro b
    have hb := hsize b
    rw [Allocations.indexLimit]
    omega
  refine ⟨fun e => allocate_eq_error_iff hindexed, fun m hm => ?_⟩
  obtain ⟨rfl, -⟩ := allocate_eq_ok hm
  exact {
    isSome_find_iff := fun key => isSome_find_layout_iff
    find_eq := fun before key after h => find_layout_of_keys_eq h
    getElem?_eq := fun key b a h => getElem?_of_find_layout h
    paths := paths_layout c acquisitions
    pathQ_lt := fun key slot h => by
      have hpath := pathQ_lt_of_lookup_layout h
      have hbank := hsize slot.bank
      omega }

/-- Four contents, of which the second is acquired. -/
def interleaved : Cache :=
  .ofList [(⟨"a"⟩, .real []), (⟨"r"⟩, .real []), (⟨"b"⟩, .real []), (⟨"c"⟩, .real [])]

theorem allocate_exact_interleaved :
    (∀ b, population [⟨"r"⟩] b interleaved.keys < 2147483648) ∧
    allocate "q0" interleaved [⟨"r"⟩] (some 4) = .error (.bankCapacityExceeded "q0" .awg 6 4) ∧
    ∃ m, allocate "q0" interleaved [⟨"r"⟩] (some 6) = .ok m ∧ m.lookup ⟨"b"⟩ = some ⟨.awg, 1⟩ ∧
      m.lookup ⟨"r"⟩ = some ⟨.acq, 0⟩ ∧ m.IsExact interleaved [⟨"r"⟩] := by
  have hsize : ∀ b, population [⟨"r"⟩] b interleaved.keys < 2147483648 := by
    intro b
    cases b <;> decide
  refine ⟨hsize, ?_, _, rfl, by decide, by decide, (allocate_exact hsize "q0" (some 6)).2 _ rfl⟩
  exact ((allocate_exact hsize "q0" (some 4)).1 _).mpr
    ⟨4, .awg, rfl, by decide, (fun hb => by cases hb), rfl⟩

end Memory

end Sequencer
