import Mathlib.Data.List.Induction
import Mathlib.Data.List.Nodup
import Sequencer.Memory.Bank
import Sequencer.Proofs.Success

/-!
# How waveforms are numbered

The memory of a resource is filled in one pass over its cache. Each waveform goes to one of two
banks and takes the index that is next there, so two counters run side by side and either may stop
at any time. What the pass leaves behind can be told without it: each bank has its share of the
cache, in the order of the cache, numbered from zero.

The invariant is that statement about the part of the cache that has been placed already. One more
waveform extends its own bank by an index that has not been used, and leaves the other bank alone.
The index is the number of waveforms before it in the bank, which is where the distinct keys of the
cache come in: were a content placed twice, the second one would find the first and take no index.

## Main definitions

* `number`, `Allocations.ofEntries` — waveforms numbered in order
* `Memory.share`, `Memory.population` — the waveforms of a cache that belong to a bank, and how many
* `Memory.layout` — the memory of a cache as a closed form

## Main results

* `Memory.place_layout` — what placing one more waveform does, and when it fails
* `Memory.foldlM_place` — the pass over a cache is its layout, unless a bank runs out of indices
* `Memory.allocate_eq_ok` — an allocation is the layout of its cache
* `Memory.lookup_layout_eq_some_iff` — where a content lies
-/

namespace Sequencer

/-! ## Numbered waveforms -/

/-- Waveforms with the indices that they have if they are numbered in order. -/
def number (entries : List (ContentKey × Waveform Float)) : List (ContentKey × Allocation) :=
  entries.zipIdx.map fun x => (x.1.1, ⟨x.2, x.1.2⟩)

section Number

variable (entries : List (ContentKey × Waveform Float))

theorem number_concat (entry : ContentKey × Waveform Float) :
    number (entries ++ [entry]) = number entries ++ [(entry.1, ⟨entries.length, entry.2⟩)] := by
  simp [number, List.zipIdx_append]

@[simp] theorem length_number : (number entries).length = entries.length := by
  simp [number]

theorem getElem?_number (k : Nat) :
    (number entries)[k]? = entries[k]?.map fun entry => (entry.1, ⟨k, entry.2⟩) := by
  simp [number, List.getElem?_zipIdx, Option.map_map, Function.comp_def]

/-- What is numbered keeps its index when more follows. -/
theorem number_isPrefix {entries longer : List (ContentKey × Waveform Float)}
    (h : entries <+: longer) : number entries <+: number longer := by
  obtain ⟨rest, rfl⟩ := h
  rw [number, number, List.zipIdx_append, List.map_append]
  exact List.prefix_append _ _

theorem map_fst_number : (number entries).map Prod.fst = entries.map Prod.fst := by
  refine List.ext_getElem? fun k => ?_
  rw [List.getElem?_map, List.getElem?_map, getElem?_number, Option.map_map]
  rfl

theorem mem_number_iff {key : ContentKey} {a : Allocation} :
    (key, a) ∈ number entries ↔ entries[a.index]? = some (key, a.waveform) := by
  rw [List.mem_iff_getElem?]
  constructor
  · rintro ⟨k, hk⟩
    rw [getElem?_number, Option.map_eq_some_iff] at hk
    obtain ⟨entry, hentry, hk⟩ := hk
    obtain ⟨rfl, rfl⟩ := Prod.mk.inj hk
    exact hentry
  · intro h
    exact ⟨a.index, by rw [getElem?_number, h]; rfl⟩

/-- Indices are numbered from zero without a gap. -/
theorem map_index_number :
    (number entries).map (fun x => x.2.index) = List.range entries.length := by
  refine List.ext_getElem (by simp) fun k hk _ => ?_
  rw [List.length_map, length_number] at hk
  have hnumber := getElem?_number entries k
  rw [List.getElem?_eq_getElem hk, List.getElem?_eq_getElem (by simpa using hk)] at hnumber
  rw [List.getElem_map, List.getElem_range, Option.some.inj hnumber]

end Number

/-- Two slots for each of `n` indices are the first `2 n` slots. -/
theorem flatMap_range_pair (n : Nat) :
    (List.range n).flatMap (fun k => [2 * k, 2 * k + 1]) = List.range (2 * n) := by
  induction n with
  | zero => rfl
  | succ n ih =>
    rw [List.range_succ, List.flatMap_append, ih, Nat.mul_succ, List.range_succ, List.range_succ,
      List.append_assoc]
    rfl

namespace Allocations

/-- A bank with some waveforms, numbered in order. -/
def ofEntries (entries : List (ContentKey × Waveform Float))
    (h : (entries.map Prod.fst).Nodup) : Allocations where
  entries := number entries
  distinct := by rwa [map_fst_number]

/-- A new content takes the next index, if there is one. -/
theorem place_of_none {a : Allocations} {key : ContentKey} (h : a.get? key = none)
    (waveform : Waveform Float) :
    a.place key waveform = if a.size < indexLimit then .ok (a.size, a.insert key ⟨a.size, waveform⟩)
      else .error .unindexed := by
  rw [place, h]

end Allocations

/-! ## The layout of a cache -/

namespace Memory

theorem ext_bank {m n : Memory} (h : ∀ b, m.bank b = n.bank b) : m = n := by
  have hawg : m.awg = n.awg := h .awg
  have hacq : m.acq = n.acq := h .acq
  cases m
  cases n
  simp_all

theorem bank_set (m : Memory) (b other : Bank) (a : Allocations) :
    (m.set b a).bank other = if other = b then a else m.bank other := by
  cases b <;> cases other <;> rfl

/-- The waveforms of a cache that belong to a bank. -/
def share (c : Cache) (acquisitions : List ContentKey) (b : Bank) :
    List (ContentKey × Waveform Float) :=
  c.entries.filter fun entry => bankFor acquisitions entry.1 = b

/-- How many of some contents belong to a bank. -/
def population (acquisitions : List ContentKey) (b : Bank) (keys : List ContentKey) : Nat :=
  keys.countP fun key => bankFor acquisitions key = b

variable {c : Cache} {acquisitions : List ContentKey} {m : Memory} {key : ContentKey}

theorem share_sublist (c : Cache) (acquisitions : List ContentKey) (b : Bank) :
    (share c acquisitions b).Sublist c.entries :=
  List.filter_sublist

theorem nodup_share (c : Cache) (acquisitions : List ContentKey) (b : Bank) :
    ((share c acquisitions b).map Prod.fst).Nodup :=
  c.distinct.sublist ((share_sublist c acquisitions b).map Prod.fst)

theorem map_fst_share (c : Cache) (acquisitions : List ContentKey) (b : Bank) :
    (share c acquisitions b).map Prod.fst
      = c.keys.filter fun key => bankFor acquisitions key = b := by
  rw [share, OrderedMap.keys, List.filter_map]
  rfl

theorem length_share (c : Cache) (acquisitions : List ContentKey) (b : Bank) :
    (share c acquisitions b).length = population acquisitions b c.keys := by
  rw [population, List.countP_eq_length_filter, ← map_fst_share, List.length_map]

/-- The memory of a cache: the share of each bank, numbered in order. -/
def layout (c : Cache) (acquisitions : List ContentKey) : Memory where
  awg := .ofEntries (share c acquisitions .awg) (nodup_share c acquisitions .awg)
  acq := .ofEntries (share c acquisitions .acq) (nodup_share c acquisitions .acq)

theorem entries_layout (c : Cache) (acquisitions : List ContentKey) (b : Bank) :
    ((layout c acquisitions).bank b).entries = number (share c acquisitions b) := by
  cases b <;> rfl

theorem size_layout (c : Cache) (acquisitions : List ContentKey) (b : Bank) :
    ((layout c acquisitions).bank b).size = population acquisitions b c.keys := by
  rw [OrderedMap.size, entries_layout, length_number, length_share]

theorem keys_layout (c : Cache) (acquisitions : List ContentKey) (b : Bank) :
    ((layout c acquisitions).bank b).keys
      = c.keys.filter fun key => bankFor acquisitions key = b := by
  rw [OrderedMap.keys, entries_layout, map_fst_number, map_fst_share]

theorem slots_layout (c : Cache) (acquisitions : List ContentKey) (b : Bank) :
    (layout c acquisitions).slots b = 2 * population acquisitions b c.keys := by
  rw [slots, Allocations.slots, size_layout]

/-! ## The pass over a cache -/

section Pass

variable {done : List (ContentKey × Waveform Float)} {entry : ContentKey × Waveform Float}

/-- A content that has not been placed is in no bank. -/
theorem get?_layout_of_not_mem (hdone : (done.map Prod.fst).Nodup) (b : Bank)
    (h : key ∉ done.map Prod.fst) :
    ((layout ⟨done, hdone⟩ acquisitions).bank b).get? key = none := by
  have hnew : key ∉ ((layout ⟨done, hdone⟩ acquisitions).bank b).keys := by
    rw [keys_layout]
    exact fun hmem => h (List.mem_filter.mp hmem).1
  rwa [OrderedMap.mem_keys_iff, Bool.not_eq_true, Option.isSome_eq_false_iff,
    Option.isNone_iff_eq_none] at hnew

/-- The layout with one more waveform, bank by bank. -/
theorem set_layout (hdone : (done.map Prod.fst).Nodup)
    (h : ((done ++ [entry]).map Prod.fst).Nodup) (hnew : entry.1 ∉ done.map Prod.fst) :
    (layout ⟨done, hdone⟩ acquisitions).set (bankFor acquisitions entry.1)
        (((layout ⟨done, hdone⟩ acquisitions).bank (bankFor acquisitions entry.1)).insert entry.1
          ⟨population acquisitions (bankFor acquisitions entry.1) (done.map Prod.fst), entry.2⟩)
      = layout ⟨done ++ [entry], h⟩ acquisitions := by
  refine ext_bank fun b => OrderedMap.ext_entries ?_
  rw [bank_set]
  split
  · next hb =>
    subst hb
    have hkeys : entry.1 ∉ ((layout ⟨done, hdone⟩ acquisitions).bank
        (bankFor acquisitions entry.1)).entries.map Prod.fst := by
      rw [entries_layout, map_fst_number, map_fst_share]
      exact fun hmem => hnew (List.mem_filter.mp hmem).1
    have hlength : (share ⟨done, hdone⟩ acquisitions (bankFor acquisitions entry.1)).length
        = population acquisitions (bankFor acquisitions entry.1) (done.map Prod.fst) :=
      length_share _ _ _
    refine (insertEntry_of_not_mem hkeys _).trans ?_
    rw [entries_layout, entries_layout, ← hlength, ← number_concat]
    congr 1
    simp [share]
  · next hb =>
    rw [entries_layout, entries_layout]
    congr 1
    simp [share, Ne.symm hb]

/-- **What placing one more waveform does.** The waveforms before it are laid out. It takes the next
index of its bank, and the other bank stays as it is. It fails only if the bank has no index
left. -/
theorem place_layout (hdone : (done.map Prod.fst).Nodup)
    (h : ((done ++ [entry]).map Prod.fst).Nodup) :
    place acquisitions (layout ⟨done, hdone⟩ acquisitions) entry =
      if population acquisitions (bankFor acquisitions entry.1) (done.map Prod.fst)
          < Allocations.indexLimit then
        .ok (layout ⟨done ++ [entry], h⟩ acquisitions)
      else .error .unindexed := by
  have hnew : entry.1 ∉ done.map Prod.fst := by
    rw [List.map_append, List.nodup_append] at h
    exact fun hmem => h.2.2 _ hmem entry.1 (by simp) rfl
  rw [place, Allocations.place_of_none (get?_layout_of_not_mem hdone _ hnew), size_layout]
  show ((if population acquisitions (bankFor acquisitions entry.1) (done.map Prod.fst)
    < Allocations.indexLimit then _ else _) >>= _) = _
  split
  · exact congrArg Except.ok (set_layout hdone h hnew)
  · rfl

theorem population_concat (b : Bank) (keys : List ContentKey) (key : ContentKey) :
    population acquisitions b (keys ++ [key])
      = population acquisitions b keys + if bankFor acquisitions key = b then 1 else 0 := by
  simp [population, List.countP_append, List.countP_cons]

/-- **The pass over a cache is its layout**, if there are indices for all waveforms. The induction
is on what has been placed. -/
theorem foldlM_place {entries : List (ContentKey × Waveform Float)}
    (hdistinct : (entries.map Prod.fst).Nodup)
    (h : ∀ b, population acquisitions b (entries.map Prod.fst) ≤ Allocations.indexLimit) :
    entries.foldlM (place acquisitions) empty = .ok (layout ⟨entries, hdistinct⟩ acquisitions) := by
  induction entries using List.reverseRecOn with
  | nil => rfl
  | append_singleton done entry ih =>
    have hdone : (done.map Prod.fst).Nodup := hdistinct.sublist (by simp)
    simp only [List.map_append, List.map_cons, List.map_nil, population_concat] at h
    have hroom := h (bankFor acquisitions entry.1)
    rw [if_pos rfl] at hroom
    have hrest := ih hdone fun b => Nat.le_trans (Nat.le_add_right _ _) (h b)
    rw [foldlM_concat hrest, place_layout hdone hdistinct]
    exact if_pos hroom

/-- If a bank has more waveforms than there are indices, the pass over the cache stops. -/
theorem foldlM_place_of_lt {entries : List (ContentKey × Waveform Float)}
    (hdistinct : (entries.map Prod.fst).Nodup) {b : Bank}
    (h : Allocations.indexLimit < population acquisitions b (entries.map Prod.fst)) :
    entries.foldlM (place acquisitions) empty = .error .unindexed := by
  induction entries using List.reverseRecOn generalizing b with
  | nil => cases h
  | append_singleton done entry ih =>
    have hdone : (done.map Prod.fst).Nodup := hdistinct.sublist (by simp)
    by_cases hfull : ∃ b, Allocations.indexLimit < population acquisitions b (done.map Prod.fst)
    · obtain ⟨other, hother⟩ := hfull
      rw [List.foldlM_append, ih hdone hother]
      rfl
    · simp only [not_exists, Nat.not_lt] at hfull
      rw [foldlM_concat (foldlM_place hdone hfull), place_layout hdone hdistinct]
      -- only the bank of the last waveform has grown, so it is the one with too many
      rw [List.map_append, List.map_singleton, population_concat] at h
      have hb := hfull b
      split at h
      · next hbank =>
        rw [hbank]
        exact if_neg (by omega)
      · omega

end Pass

/-! ## Allocations -/

theorem fits_eq_ok {resource : String} {capacity : Nat} {b : Bank}
    (h : m.fits resource capacity b = .ok ()) : m.slots b ≤ capacity := by
  rw [fits] at h
  split at h
  · cases h
  · omega

/-- An allocation is the layout of its cache, and fits where it has to. -/
theorem allocate_eq_ok {resource : String} {capacity : Option Nat}
    (h : allocate resource c acquisitions capacity = .ok m) :
    m = layout c acquisitions ∧ ∀ n, capacity = some n → ∀ b, m.slots b ≤ n := by
  obtain ⟨placed, hplaced, h⟩ := bind_eq_ok.mp h
  have hlayout : placed = layout c acquisitions := by
    by_cases hfull : ∃ b, Allocations.indexLimit < population acquisitions b c.keys
    · obtain ⟨b, hb⟩ := hfull
      rw [foldlM_place_of_lt c.distinct hb] at hplaced
      cases hplaced
    · simp only [not_exists, Nat.not_lt] at hfull
      rw [foldlM_place c.distinct hfull] at hplaced
      exact (Except.ok.inj hplaced).symm
  cases capacity with
  | none =>
    obtain rfl := pure_eq_ok.mp h
    exact ⟨hlayout, fun n hn => by cases hn⟩
  | some capacity =>
    obtain ⟨_, hawg, h⟩ := bind_eq_ok.mp h
    obtain ⟨_, hacq, h⟩ := bind_eq_ok.mp h
    obtain rfl := pure_eq_ok.mp h
    refine ⟨hlayout, fun n hn b => ?_⟩
    obtain rfl := Option.some.inj hn
    cases b with
    | awg => exact fits_eq_ok hawg
    | acq => exact fits_eq_ok hacq

/-! ## Places -/

/-- What is found in a bank is what stands at its index in the share of the bank. -/
theorem get?_layout_eq_some_iff {b : Bank} {a : Allocation} :
    ((layout c acquisitions).bank b).get? key = some a ↔
      (share c acquisitions b)[a.index]? = some (key, a.waveform) := by
  rw [← OrderedMap.mem_entries_iff, entries_layout, mem_number_iff]

/-- The contents of a bank. -/
theorem mem_bank_layout_iff {b : Bank} :
    key ∈ ((layout c acquisitions).bank b).keys ↔ key ∈ c.keys ∧ bankFor acquisitions key = b := by
  rw [keys_layout, List.mem_filter, decide_eq_true_eq]

theorem of_getElem?_share {b : Bank} {k : Nat} {w : Waveform Float}
    (h : (share c acquisitions b)[k]? = some (key, w)) :
    c.get? key = some w ∧ bankFor acquisitions key = b := by
  obtain ⟨hmem, hbank⟩ := List.mem_filter.mp (List.mem_of_getElem? h)
  exact ⟨(c.mem_entries_iff key w).mp hmem, of_decide_eq_true hbank⟩

theorem get?_layout_of_ne {b : Bank} (h : bankFor acquisitions key ≠ b) :
    ((layout c acquisitions).bank b).get? key = none := by
  rw [Option.eq_none_iff_forall_ne_some]
  exact fun a ha => h (of_getElem?_share (get?_layout_eq_some_iff.mp ha)).2

/-- A content is looked for in its own bank: the other one does not have it. -/
theorem find_layout (c : Cache) (acquisitions : List ContentKey) (key : ContentKey) :
    (layout c acquisitions).find key
      = (((layout c acquisitions).bank (bankFor acquisitions key)).get? key).map
          (Prod.mk (bankFor acquisitions key)) := by
  cases hbank : bankFor acquisitions key with
  | awg =>
    have hacq : (layout c acquisitions).acq.get? key = none :=
      get?_layout_of_ne (b := .acq) (by simp [hbank])
    rw [find, hacq]
    rfl
  | acq =>
    have hawg : (layout c acquisitions).awg.get? key = none :=
      get?_layout_of_ne (b := .awg) (by simp [hbank])
    rw [find, hawg]
    show _ = ((layout c acquisitions).acq.get? key).map _
    cases (layout c acquisitions).acq.get? key <;> rfl

/-- **Where a content is found:** in the bank that it belongs to, with its place there as its index
and with the waveform of the cache. -/
theorem find_layout_eq_some_iff {b : Bank} {a : Allocation} :
    (layout c acquisitions).find key = some (b, a) ↔
      (share c acquisitions b)[a.index]? = some (key, a.waveform) := by
  rw [find_layout, Option.map_eq_some_iff]
  constructor
  · rintro ⟨a', ha, hpair⟩
    obtain ⟨rfl, rfl⟩ := Prod.mk.inj hpair
    exact get?_layout_eq_some_iff.mp ha
  · intro h
    obtain rfl := (of_getElem?_share h).2
    exact ⟨a, get?_layout_eq_some_iff.mpr h, rfl⟩

/-- The place of a content: its bank, and where it stands in the share of the bank. -/
theorem lookup_layout_eq_some_iff {slot : Slot} :
    (layout c acquisitions).lookup key = some slot ↔
      ∃ w, (share c acquisitions slot.bank)[slot.index]? = some (key, w) := by
  rw [lookup, Option.map_eq_some_iff]
  constructor
  · rintro ⟨found, hfound, rfl⟩
    exact ⟨found.2.waveform, find_layout_eq_some_iff.mp hfound⟩
  · rintro ⟨w, hw⟩
    exact ⟨(slot.bank, ⟨slot.index, w⟩), find_layout_eq_some_iff.mpr hw, rfl⟩

/-- Every content of a cache has a place, in the bank of the content. -/
theorem exists_lookup_layout (h : key ∈ c.keys) :
    ∃ k, (layout c acquisitions).lookup key = some ⟨bankFor acquisitions key, k⟩ := by
  have hmem : key ∈ ((layout c acquisitions).bank (bankFor acquisitions key)).keys :=
    mem_bank_layout_iff.mpr ⟨h, rfl⟩
  obtain ⟨a, ha⟩ := Option.isSome_iff_exists.mp ((OrderedMap.mem_keys_iff _ _).mp hmem)
  exact ⟨a.index, by rw [lookup, find_layout, ha]; rfl⟩

/-- No two contents have the same place. -/
theorem eq_of_lookup_layout_eq {other : ContentKey} {slot : Slot}
    (h : (layout c acquisitions).lookup key = some slot)
    (hother : (layout c acquisitions).lookup other = some slot) : key = other := by
  obtain ⟨w, hw⟩ := lookup_layout_eq_some_iff.mp h
  obtain ⟨w', hw'⟩ := lookup_layout_eq_some_iff.mp hother
  rw [hw, Option.some.injEq, Prod.mk.injEq] at hw'
  exact hw'.1

/-- Every waveform of a cache is in one bank, and in one only. -/
theorem size_add_size_layout (c : Cache) (acquisitions : List ContentKey) :
    (layout c acquisitions).awg.size + (layout c acquisitions).acq.size = c.keys.length := by
  have hawg : (layout c acquisitions).awg.size = population acquisitions .awg c.keys :=
    size_layout c acquisitions .awg
  have hacq : (layout c acquisitions).acq.size = population acquisitions .acq c.keys :=
    size_layout c acquisitions .acq
  have hnot : population acquisitions .acq c.keys
      = c.keys.countP fun key => decide ¬ decide (bankFor acquisitions key = .awg) = true := by
    refine List.countP_congr fun key _ => ?_
    cases bankFor acquisitions key <;> decide
  rw [hawg, hacq, hnot, population]
  exact (List.length_eq_countP_add_countP _).symm

end Memory

end Sequencer
