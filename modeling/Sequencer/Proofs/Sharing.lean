import Mathlib.Data.List.Induction
import Sequencer.Proofs.Layout

/-!
# Each content is sampled and stored once

Waveform memory is small, so a resource keeps one waveform per content and its entries share it.
Sharing is exact: entries share a waveform if their pulses have the same content, and only then.
Sharing too much would play the wrong waveform, sharing too little would run out of slots, and
neither is an error that anything else would notice.

The chain from a content to its place is long: normalization, text, digest, cache, layout. `Layout`
and `Content` follow it to the end and back. What is left here is to count. The cache of a resource
has one waveform per content because its keys are distinct, and a layout loses none of them. How
often the library is asked is a property of the whole loop over all resources. The samplers note
each question where they ask it, and the invariant is about all their notes together: there is one
pulse of each content that has a waveform function. That the notes are neither too long nor too
short shows in the result, which is the same with another library exactly if that library gives the
same answers to the noted questions.

## Main definitions

* `Represents` — one pulse of each content
* `Schedule.ContentsApart` — what keeps the contents of a schedule apart
* `Compilation.Asks` — questions about one pulse of each content that needs the library
* `CompiledResource.SharesExactly` — entries share a place exactly if they share a content
* `CompiledSchedule.Consults` — what was asked of the library, and what depends on its answers

## Main results

* `Compilation.Asks.add`, `Compilation.asks_asked` — the questions of one placement, and of all of
  them
* `Schedule.compile_iff_agree` — the result depends on the library exactly at the questions asked
* `Schedule.waveforms_shared` — each content is stored once, and sampled once if it has a function
* `Schedule.silence_not_sampled` — a silent content is stored and not sampled
-/

namespace Sequencer

/-! ## One pulse per content -/

/-- One pulse of each content that occurs among some pulses. -/
structure Represents (chosen pulses : List (Pulse Float)) : Prop where
  subset : chosen ⊆ pulses
  /-- No content is left out. -/
  complete : ∀ p ∈ pulses, ∃ q ∈ chosen, q.SameContent p
  /-- No content is there twice. -/
  once : chosen.Pairwise fun p q => ¬ p.SameContent q

/-- Of a list, elements can be chosen that have each value of a function once, where it first
occurs. -/
theorem exists_sublist_map_eq_eraseDups {α κ : Type} [DecidableEq κ] (f : α → κ) (xs : List α) :
    ∃ chosen : List α, chosen.Sublist xs ∧ chosen.map f = (xs.map f).eraseDups := by
  induction xs using List.reverseRecOn with
  | nil => exact ⟨[], .slnil, rfl⟩
  | append_singleton xs x ih =>
    obtain ⟨chosen, hsub, hmap⟩ := ih
    rw [List.map_append, List.map_singleton, eraseDups_concat]
    by_cases hx : f x ∈ xs.map f
    · exact ⟨chosen, hsub.trans (List.sublist_append_left _ _), by rw [if_pos hx, hmap]⟩
    · refine ⟨chosen ++ [x], hsub.append_right [x], ?_⟩
      rw [if_neg hx, List.map_append, hmap, List.map_singleton]

namespace Schedule

/-- What keeps the contents of a schedule apart, beyond what this library decides. -/
structure ContentsApart (s : Schedule) : Prop where
  /-- Doubles are finite; others have no text of their own. -/
  finite : ∀ p ∈ s.pulses, ∀ x ∈ p.numbers, x.isFinite = true
  /-- Extra parameters do not take the names of fields. -/
  names : ∀ p ∈ s.pulses, p.NamesApart
  /-- Different doubles have different texts. -/
  printed : ∀ p ∈ s.pulses, ∀ q ∈ s.pulses, p.PrintApart q
  /-- Different texts have different digests. -/
  digests : s.CollisionFree

instance decidableContentsApart (s : Schedule) : Decidable s.ContentsApart :=
  decidable_of_iff
    ((∀ p ∈ s.pulses, ∀ x ∈ p.numbers, x.isFinite = true) ∧ (∀ p ∈ s.pulses, p.NamesApart) ∧
      (∀ p ∈ s.pulses, ∀ q ∈ s.pulses, p.PrintApart q) ∧ s.CollisionFree)
    ⟨fun ⟨finite, names, printed, digests⟩ => ⟨finite, names, printed, digests⟩,
      fun ⟨finite, names, printed, digests⟩ => ⟨finite, names, printed, digests⟩⟩

variable {s : Schedule} {library : WaveformLibrary Float} {settings : Settings}
  {compiled : CompiledSchedule}

/-- **Keys are equal exactly if contents are.** -/
theorem ContentsApart.contentKey_eq_iff (h : s.ContentsApart) {p q : Pulse Float}
    (hp : p ∈ s.pulses) (hq : q ∈ s.pulses) : p.contentKey = q.contentKey ↔ p.SameContent q := by
  have htext := Pulse.contentText_eq_iff (h.names p hp) (h.names q hq) (h.finite p hp)
    (h.finite q hq) (h.printed p hp q hq)
  rw [← htext]
  constructor
  · exact h.digests p hp q hq
  · intro heq
    rw [Pulse.contentKey, Pulse.contentKey, heq]

theorem ContentsApart.represents (h : s.ContentsApart) {chosen pulses : List (Pulse Float)}
    (hpulses : pulses ⊆ s.pulses) (hsub : chosen ⊆ pulses)
    (hnodup : (chosen.map Pulse.contentKey).Nodup)
    (hcomplete : ∀ p ∈ pulses, p.contentKey ∈ chosen.map Pulse.contentKey) :
    Represents chosen pulses := by
  refine ⟨hsub, fun p hp => ?_, ?_⟩
  · obtain ⟨q, hq, hkey⟩ := List.mem_map.mp (hcomplete p hp)
    exact ⟨q, hq, (h.contentKey_eq_iff (hpulses (hsub hq)) (hpulses hp)).mp hkey⟩
  · refine (List.pairwise_map.mp hnodup).imp_of_mem fun {p q} hp hq hne hsame => hne ?_
    exact (h.contentKey_eq_iff (hpulses (hsub hp)) (hpulses (hsub hq))).mpr hsame

/-- All pulses that are played on some resource. -/
def playedPulses (s : Schedule) (settings : Settings) : List (Pulse Float) :=
  s.resources.entries.flatMap fun (name, r) => (s.playedOn settings name r).map Prod.snd

end Schedule

/-! ## What the library is asked for -/

/-- If the value at a key grows by some elements, so does the list over all values, up to order. -/
theorem perm_flatMap_insertEntry {κ α β : Type} [DecidableEq κ] {f : α → List β}
    (entries : List (κ × α)) (key : κ) {value : α} {added : List β}
    (h : f value = ((entries.lookup key).map f).getD [] ++ added) :
    ((insertEntry entries key value).flatMap fun entry => f entry.2).Perm
      ((entries.flatMap fun entry => f entry.2) ++ added) := by
  induction entries with
  | nil =>
    rw [List.lookup_nil, Option.map_none, Option.getD_none, List.nil_append] at h
    simp [insertEntry, h]
  | cons entry rest ih =>
    rw [insertEntry]
    by_cases hkey : entry.1 = key
    · rw [List.lookup_cons, beq_iff_eq.mpr hkey.symm, Option.map_some, Option.getD_some] at h
      rw [if_pos hkey, List.flatMap_cons, List.flatMap_cons, h, List.append_assoc,
        List.append_assoc]
      exact List.perm_append_comm.append_left _
    · rw [List.lookup_cons, beq_false_of_ne (Ne.symm hkey)] at h
      rw [if_neg hkey, List.flatMap_cons, List.flatMap_cons, List.append_assoc]
      exact (ih h).append_left _

namespace Compilation

variable {rule : TuningRule} {library : WaveformLibrary Float} {c c' : Compilation}
  {placed : List Placement} {p : Placement}

/-- What a placement asks of the library: nothing if its content is known on its track. -/
def questions (c : Compilation) (p : Placement) : List Question :=
  if (c.track p.channel p.resource).cache.contains p.entry.key then []
  else p.pulse.questions p.resource.samplingRate

/-- **A placement adds its questions to those of its track**, and to those of no other. -/
theorem asked_add (h : c.add rule library p = .ok c') :
    c'.asked.Perm (c.asked ++ c.questions p) := by
  obtain ⟨t, ht, htracks, -⟩ := add_eq_ok h
  obtain ⟨w, hrequest, -, -⟩ := Track.add_eq_ok ht
  have hgrown : t.asked = (c.track p.channel p.resource).asked ++ c.questions p := by
    rw [questions, OrderedMap.contains]
    rcases Sampler.request_eq_ok hrequest with ⟨hfound, hsame⟩ | ⟨hnew, -, hsame⟩
    · rw [hsame, hfound]
      simp
    · rw [hsame, hnew]
      rfl
  have hbefore : (c.track p.channel p.resource).asked
      = ((c.tracks.get? p.channel).map fun t => t.asked).getD [] := by
    rw [track]
    cases c.tracks.get? p.channel <;> rfl
  rw [hbefore] at hgrown
  rw [asked, htracks]
  exact perm_flatMap_insertEntry (f := fun t : Track => t.asked) c.tracks.entries p.channel hgrown

/-- The cache of a track has the contents of the placements on it. -/
theorem mem_keys_track (h : placed.foldlM (add rule library) start = .ok c) (name : String)
    (r : Resource) (key : ContentKey) :
    key ∈ (c.track name r).cache.keys ↔ ∃ p ∈ placed, p.channel = name ∧ p.entry.key = key := by
  refine foldlM_induction (motive := fun done c =>
    ∀ r, key ∈ (c.track name r).cache.keys ↔ ∃ p ∈ done, p.channel = name ∧ p.entry.key = key)
    ?_ ?_ h r
  · intro r
    have hempty : (start.track name r).cache.keys = [] := rfl
    simp [hempty]
  · intro done p c c' ih hadd r
    rcases track_add hadd name r with ⟨hname, htrack⟩ | ⟨rfl, htrack⟩
    · rw [htrack, ih]
      simp [or_and_right, exists_or, Ne.symm hname]
    · obtain ⟨w, hrequest, -, -⟩ := Track.add_eq_ok htrack
      rw [Sampler.mem_keys_request hrequest, ih]
      simp only [List.mem_append, List.mem_singleton, or_and_right, exists_or, exists_eq_left,
        true_and, eq_comm (a := key)]

/-- The library has been asked about one pulse of each content that needs it. -/
structure Asks (placed : List Placement) (asked : List Question) : Prop where
  once : (asked.map fun q => q.pulse.contentKey).Nodup
  /-- Every question is one that a placement comes with. -/
  sound : ∀ q ∈ asked, ∃ p ∈ placed, q ∈ p.pulse.questions p.resource.samplingRate
  /-- It is asked about the content of every placed pulse with a function. -/
  complete : ∀ p ∈ placed, p.pulse.function.isSome = true →
    p.entry.key ∈ asked.map fun q => q.pulse.contentKey

/-- Keys stand for contents: an entry has the key of its pulse, and placements with one key are on
one resource and have one function. -/
def KeysStand (placed : List Placement) : Prop :=
  (∀ p ∈ placed, p.entry.key = p.pulse.contentKey) ∧
    ∀ p ∈ placed, ∀ q ∈ placed, p.entry.key = q.entry.key →
      p.channel = q.channel ∧ p.pulse.function = q.pulse.function

namespace Asks

variable {asked asked' : List Question}

theorem nil : Asks [] [] := ⟨List.nodup_nil, by simp, by simp⟩

/-- The order of the questions does not matter. -/
theorem perm (h : Asks placed asked) (hperm : asked'.Perm asked) : Asks placed asked' := by
  refine ⟨?_, fun q hq => h.sound q (hperm.mem_iff.mp hq), fun p hp hf => ?_⟩
  · exact (hperm.map _).nodup_iff.mpr h.once
  · exact (hperm.map _).mem_iff.mpr (h.complete p hp hf)

/-- A new content is asked about. -/
theorem ask (h : Asks placed asked) (hkey : p.entry.key = p.pulse.contentKey)
    (hnew : ∀ q ∈ placed, q.pulse.contentKey ≠ p.pulse.contentKey) :
    Asks (placed ++ [p]) (asked ++ p.pulse.questions p.resource.samplingRate) := by
  have hown : ∀ q ∈ p.pulse.questions p.resource.samplingRate, q.pulse = p.pulse :=
    fun q hq => Pulse.pulse_of_mem_questions hq
  refine ⟨?_, ?_, ?_⟩
  · rw [List.map_append, List.nodup_append]
    refine ⟨h.once, Pulse.nodup_map_questions _ _ _, ?_⟩
    rintro _ hmem _ hlast rfl
    obtain ⟨earlier, hearlier, hearlierkey⟩ := List.mem_map.mp hmem
    obtain ⟨last, hlast, hlastkey⟩ := List.mem_map.mp hlast
    obtain ⟨q, hq, hasked⟩ := h.sound earlier hearlier
    refine hnew q hq ?_
    rw [← Pulse.pulse_of_mem_questions hasked, ← hown last hlast, hearlierkey, hlastkey]
  · intro q hq
    rcases List.mem_append.mp hq with hq | hq
    · obtain ⟨p', hp', hasked⟩ := h.sound q hq
      exact ⟨p', List.mem_append_left _ hp', hasked⟩
    · exact ⟨p, List.mem_append_right _ List.mem_cons_self, hq⟩
  · intro q hq hf
    rw [List.map_append, List.mem_append]
    rcases List.mem_append.mp hq with hq | hq
    · exact Or.inl (h.complete q hq hf)
    · obtain rfl := List.mem_singleton.mp hq
      obtain ⟨function, hfunction⟩ := Option.isSome_iff_exists.mp hf
      refine Or.inr ?_
      rw [Pulse.questions_of_some hfunction, List.map_singleton, List.mem_singleton]
      exact hkey

/-- A content that is known is not asked about again. -/
theorem skip (h : Asks placed asked)
    (hknown : p.pulse.function.isSome = true →
      p.entry.key ∈ asked.map fun q => q.pulse.contentKey) : Asks (placed ++ [p]) asked := by
  refine ⟨h.once, ?_, ?_⟩
  · intro q hq
    obtain ⟨p', hp', hasked⟩ := h.sound q hq
    exact ⟨p', List.mem_append_left _ hp', hasked⟩
  · intro q hq hf
    rcases List.mem_append.mp hq with hq | hq
    · exact h.complete q hq hf
    · obtain rfl := List.mem_singleton.mp hq
      exact hknown hf

/-- **What one placement asks.** Each track has a cache of its own, and the questions are those of
all of them; no content is asked about twice because a content is played on one resource only. -/
theorem add (h : Asks placed c.asked)
    (hfold : placed.foldlM (Compilation.add rule library) start = .ok c)
    (hadd : c.add rule library p = .ok c') (hkeys : KeysStand (placed ++ [p])) :
    Asks (placed ++ [p]) c'.asked := by
  obtain ⟨hown, hsame⟩ := hkeys
  have hp : p ∈ placed ++ [p] := List.mem_append_right _ List.mem_cons_self
  -- a content is in the cache of its track exactly if some earlier placement has it
  have hseen : (c.track p.channel p.resource).cache.contains p.entry.key = true ↔
      ∃ q ∈ placed, q.entry.key = p.entry.key := by
    rw [OrderedMap.contains, ← OrderedMap.mem_keys_iff, mem_keys_track hfold]
    constructor
    · rintro ⟨q, hq, -, hqkey⟩
      exact ⟨q, hq, hqkey⟩
    · rintro ⟨q, hq, hqkey⟩
      exact ⟨q, hq, (hsame q (List.mem_append_left _ hq) p hp hqkey).1, hqkey⟩
  refine Asks.perm ?_ (asked_add hadd)
  rw [questions]
  by_cases hknown : (c.track p.channel p.resource).cache.contains p.entry.key = true
  · rw [if_pos hknown, List.append_nil]
    refine h.skip fun hf => ?_
    obtain ⟨first, hfirst, hkey⟩ := hseen.mp hknown
    rw [← hkey]
    refine h.complete first hfirst ?_
    rw [(hsame first (List.mem_append_left _ hfirst) p hp hkey).2]
    exact hf
  · rw [if_neg hknown]
    refine h.ask (hown p hp) fun q hq hqp => hknown (hseen.mpr ⟨q, hq, ?_⟩)
    rw [hown q (List.mem_append_left _ hq), hqp, hown p hp]

end Asks

/-- **The library is asked once about each content that needs it.** -/
theorem asks_asked (h : placed.foldlM (add rule library) start = .ok c) (hkeys : KeysStand placed) :
    Asks placed c.asked := by
  have hrun := foldlM_induction (motive := fun done c =>
    done.foldlM (add rule library) start = .ok c ∧ (KeysStand done → Asks done c.asked)) ?_ ?_ h
  · exact hrun.2 hkeys
  · exact ⟨rfl, fun _ => .nil⟩
  · rintro done p c c' ⟨hfold, ih⟩ hadd
    refine ⟨?_, fun hkeys => (ih ⟨fun q hq => ?_, fun q hq q' hq' => ?_⟩).add hfold hadd hkeys⟩
    · rw [foldlM_concat hfold, hadd]
    · exact hkeys.1 q (List.mem_append_left _ hq)
    · exact hkeys.2 q (List.mem_append_left _ hq) q' (List.mem_append_left _ hq')

end Compilation

/-! ## What the library answers -/

/-- A placement on a track depends on the library at the noted questions only. -/
theorem Track.add_of_agree {rule : TuningRule} {library library' : WaveformLibrary Float}
    {t t' : Track} {p : Placement} (h : t.add rule library p = .ok t')
    (hagree : ∀ q ∈ t'.asked, library'.answer q = library.answer q) :
    t.add rule library' p = .ok t' := by
  obtain ⟨w, hrequest, -, -⟩ := add_eq_ok h
  have hrequest' : (p.request library').run t.toSampler = .ok w t'.toSampler :=
    Sampler.request_of_agree hrequest hagree
  rw [add, hrequest']
  rw [add, hrequest] at h
  exact h

namespace Compilation

variable {rule : TuningRule} {library library' : WaveformLibrary Float} {c c' : Compilation}
  {placed : List Placement} {p : Placement}

theorem mem_asked_iff {q : Question} :
    q ∈ c.asked ↔ ∃ name t, c.tracks.get? name = some t ∧ q ∈ t.asked := by
  simp only [asked, List.mem_flatMap, Prod.exists, OrderedMap.mem_entries_iff]

/-- A placement depends on the library at the noted questions only. -/
theorem add_of_agree (h : c.add rule library p = .ok c')
    (hagree : ∀ q ∈ c'.asked, library'.answer q = library.answer q) :
    c.add rule library' p = .ok c' := by
  obtain ⟨t, ht, htracks, -⟩ := add_eq_ok h
  have hnoted : ∀ q ∈ t.asked, q ∈ c'.asked := fun q hq =>
    mem_asked_iff.mpr ⟨p.channel, t, by rw [htracks, OrderedMap.get?_insert, if_pos rfl], hq⟩
  rw [add, Track.add_of_agree ht fun q hq => hagree q (hnoted q hq), ← ht]
  exact h

/-- **The loop depends on the library at the noted questions only.** Notes are never taken back, so
libraries that agree at the end have agreed all along. -/
theorem foldlM_of_agree (h : placed.foldlM (add rule library) start = .ok c)
    (hagree : ∀ q ∈ c.asked, library'.answer q = library.answer q) :
    placed.foldlM (add rule library') start = .ok c := by
  refine foldlM_induction (motive := fun done c =>
    (∀ q ∈ c.asked, library'.answer q = library.answer q) →
      done.foldlM (add rule library') start = .ok c) (fun _ => rfl) ?_ h hagree
  intro done p c c' ih hadd hagree
  have hbefore : ∀ q ∈ c.asked, q ∈ c'.asked := fun q hq =>
    (asked_add hadd).mem_iff.mpr (List.mem_append_left _ hq)
  rw [foldlM_concat (ih fun q hq => hagree q (hbefore q hq))]
  exact add_of_agree hadd hagree

/-- **Every question of the loop is answered, and the answer is kept on its track.** -/
theorem answered_track (h : placed.foldlM (add rule library) start = .ok c)
    (hkeys : ∀ p ∈ placed, p.entry.key = p.pulse.contentKey) (name : String) (r : Resource) :
    (c.track name r).Answered library := by
  refine foldlM_induction (motive := fun done c =>
    (∀ p ∈ done, p.entry.key = p.pulse.contentKey) → ∀ r, (c.track name r).Answered library)
    ?_ ?_ h hkeys r
  · intro _ r q hq
    exact absurd hq List.not_mem_nil
  · intro done p c c' ih hadd hkeys r
    have hbefore := ih fun q hq => hkeys q (List.mem_append_left _ hq)
    rcases track_add hadd name r with ⟨-, htrack⟩ | ⟨rfl, htrack⟩
    · rw [htrack]
      exact hbefore r
    · obtain ⟨w, hrequest, -, -⟩ := Track.add_eq_ok htrack
      exact (hbefore p.resource).request hrequest
        (hkeys p (List.mem_append_right _ List.mem_cons_self))

end Compilation

/-! ## The compiled schedule -/

/-- The entries of a compiled resource share a place in memory exactly if their pulses have the same
content, and there are as many places as contents. -/
structure CompiledResource.SharesExactly (s : Schedule) (settings : Settings)
    (r : CompiledResource) : Prop where
  /-- Every entry has a place, and two have the same one exactly if their contents are the same. -/
  places : ∀ a ∈ s.playedOn settings r.name r.resource, ∀ b ∈ s.playedOn settings r.name r.resource,
    ∃ slot slot', r.memory.lookup a.1.key = some slot ∧ r.memory.lookup b.1.key = some slot' ∧
      (slot = slot' ↔ a.2.SameContent b.2)
  /-- Over both banks, there is one waveform for each content. -/
  stored : ∃ contents, Represents contents ((s.playedOn settings r.name r.resource).map Prod.snd) ∧
    r.memory.awg.size + r.memory.acq.size = contents.length

/-- What a compilation has asked of its library, and what it has made of the answers. -/
structure CompiledSchedule.Consults (s : Schedule) (library : WaveformLibrary Float)
    (settings : Settings) (compiled : CompiledSchedule) : Prop where
  /-- One pulse of each content that has a function is asked about, once. -/
  once : Represents (compiled.asked.map Question.pulse)
    ((s.playedPulses settings).filter fun p => p.function.isSome)
  /-- It is asked for its function, at the times of its samples. -/
  sound : ∀ q ∈ compiled.asked, ∃ p, .ok p ∈ s.placements settings ∧
    q ∈ p.pulse.questions p.resource.samplingRate
  /-- The library has answered, and the answer is the waveform of the content. -/
  answered : ∀ q ∈ compiled.asked, ∃ r ∈ compiled.resources, ∃ w, library.answer q = .ok w ∧
    r.cache.get? q.pulse.contentKey = some w
  /-- The same comes out with another library exactly if it gives the same answers. -/
  depends : ∀ library' : WaveformLibrary Float, s.compile library' settings = .ok compiled ↔
    ∀ q ∈ compiled.asked, library'.answer q = library.answer q

namespace Schedule

variable {s : Schedule} {library : WaveformLibrary Float} {settings : Settings}
  {compiled : CompiledSchedule}

section Placed

variable {placed : List Placement} (hplaced : s.placements settings = placed.map .ok)

include hplaced

theorem mem_playedPulses_iff (pulse : Pulse Float) :
    pulse ∈ s.playedPulses settings ↔ ∃ p ∈ placed, p.pulse = pulse := by
  simp only [playedPulses, List.mem_flatMap, List.mem_map, Prod.exists]
  constructor
  · rintro ⟨name, r, hr, e, _, hq, rfl⟩
    obtain ⟨p, hp, -, hq⟩ :=
      (mem_playedOn_iff hplaced ((s.resources.mem_entries_iff name r).mp hr) _).mp hq
    exact ⟨p, hp, (Prod.mk.inj hq).2⟩
  · rintro ⟨p, hp, rfl⟩
    have hr := resource_of_mem_placed hplaced hp
    exact ⟨p.channel, p.resource, (s.resources.mem_entries_iff _ _).mpr hr, p.entry, p.pulse,
      (mem_playedOn_iff hplaced hr _).mpr ⟨p, hp, rfl, rfl⟩, rfl⟩

theorem keysStand_placed (hfree : s.CollisionFree) : Compilation.KeysStand placed := by
  refine ⟨fun p hp => (pulse_of_mem_placed hplaced hp).2.1, fun p hp q hq hkey => ?_⟩
  obtain ⟨hchannel, -, hfunction⟩ := channel_eq_of_key_eq hplaced hfree hp hq hkey
  exact ⟨hchannel, hfunction⟩

end Placed

theorem sharesExactly_of_mem (hapart : s.ContentsApart)
    (h : s.compile library settings = .ok compiled) {r : CompiledResource}
    (hr : r ∈ compiled.resources) : r.SharesExactly s settings := by
  have hproj := isProjection_of_mem h hr
  refine ⟨fun a ha b hb => ?_, ?_⟩
  · obtain ⟨hamem, hakey⟩ := pulse_of_mem_playedOn h hr ha
    obtain ⟨hbmem, hbkey⟩ := pulse_of_mem_playedOn h hr hb
    obtain ⟨k, hslot⟩ := exists_slot h hr (mem_entries_of_mem_playedOn h hr ha)
    obtain ⟨k', hslot'⟩ := exists_slot h hr (mem_entries_of_mem_playedOn h hr hb)
    refine ⟨_, _, hslot, hslot', ?_⟩
    rw [← hapart.contentKey_eq_iff hamem hbmem, ← hakey, ← hbkey]
    constructor
    · intro heq
      rw [← heq] at hslot'
      rw [memory_eq_layout h hr] at hslot hslot'
      exact Memory.eq_of_lookup_layout_eq hslot hslot'
    · intro hkey
      exact Option.some.inj (hslot.symm.trans (hkey ▸ hslot'))
  · obtain ⟨contents, hsub, hmap⟩ := exists_sublist_map_eq_eraseDups Pulse.contentKey
      ((s.playedOn settings r.name r.resource).map Prod.snd)
    have hkeys : r.cache.keys = contents.map Pulse.contentKey := by
      rw [hproj.keys, hmap, List.map_map]
      congr 1
      exact List.map_congr_left fun q hq => (pulse_of_mem_playedOn h hr hq).2
    refine ⟨contents, hapart.represents ?_ hsub.subset ?_ ?_, ?_⟩
    · intro p hp
      obtain ⟨q, hq, rfl⟩ := List.mem_map.mp hp
      exact (pulse_of_mem_playedOn h hr hq).1
    · rw [← hkeys]
      exact r.cache.distinct
    · intro p hp
      rw [hmap, List.mem_eraseDups]
      exact List.mem_map.mpr ⟨p, hp, rfl⟩
    · rw [memory_eq_layout h hr, Memory.size_add_size_layout, hkeys, List.length_map]

/-- The library is asked about one pulse of each content with a function, among all resources, and
it is asked what the placement of that pulse comes with. -/
theorem represents_asked (hapart : s.ContentsApart)
    (h : s.compile library settings = .ok compiled) :
    Represents (compiled.asked.map Question.pulse)
        ((s.playedPulses settings).filter fun p => p.function.isSome) ∧
      ∀ q ∈ compiled.asked, ∃ p, .ok p ∈ s.placements settings ∧
        q ∈ p.pulse.questions p.resource.samplingRate := by
  obtain ⟨placed, c, hplaced, hfold, hfinish⟩ := compile_eq_ok h
  have hasks := Compilation.asks_asked hfold (keysStand_placed hplaced hapart.digests)
  rw [(Compilation.finish_eq_ok hfinish).2.2.2]
  refine ⟨hapart.represents ?_ ?_ ?_ ?_, fun q hq => ?_⟩
  · intro pulse hpulse
    obtain ⟨p, hp, rfl⟩ := (mem_playedPulses_iff hplaced pulse).mp (List.mem_filter.mp hpulse).1
    exact (pulse_of_mem_placed hplaced hp).1
  · intro pulse hpulse
    obtain ⟨q, hq, rfl⟩ := List.mem_map.mp hpulse
    obtain ⟨p, hp, hasked⟩ := hasks.sound q hq
    rw [Pulse.pulse_of_mem_questions hasked]
    exact List.mem_filter.mpr ⟨(mem_playedPulses_iff hplaced _).mpr ⟨p, hp, rfl⟩,
      Pulse.isSome_function_of_mem_questions hasked⟩
  · rw [List.map_map]
    exact hasks.once
  · intro pulse hpulse
    obtain ⟨hplayed, hfunction⟩ := List.mem_filter.mp hpulse
    obtain ⟨p, hp, rfl⟩ := (mem_playedPulses_iff hplaced pulse).mp hplayed
    rw [List.map_map, ← (pulse_of_mem_placed hplaced hp).2.1]
    exact hasks.complete p hp hfunction
  · obtain ⟨p, hp, hasked⟩ := hasks.sound q hq
    exact ⟨p, hplaced ▸ List.mem_map_of_mem hp, hasked⟩

/-- Every question is answered, and some resource keeps the answer. -/
theorem answered_asked (h : s.compile library settings = .ok compiled) {q : Question}
    (hq : q ∈ compiled.asked) :
    ∃ r ∈ compiled.resources, ∃ w, library.answer q = .ok w ∧
      r.cache.get? q.pulse.contentKey = some w := by
  obtain ⟨placed, c, hplaced, hfold, hfinish⟩ := compile_eq_ok h
  obtain ⟨hmap, -, -, hasked⟩ := Compilation.finish_eq_ok hfinish
  rw [hasked] at hq
  obtain ⟨name, t, ht, hq⟩ := Compilation.mem_asked_iff.mp hq
  obtain ⟨r, hr⟩ := exists_resource_of_track hplaced hfold ht
  have hanswered := Compilation.answered_track hfold
    (fun p hp => (pulse_of_mem_placed hplaced hp).2.1) name r
  rw [Compilation.track, ht, Option.getD_some] at hanswered
  obtain ⟨w, hw, hget⟩ := hanswered q hq
  obtain ⟨finished, hmem, hok⟩ := exists_of_mem_left hmap (Compilation.mem_used.mpr ⟨hr, ht⟩)
  obtain ⟨memory, -, rfl⟩ := Compilation.finishTrack_eq_ok hok
  exact ⟨_, hmem, w, hw, hget⟩

/-- Resources are told apart by their names. -/
theorem eq_of_name_eq (h : s.compile library settings = .ok compiled) {r r' : CompiledResource}
    (hr : r ∈ compiled.resources) (hr' : r' ∈ compiled.resources) (hname : r.name = r'.name) :
    r = r' := by
  obtain ⟨placed, c, -, -, hfinish⟩ := compile_eq_ok h
  obtain ⟨t, hresource, ht, hok⟩ := exists_track_of_mem hfinish hr
  obtain ⟨t', hresource', ht', hok'⟩ := exists_track_of_mem hfinish hr'
  rw [hname] at hresource ht hok
  rw [← Option.some.inj (hresource.symm.trans hresource'), ← Option.some.inj (ht.symm.trans ht'),
    hok] at hok'
  exact Except.ok.inj hok'

/-- A content is kept on one resource only. -/
theorem eq_of_mem_keys (hfree : s.CollisionFree) (h : s.compile library settings = .ok compiled)
    {r r' : CompiledResource} (hr : r ∈ compiled.resources) (hr' : r' ∈ compiled.resources)
    {key : ContentKey} (hkey : key ∈ r.cache.keys) (hkey' : key ∈ r'.cache.keys) : r = r' := by
  refine eq_of_name_eq h hr hr' ?_
  obtain ⟨placed, c, hplaced, hfold, hfinish⟩ := compile_eq_ok h
  have hplayed : ∀ r ∈ compiled.resources, key ∈ r.cache.keys →
      ∃ p ∈ placed, p.channel = r.name ∧ p.entry.key = key := by
    intro r hr hkey
    obtain ⟨t, -, ht, hok⟩ := exists_track_of_mem hfinish hr
    obtain ⟨memory, -, hfinished⟩ := Compilation.finishTrack_eq_ok hok
    refine (Compilation.mem_keys_track hfold r.name r.resource key).mp ?_
    rw [Compilation.track, ht, Option.getD_some]
    rwa [hfinished] at hkey
  obtain ⟨p, hp, hname, hpkey⟩ := hplayed r hr hkey
  obtain ⟨p', hp', hname', hpkey'⟩ := hplayed r' hr' hkey'
  rw [← hname, ← hname']
  exact (channel_eq_of_key_eq hplaced hfree hp hp' (hpkey.trans hpkey'.symm)).1

/-- **A compiled schedule depends on the library at the questions that were asked, and on each of
them.** -/
theorem compile_iff_agree (hfree : s.CollisionFree) (h : s.compile library settings = .ok compiled)
    (library' : WaveformLibrary Float) :
    s.compile library' settings = .ok compiled ↔
      ∀ q ∈ compiled.asked, library'.answer q = library.answer q := by
  constructor
  · intro h' q hq
    obtain ⟨r, hr, w, hw, hget⟩ := answered_asked h hq
    obtain ⟨r', hr', w', hw', hget'⟩ := answered_asked h' hq
    have hmem := (r.cache.mem_keys_iff _).mpr (Option.isSome_of_eq_some hget)
    have hmem' := (r'.cache.mem_keys_iff _).mpr (Option.isSome_of_eq_some hget')
    obtain rfl := eq_of_mem_keys hfree h hr hr' hmem hmem'
    rw [hw, hw', Option.some.inj (hget'.symm.trans hget)]
  · intro hagree
    obtain ⟨placed, c, hplaced, hfold, hfinish⟩ := compile_eq_ok h
    rw [(Compilation.finish_eq_ok hfinish).2.2.2] at hagree
    have hcollect : Compilation.start.collect Track.tune library' (s.placements settings)
        = .ok c := by
      rw [Compilation.collect, hplaced, List.foldlM_map]
      exact Compilation.foldlM_of_agree hfold hagree
    rw [compile, compileWith, hcollect]
    exact hfinish

/-- **Each content is stored once, and sampled once if it has a waveform function.** The entries of
a resource share a place exactly if their pulses have the same content; over both banks there are as
many waveforms as contents. The library is asked about one pulse of each content that has a
function, once, for that pulse's function at that pulse's sample times; its answer is what is
stored, and nothing else that it would say makes a difference. A content without a function is
silent, and the library is not asked about it. -/
theorem waveforms_shared (hapart : s.ContentsApart)
    (h : s.compile library settings = .ok compiled) :
    (∀ r ∈ compiled.resources, r.SharesExactly s settings) ∧
      compiled.Consults s library settings := by
  obtain ⟨honce, hsound⟩ := represents_asked hapart h
  exact ⟨fun _ hr => sharesExactly_of_mem hapart h hr, honce, hsound,
    fun _ hq => answered_asked h hq, compile_iff_agree hapart.digests h⟩

/-- Three pulses on one qubit. The first two differ in their amplitudes and starts, and the last one
is silent. -/
def sharing : Schedule :=
  ((((blank "sharing").addResource (.plain "q0" .awg 1e9)).addPulse "low"
    (.square "q0" 0 12e-9 0.25) 0).addPulse "high" (.square "q0" 4e-9 12e-9 0.75) 20e-9).addPulse
    "rest" (.silent (some "q0") 0 12e-9) 40e-9

theorem waveforms_shared_sharing :
    ∃ compiled, sharing.ContentsApart ∧ sharing.compile .standard .standard = .ok compiled ∧
      compiled.asked.length = 1 ∧
      compiled.resources.map (fun r => r.memory.awg.size + r.memory.acq.size) = [2] ∧
      (∀ r ∈ compiled.resources, r.SharesExactly sharing .standard) ∧
      compiled.Consults sharing .standard .standard := by
  have hapart : sharing.ContentsApart := by decide +kernel
  have hvalue : (sharing.compile .standard .standard).toOption.map (fun c =>
      (c.asked.length, c.resources.map fun r => r.memory.awg.size + r.memory.acq.size))
      = some (1, [2]) := by
    decide +kernel
  obtain ⟨compiled, h, hc⟩ := exists_ok_of_toOption hvalue
  obtain ⟨hasked, hsizes⟩ := Prod.mk.inj hc
  exact ⟨compiled, hapart, h, hasked, hsizes, waveforms_shared hapart h⟩

/-- One silent pulse. -/
def quiet : Schedule :=
  ((blank "quiet").addResource (.plain "q0" .awg 1e9)).addPulse "rest"
    (.silent (some "q0") 0 20e-9) 0

/-- **A silent content is stored and not sampled.** The silent pulse has a waveform in memory, but
the library is asked nothing, so it has not been asked once about each content. -/
theorem silence_not_sampled :
    quiet.ContentsApart ∧ ∃ compiled, quiet.compile .standard .standard = .ok compiled ∧
      compiled.asked.length = 0 ∧
      compiled.resources.map (fun r => r.memory.awg.size + r.memory.acq.size) = [1] ∧
      ¬ Represents (compiled.asked.map Question.pulse) (quiet.playedPulses .standard) := by
  have hplayed : (quiet.playedPulses .standard).length = 1 := by decide +kernel
  have hvalue : (quiet.compile .standard .standard).toOption.map (fun c =>
      (c.asked.length, c.resources.map fun r => r.memory.awg.size + r.memory.acq.size))
      = some (0, [1]) := by
    decide +kernel
  obtain ⟨compiled, h, hc⟩ := exists_ok_of_toOption hvalue
  obtain ⟨hasked, hsizes⟩ := Prod.mk.inj hc
  refine ⟨by decide +kernel, compiled, h, hasked, hsizes, fun hall => ?_⟩
  obtain ⟨p, hp⟩ := List.exists_mem_of_length_pos (hplayed ▸ Nat.one_pos)
  obtain ⟨q, hq, -⟩ := hall.complete p hp
  rw [List.eq_nil_of_length_eq_zero hasked] at hq
  exact absurd hq List.not_mem_nil

end Schedule

end Sequencer
