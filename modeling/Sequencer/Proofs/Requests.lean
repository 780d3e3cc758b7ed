import Sequencer.Memory.Cache
import Sequencer.Proofs.Success

/-!
# What a request does

A request for a waveform looks into the cache. What is there is the answer, and the library is not
asked. What is not there is sampled from the pulse at hand, and kept if that succeeds. So a request
has three outcomes, and each of them comes with a cache and a list of questions afterwards, an error
too.

## Main definitions

* `Pulse.questions` — what has to be asked to sample a pulse
* `Sampler.Answered` — the answers to all noted questions are kept

## Main results

* `Sampler.request_of_some`, `Sampler.request_of_ok`, `Sampler.request_of_error` — the three
  outcomes
* `Sampler.request_eq_ok`, `Sampler.request_eq_error` — what is known after a success, and after a
  failure
* `Sampler.request_of_agree` — a request depends on the library at the noted questions only
* `Sampler.keys_request`, `Sampler.get?_request` — the cache after a success
* `Sampler.Answered.request` — the answer to what a request asks is kept
-/

namespace Sequencer

/-- What has to be asked to sample a pulse: its waveform function, or nothing if it is silent. -/
def Pulse.questions (p : Pulse Float) (rate : Float) : List Question :=
  (p.function.map fun function => ⟨function, sampleTimes p.duration rate, p⟩).toList

namespace Pulse

variable {p : Pulse Float} {rate : Float} {q : Question}

theorem questions_of_some {function : String} (h : p.function = some function) :
    p.questions rate = [⟨function, sampleTimes p.duration rate, p⟩] := by
  rw [questions, h]
  rfl

theorem pulse_of_mem_questions (h : q ∈ p.questions rate) : q.pulse = p := by
  rw [questions, Option.mem_toList, Option.map_eq_some_iff] at h
  obtain ⟨_, -, rfl⟩ := h
  rfl

theorem isSome_function_of_mem_questions (h : q ∈ p.questions rate) : p.function.isSome = true := by
  rw [questions, Option.mem_toList, Option.map_eq_some_iff] at h
  obtain ⟨function, hfunction, -⟩ := h
  exact Option.isSome_of_eq_some hfunction

/-- There is at most one question. -/
theorem nodup_map_questions {κ : Type} (f : Question → κ) (p : Pulse Float) (rate : Float) :
    ((p.questions rate).map f).Nodup := by
  rw [questions]
  cases p.function <;> simp

end Pulse

namespace WaveformLibrary

variable {library library' : WaveformLibrary Float} {p : Pulse Float} {rate : Float}

/-- The samples of a pulse are the answer to its question. -/
theorem render_of_mem_questions {q : Question} (h : q ∈ p.questions rate) :
    library.render p rate = library.answer q := by
  rw [Pulse.questions, Option.mem_toList, Option.map_eq_some_iff] at h
  obtain ⟨function, hfunction, rfl⟩ := h
  exact render_of_some hfunction rate

/-- Libraries that agree on the questions of a pulse agree on its samples. -/
theorem render_congr (h : ∀ q ∈ p.questions rate, library'.answer q = library.answer q) :
    library'.render p rate = library.render p rate := by
  cases hf : p.function with
  | none => rw [render_of_none hf, render_of_none hf]
  | some function =>
    have hmem : ⟨function, sampleTimes p.duration rate, p⟩ ∈ p.questions rate := by
      rw [Pulse.questions_of_some hf]
      exact List.mem_singleton_self _
    rw [render_of_mem_questions hmem, render_of_mem_questions hmem, h _ hmem]

end WaveformLibrary

namespace Sampler

variable {library : WaveformLibrary Float} {key : ContentKey} {p : Pulse Float} {rate : Float}
  {w : Waveform Float} {e : CompileError} {s s' : Sampler}

/-! ## Asking the library -/

theorem ask_of_ok {q : Question} (h : library.answer q = .ok w) (s : Sampler) :
    (ask library q).run s = .ok w ⟨s.cache, s.asked ++ [q]⟩ := by
  rw [ask, h]
  rfl

theorem ask_of_error {q : Question} (h : library.answer q = .error e) (s : Sampler) :
    (ask library q).run s = .error e ⟨s.cache, s.asked ++ [q]⟩ := by
  rw [ask, h]
  rfl

theorem sampleWith_of_ok (h : library.render p rate = .ok w) (s : Sampler) :
    (p.sampleWith (ask library) rate).run s = .ok w ⟨s.cache, s.asked ++ p.questions rate⟩ := by
  rw [Pulse.sampleWith, Pulse.questions]
  cases hf : p.function with
  | some function =>
    rw [WaveformLibrary.render_of_some hf] at h
    exact ask_of_ok (q := ⟨function, sampleTimes p.duration rate, p⟩) h s
  | none =>
    rw [WaveformLibrary.render_of_none hf] at h
    obtain rfl := Except.ok.inj h
    simp only [Option.map_none, Option.toList_none, List.append_nil]
    rfl

theorem sampleWith_of_error (h : library.render p rate = .error e) (s : Sampler) :
    (p.sampleWith (ask library) rate).run s = .error e ⟨s.cache, s.asked ++ p.questions rate⟩ := by
  rw [Pulse.sampleWith, Pulse.questions]
  cases hf : p.function with
  | some function =>
    rw [WaveformLibrary.render_of_some hf] at h
    exact ask_of_error (q := ⟨function, sampleTimes p.duration rate, p⟩) h s
  | none =>
    rw [WaveformLibrary.render_of_none hf] at h
    cases h

/-! ## The outcomes of a request -/

/-- What is there is the answer, and nothing changes. -/
theorem request_of_some (h : s.cache.get? key = some w) :
    (request library key p rate).run s = .ok w s := by
  rw [request, run_get_bind, h]
  rfl

/-- What is not there is sampled, and kept. -/
theorem request_of_ok (h : s.cache.get? key = none) (hrender : library.render p rate = .ok w) :
    (request library key p rate).run s
      = .ok w ⟨s.cache.insert key w, s.asked ++ p.questions rate⟩ := by
  rw [request, run_get_bind, h]
  exact run_bind_of_ok (sampleWith_of_ok hrender s)

/-- What cannot be sampled has been asked for, and nothing is kept. -/
theorem request_of_error (h : s.cache.get? key = none)
    (hrender : library.render p rate = .error e) :
    (request library key p rate).run s = .error e ⟨s.cache, s.asked ++ p.questions rate⟩ := by
  rw [request, run_get_bind, h]
  exact run_bind_of_error (sampleWith_of_error hrender s)

/-- A request that succeeds has found a waveform, or it has sampled one and kept it. -/
theorem request_eq_ok (h : (request library key p rate).run s = .ok w s') :
    (s.cache.get? key = some w ∧ s' = s) ∨
      (s.cache.get? key = none ∧ library.render p rate = .ok w ∧
        s' = ⟨s.cache.insert key w, s.asked ++ p.questions rate⟩) := by
  cases hk : s.cache.get? key with
  | some found =>
    rw [request_of_some hk] at h
    obtain ⟨rfl, rfl⟩ := EStateM.Result.ok.inj h
    exact Or.inl ⟨rfl, rfl⟩
  | none =>
    cases hrender : library.render p rate with
    | error e =>
      rw [request_of_error hk hrender] at h
      cases h
    | ok sampled =>
      rw [request_of_ok hk hrender] at h
      obtain ⟨rfl, rfl⟩ := EStateM.Result.ok.inj h
      exact Or.inr ⟨rfl, rfl, rfl⟩

/-- **A request that fails has not found its content, and has not put it into the cache either.** -/
theorem request_eq_error (h : (request library key p rate).run s = .error e s') :
    s.cache.get? key = none ∧ library.render p rate = .error e ∧
      s' = ⟨s.cache, s.asked ++ p.questions rate⟩ := by
  cases hk : s.cache.get? key with
  | some found =>
    rw [request_of_some hk] at h
    cases h
  | none =>
    cases hrender : library.render p rate with
    | error cause =>
      rw [request_of_error hk hrender] at h
      obtain ⟨rfl, rfl⟩ := EStateM.Result.error.inj h
      exact ⟨rfl, rfl, rfl⟩
    | ok sampled =>
      rw [request_of_ok hk hrender] at h
      cases h

/-- A request depends on what the library says about its pulse, and on nothing else that it says. -/
theorem request_congr {library' : WaveformLibrary Float}
    (h : library.render p rate = library'.render p rate) (s : Sampler) :
    (request library key p rate).run s = (request library' key p rate).run s := by
  cases hk : s.cache.get? key with
  | some w => rw [request_of_some hk, request_of_some hk]
  | none =>
    cases hrender : library'.render p rate with
    | error e => rw [request_of_error hk (h.trans hrender), request_of_error hk hrender]
    | ok w => rw [request_of_ok hk (h.trans hrender), request_of_ok hk hrender]

/-- **A request depends on the library at the noted questions only.** -/
theorem request_of_agree {library' : WaveformLibrary Float}
    (h : (request library key p rate).run s = .ok w s')
    (hagree : ∀ q ∈ s'.asked, library'.answer q = library.answer q) :
    (request library' key p rate).run s = .ok w s' := by
  rcases request_eq_ok h with ⟨hfound, rfl⟩ | ⟨hnew, hrender, rfl⟩
  · exact request_of_some hfound
  · refine request_of_ok hnew ?_
    rw [WaveformLibrary.render_congr fun q hq => hagree q (List.mem_append_right _ hq)]
    exact hrender

/-- The library has answered all noted questions, and the answers are kept. -/
def Answered (library : WaveformLibrary Float) (s : Sampler) : Prop :=
  ∀ q ∈ s.asked, ∃ w, library.answer q = .ok w ∧ s.cache.get? q.pulse.contentKey = some w

/-! ## The cache afterwards -/

section Success

variable (h : (request library key p rate).run s = .ok w s')

include h

theorem get?_request : s'.cache.get? key = some w := by
  rcases request_eq_ok h with ⟨hk, rfl⟩ | ⟨-, -, rfl⟩
  · exact hk
  · rw [OrderedMap.get?_insert, if_pos rfl]

/-- A waveform that is there already stays as it is. -/
theorem get?_request_of_isSome {other : ContentKey} (hother : (s.cache.get? other).isSome = true) :
    s'.cache.get? other = s.cache.get? other := by
  rcases request_eq_ok h with ⟨-, rfl⟩ | ⟨hnone, -, rfl⟩
  · rfl
  · have hne : other ≠ key := by
      rintro rfl
      simp [hnone] at hother
    rw [OrderedMap.get?_insert, if_neg hne]

/-- A waveform that was not there is the one asked for, sampled from the pulse at hand. -/
theorem request_of_get?_eq_none {other : ContentKey} (hother : s.cache.get? other = none)
    {w' : Waveform Float} (hw' : s'.cache.get? other = some w') :
    other = key ∧ library.render p rate = .ok w' := by
  rcases request_eq_ok h with ⟨-, rfl⟩ | ⟨-, hrender, rfl⟩
  · simp [hother] at hw'
  · rw [OrderedMap.get?_insert] at hw'
    split at hw'
    · rename_i hk
      obtain rfl := Option.some.inj hw'
      exact ⟨hk, hrender⟩
    · simp [hother] at hw'

theorem keys_request :
    s'.cache.keys = if key ∈ s.cache.keys then s.cache.keys else s.cache.keys ++ [key] := by
  rcases request_eq_ok h with ⟨hk, rfl⟩ | ⟨-, -, rfl⟩
  · have hmem : key ∈ s'.cache.keys := by
      rw [OrderedMap.mem_keys_iff, hk]
      rfl
    rw [if_pos hmem]
  · exact OrderedMap.keys_insert _ _ _

theorem mem_keys_request {other : ContentKey} :
    other ∈ s'.cache.keys ↔ other ∈ s.cache.keys ∨ other = key := by
  rw [keys_request h]
  split
  · next hmem =>
    constructor
    · exact Or.inl
    · rintro (hother | rfl)
      · exact hother
      · exact hmem
  · simp

/-- **What a request asks is answered, and the answer is kept.** -/
theorem Answered.request (hs : s.Answered library) (hkey : key = p.contentKey) :
    s'.Answered library := by
  intro q hq
  rcases request_eq_ok h with ⟨-, rfl⟩ | ⟨hnew, hrender, hsame⟩
  · exact hs q hq
  · rw [hsame] at hq
    rcases List.mem_append.mp hq with hq | hq
    · obtain ⟨w', hw', hget⟩ := hs q hq
      refine ⟨w', hw', ?_⟩
      rw [get?_request_of_isSome h (Option.isSome_of_eq_some hget), hget]
    · refine ⟨w, ?_, ?_⟩
      · rw [← WaveformLibrary.render_of_mem_questions hq, hrender]
      · rw [Pulse.pulse_of_mem_questions hq, ← hkey, get?_request h]

end Success

end Sampler

end Sequencer
