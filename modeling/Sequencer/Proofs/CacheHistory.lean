import Mathlib.Data.List.Induction
import Sequencer.Proofs.Projection

/-!
# What a cache remembers

A cache is asked for waveforms again and again, by requests that need not have anything to do with
each other: the same key may come with another pulse or another resource, and sampling may fail.
What the cache then holds has to be told by the history of the requests, and the order in which it
holds it matters as well, since it becomes the layout of the memory.

The history of a key begins with its first success. Failures before that leave no trace, not even in
the order. From there on every request for the key has the same answer, and nobody looks at its
pulse any more.

A `Session` keeps the answers beside the cache. The cache is a function of the answers, and so is
the next answer; what holds of every session follows from what one request does.

## Main definitions

* `Request`, `Request.sample`, `Request.answer` — a request, sampled afresh or answered with a cache
* `Session`, `Session.serve`, `Session.run` — a cache in use, and the answers it has given
* `History.found`, `History.keys`, `History.reply` — the first success for a key, the keys in the
  order of their first successes, and the answer that follows
* `Session.Remembers` — what is true of a session after some requests

## Main results

* `Session.serve_cases` — what a request can do; `Session.Coherent.serve` — what it preserves
* `Session.coherent_run` — the cache and all answers follow from the answers before
* `Session.run_remembers` — the state of a cache after any history
-/

namespace Sequencer

/-! ## Requests -/

/-- A request for the waveform of a content, with the pulse and the resource to sample it from. -/
structure Request where
  key : ContentKey
  pulse : Pulse Float
  resource : Resource

namespace Request

/-- The waveform of a request without any cache. -/
def sample (r : Request) (library : WaveformLibrary Float) :
    Except CompileError (Waveform Float) :=
  library.render r.pulse r.resource.samplingRate

/-- What has to be asked to sample the waveform of a request. -/
def questions (r : Request) : List Question := r.pulse.questions r.resource.samplingRate

/-- The answer of a sampler to a request. -/
def answer (r : Request) (library : WaveformLibrary Float) :
    EStateM CompileError Sampler (Waveform Float) :=
  Sampler.request library r.key r.pulse r.resource.samplingRate

end Request

/-! ## Sessions -/

/-- Requests with their answers, in order. -/
abbrev History := List (Request × Except CompileError (Waveform Float))

namespace History

/-- The waveform of the first successful request for a key. -/
def found (history : History) (key : ContentKey) : Option (Waveform Float) :=
  history.findSome? fun x => if x.1.key = key then x.2.toOption else none

/-- The keys of the successful requests, each where it was successful first. -/
def keys (history : History) : List ContentKey :=
  ((history.filter fun x => x.2.isOk).map fun x => x.1.key).eraseDups

/-- The answer that a request has after those of a history: what was found first, or else a new
sample. -/
def reply (history : History) (library : WaveformLibrary Float) (r : Request) :
    Except CompileError (Waveform Float) :=
  match history.found r.key with
  | some w => .ok w
  | none => r.sample library

variable {history : History} {key : ContentKey} {w : Waveform Float}

theorem found_concat (history : History) (x : Request × Except CompileError (Waveform Float))
    (key : ContentKey) :
    found (history ++ [x]) key = (history.found key).or
      (if x.1.key = key then x.2.toOption else none) := by
  rw [found, List.findSome?_append, List.findSome?_singleton]
  rfl

theorem keys_concat_ok (history : History) (r : Request) (w : Waveform Float) :
    keys (history ++ [(r, .ok w)]) = if r.key ∈ history.keys then history.keys else history.keys
      ++ [r.key] := by
  rw [keys, List.filter_append, List.map_append]
  simp only [keys, List.mem_eraseDups]
  exact eraseDups_concat _ r.key

theorem keys_concat_error (history : History) (r : Request) (e : CompileError) :
    keys (history ++ [(r, .error e)]) = history.keys := by
  rw [keys, List.filter_append]
  simp [keys, Except.toBool]

/-- Nothing is found for a key if all its requests have failed. -/
theorem found_eq_none_iff :
    history.found key = none ↔ ∀ x ∈ history, x.1.key = key → ∃ e, x.2 = .error e := by
  rw [found, List.findSome?_eq_none_iff]
  refine forall₂_congr fun x _ => ?_
  rw [ite_eq_right_iff]
  refine imp_congr_right fun _ => ?_
  cases x.2 <;> simp [Except.toOption]

/-- What is found is the answer of a request, after failures only. -/
theorem found_eq_some_iff : history.found key = some w ↔
    ∃ before r after, history = before ++ (r, .ok w) :: after ∧ r.key = key ∧
      found before key = none := by
  rw [found, List.findSome?_eq_some_iff]
  constructor
  · rintro ⟨before, ⟨r, answer⟩, after, hsplit, hanswer, hbefore⟩
    obtain ⟨hkey, hanswer⟩ := Option.ite_none_right_eq_some.mp hanswer
    cases answer with
    | error e => cases hanswer
    | ok w' =>
      obtain rfl := Option.some.inj hanswer
      exact ⟨before, r, after, hsplit, hkey, List.findSome?_eq_none_iff.mpr hbefore⟩
  · rintro ⟨before, r, after, hsplit, hkey, hbefore⟩
    exact ⟨before, _, after, hsplit, if_pos hkey, List.findSome?_eq_none_iff.mp hbefore⟩

end History

/-- A cache in use, with the requests so far and the answers to them. -/
structure Session extends Sampler where
  history : History

namespace Session

/-- Nothing has been asked for. -/
def start : Session := ⟨.empty, []⟩

/-- Serve a request. The session goes on with what the request leaves behind, whether it fails or
not. -/
def serve (library : WaveformLibrary Float) (s : Session) (r : Request) : Session :=
  match (r.answer library).run s.toSampler with
  | .ok w left => ⟨left, s.history ++ [(r, .ok w)]⟩
  | .error e left => ⟨left, s.history ++ [(r, .error e)]⟩

/-- Serve requests in order, beginning with an empty cache. -/
def run (library : WaveformLibrary Float) (requests : List Request) : Session :=
  requests.foldl (serve library) start

variable {library : WaveformLibrary Float} {s : Session} {w : Waveform Float}

/-- What a request can do: find a waveform, or else sample one and keep it, or fail. -/
theorem serve_cases (library : WaveformLibrary Float) (s : Session) (r : Request) :
    (∃ w, s.cache.get? r.key = some w ∧
      s.serve library r = ⟨s.toSampler, s.history ++ [(r, .ok w)]⟩) ∨
    (∃ w, s.cache.get? r.key = none ∧ r.sample library = .ok w ∧
      s.serve library r
        = ⟨⟨s.cache.insert r.key w, s.asked ++ r.questions⟩, s.history ++ [(r, .ok w)]⟩) ∨
    ∃ e, s.cache.get? r.key = none ∧ r.sample library = .error e ∧
      s.serve library r = ⟨⟨s.cache, s.asked ++ r.questions⟩, s.history ++ [(r, .error e)]⟩ := by
  cases hget : s.cache.get? r.key with
  | some w =>
    refine Or.inl ⟨w, rfl, ?_⟩
    rw [serve, Request.answer, Sampler.request_of_some hget]
  | none =>
    cases hsample : r.sample library with
    | ok w =>
      refine Or.inr (Or.inl ⟨w, rfl, rfl, ?_⟩)
      rw [serve, Request.answer, Sampler.request_of_ok hget hsample]
      rfl
    | error e =>
      refine Or.inr (Or.inr ⟨e, rfl, rfl, ?_⟩)
      rw [serve, Request.answer, Sampler.request_of_error hget hsample]
      rfl

theorem run_append (library : WaveformLibrary Float) (requests more : List Request) :
    run library (requests ++ more) = more.foldl (serve library) (run library requests) := by
  rw [run, List.foldl_append]
  rfl

/-! ## What one request preserves -/

/-- A session in which everything follows from the answers: the keys of the cache and their order,
the waveforms, and each answer from those before it. -/
structure Coherent (library : WaveformLibrary Float) (s : Session) : Prop where
  keys : s.cache.keys = s.history.keys
  get? : ∀ key, s.cache.get? key = s.history.found key
  replies : ∀ before r answer after, s.history = before ++ (r, answer) :: after →
    answer = History.reply before library r

theorem coherent_start (library : WaveformLibrary Float) : start.Coherent library where
  keys := rfl
  get? := fun _ => rfl
  replies := fun before r answer after h => by simp [start] at h

/-- The history goes on with the reply that it calls for. -/
theorem Coherent.history_serve (h : s.Coherent library) (r : Request) :
    (s.serve library r).history = s.history ++ [(r, s.history.reply library r)] := by
  rw [History.reply, ← h.get?]
  rcases serve_cases library s r with
    ⟨w, hget, hserve⟩ | ⟨w, hget, hsample, hserve⟩ | ⟨e, hget, hsample, hserve⟩
  · rw [hserve, hget]
  · rw [hserve, hget, hsample]
  · rw [hserve, hget, hsample]

theorem Coherent.keys_serve (h : s.Coherent library) (r : Request) :
    (s.serve library r).cache.keys = (s.serve library r).history.keys := by
  rcases serve_cases library s r with ⟨w, hget, hserve⟩ | ⟨w, hget, -, hserve⟩ | ⟨e, -, -, hserve⟩
  · have hmem : r.key ∈ s.history.keys := by
      rw [← h.keys, OrderedMap.mem_keys_iff, hget]
      rfl
    rw [hserve, History.keys_concat_ok, if_pos hmem]
    exact h.keys
  · rw [hserve, History.keys_concat_ok, ← h.keys]
    exact OrderedMap.keys_insert _ _ _
  · rw [hserve, History.keys_concat_error]
    exact h.keys

theorem Coherent.get?_serve (h : s.Coherent library) (r : Request) (key : ContentKey) :
    (s.serve library r).cache.get? key = (s.serve library r).history.found key := by
  rcases serve_cases library s r with ⟨w, hget, hserve⟩ | ⟨w, hget, -, hserve⟩ | ⟨e, -, -, hserve⟩
  · rw [hserve, History.found_concat, ← h.get?]
    by_cases hkey : r.key = key
    · rw [← hkey, hget]
      rfl
    · rw [if_neg hkey, Option.or_none]
  · rw [hserve, History.found_concat, ← h.get?, OrderedMap.get?_insert]
    by_cases hkey : r.key = key
    · rw [if_pos hkey.symm, if_pos hkey, ← hkey, hget]
      rfl
    · rw [if_neg (Ne.symm hkey), if_neg hkey, Option.or_none]
  · rw [hserve, History.found_concat, ← h.get?]
    simp [Except.toOption]

/-- **What one request preserves.** -/
theorem Coherent.serve (h : s.Coherent library) (r : Request) :
    (s.serve library r).Coherent library where
  keys := h.keys_serve r
  get? := h.get?_serve r
  replies := fun before r' answer after hsplit => by
    rw [h.history_serve r] at hsplit
    rcases List.eq_nil_or_concat after with rfl | ⟨init, last, rfl⟩
    · -- the request at hand
      obtain ⟨rfl, hlast⟩ := List.append_inj' hsplit rfl
      obtain ⟨rfl, rfl⟩ := Prod.mk.inj (List.singleton_inj.mp hlast)
      rfl
    · -- one of the requests before
      rw [List.concat_eq_append, ← List.cons_append, ← List.append_assoc] at hsplit
      exact h.replies before r' answer init (List.append_inj' hsplit rfl).1

/-- **The cache and all answers follow from the answers before**, after any history. -/
theorem coherent_run (library : WaveformLibrary Float) (requests : List Request) :
    (run library requests).Coherent library := by
  induction requests using List.reverseRecOn with
  | nil => exact coherent_start library
  | append_singleton requests r ih =>
    rw [run_append]
    exact ih.serve r

theorem history_run (library : WaveformLibrary Float) (requests : List Request) :
    (run library requests).history.map Prod.fst = requests := by
  induction requests using List.reverseRecOn with
  | nil => rfl
  | append_singleton requests r ih =>
    rw [run_append]
    show ((run library requests).serve library r).history.map Prod.fst = _
    rw [(coherent_run library requests).history_serve, List.map_append, ih]
    rfl

/-! ## After the first success -/

/-- What has been found stays. -/
theorem get?_serve_of_some {key : ContentKey} (h : s.cache.get? key = some w) (r : Request) :
    (s.serve library r).cache.get? key = some w := by
  rcases serve_cases library s r with ⟨_, -, hserve⟩ | ⟨_, hget, -, hserve⟩ | ⟨_, -, -, hserve⟩
  · rw [hserve, h]
  · have hne : key ≠ r.key := by
      rintro rfl
      rw [hget] at h
      cases h
    rw [hserve, OrderedMap.get?_insert, if_neg hne, h]
  · rw [hserve, h]

theorem get?_run_append {key : ContentKey} {requests : List Request}
    (h : (run library requests).cache.get? key = some w) (more : List Request) :
    (run library (requests ++ more)).cache.get? key = some w := by
  induction more using List.reverseRecOn with
  | nil => rwa [List.append_nil]
  | append_singleton more r ih =>
    rw [← List.append_assoc, run_append]
    exact get?_serve_of_some ih r

/-- What is found is what the first successful request has sampled. -/
theorem Coherent.get?_eq_some_iff (h : s.Coherent library) {key : ContentKey} :
    s.cache.get? key = some w ↔
      ∃ before r after, s.history = before ++ (r, .ok w) :: after ∧ r.key = key ∧
        (∀ x ∈ before, x.1.key = key → ∃ e, x.2 = .error e) ∧ r.sample library = .ok w := by
  rw [h.get?, History.found_eq_some_iff]
  constructor
  · rintro ⟨before, r, after, hsplit, rfl, hbefore⟩
    have hreply := h.replies before r _ after hsplit
    rw [History.reply, hbefore] at hreply
    exact ⟨before, r, after, hsplit, rfl, History.found_eq_none_iff.mp hbefore, hreply.symm⟩
  · rintro ⟨before, r, after, hsplit, hkey, hbefore, -⟩
    exact ⟨before, r, after, hsplit, hkey, History.found_eq_none_iff.mpr hbefore⟩

/-- What is true of a session after some requests. -/
structure Remembers (library : WaveformLibrary Float) (requests : List Request) (s : Session) :
    Prop where
  /-- All requests have been answered, in order. -/
  answered : s.history.map Prod.fst = requests
  /-- Each answer is the first success for the same key, or sampled afresh if there has been
  none. -/
  replies : ∀ before r answer after, s.history = before ++ (r, answer) :: after →
    answer = History.reply before library r
  /-- The cache has the keys with a success, ordered by the first one. -/
  keys : s.cache.keys = s.history.keys
  /-- It has the waveform that the first successful request for the key has sampled. -/
  waveform : ∀ key w, s.cache.get? key = some w ↔
    ∃ before r after, s.history = before ++ (r, .ok w) :: after ∧ r.key = key ∧
      (∀ x ∈ before, x.1.key = key → ∃ e, x.2 = .error e) ∧ r.sample library = .ok w
  /-- From then on it is the answer to all requests for the key, whatever is to be sampled, and no
  library is asked for it. -/
  later : ∀ key w, s.cache.get? key = some w → ∀ (more : List Request) (r : Request), r.key = key →
    ∀ other, (r.answer other).run (run library (requests ++ more)).toSampler
      = .ok w (run library (requests ++ more)).toSampler
  /-- A failure leaves the cache as it was, although the library has been asked. -/
  failure : ∀ (r : Request) e left, (r.answer library).run s.toSampler = .error e left →
    left = ⟨s.cache, s.asked ++ r.questions⟩ ∧ (s.serve library r).toSampler = left
  /-- The next request for the key is sampled afresh. -/
  afresh : ∀ (r : Request) e left, (r.answer library).run s.toSampler = .error e left →
    ∀ next : Request, next.key = r.key →
      (∀ w, next.sample library = .ok w → (next.answer library).run left
        = .ok w ⟨s.cache.insert next.key w, left.asked ++ next.questions⟩) ∧
      ∀ cause, next.sample library = .error cause →
        (next.answer library).run left = .error cause ⟨s.cache, left.asked ++ next.questions⟩

/-- **What a cache remembers.** After any history of requests, with any library, the cache holds
exactly the keys that have had a success, in the order of their first successes and with the
waveforms sampled then. Later requests for them get these waveforms without asking the library, and
a failure leaves no trace in the cache. -/
theorem run_remembers (library : WaveformLibrary Float) (requests : List Request) :
    (run library requests).Remembers library requests := by
  have h := coherent_run library requests
  refine ⟨history_run library requests, h.replies, h.keys, fun key w => h.get?_eq_some_iff,
    ?_, ?_, ?_⟩
  · rintro key w hget more r rfl other
    exact Sampler.request_of_some (get?_run_append hget more)
  · intro r e left hanswer
    obtain ⟨-, -, hleft⟩ := Sampler.request_eq_error hanswer
    exact ⟨hleft, by rw [serve, hanswer]⟩
  · intro r e left hanswer next hkey
    obtain ⟨hget, -, rfl⟩ := Sampler.request_eq_error hanswer
    rw [← hkey] at hget
    exact ⟨fun w => Sampler.request_of_ok hget, fun cause => Sampler.request_of_error hget⟩

/-- Two keys, of which the first fails at first. When it has succeeded, the pulse that failed is not
looked at. -/
def retry : List Request :=
  let resource := Resource.plain "q0" .awg 1e9
  let pulse := Pulse.square "q0" 0.0 2e-8 1.0
  let unknown := { pulse with function := some "ramp" }
  [⟨⟨"a"⟩, unknown, resource⟩, ⟨⟨"b"⟩, pulse, resource⟩, ⟨⟨"a"⟩, pulse, resource⟩,
    ⟨⟨"a"⟩, unknown, resource⟩]

theorem run_remembers_retry :
    (run .standard retry).history.map (fun x => x.2.isOk) = [false, true, true, true] ∧
      (run .standard retry).cache.keys = [⟨"b"⟩, ⟨"a"⟩] ∧ (run .standard retry).asked.length = 3 ∧
      (run .standard retry).Remembers .standard retry :=
  ⟨by decide, by decide, by decide, run_remembers .standard retry⟩

end Session

end Sequencer
