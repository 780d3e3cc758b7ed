import Sequencer.OrderedMap
import Sequencer.Waveform.Library

/-!
# Waveform caches

A resource samples each content once. Its cache lists the waveforms in the order in which their
contents were first seen. It stands between the resource and the library: a waveform that is there
is not asked for, and one that is not is sampled first and kept second, so that a content that could
not be sampled leaves no trace. What the library is asked on the way is noted.

## Main definitions

* `Cache` — waveforms by content
* `Sampler` — a cache with what has been asked of the library
* `Sampler.ask`, `Sampler.request` — asking the library, and asking for a waveform
-/

namespace Sequencer

/-- The waveforms of a resource by content, in the order in which they were first seen. -/
abbrev Cache := OrderedMap ContentKey (Waveform Float)

/-- A cache, and the questions that its library has been asked so far. -/
structure Sampler where
  cache : Cache
  asked : List Question

namespace Sampler

/-- Nothing is known, and nothing has been asked. -/
def empty : Sampler := ⟨.empty, []⟩

/-- Ask the library. The question is noted whatever the answer. -/
def ask (library : WaveformLibrary Float) (q : Question) :
    EStateM CompileError Sampler (Waveform Float) := do
  modify fun s => { s with asked := s.asked ++ [q] }
  MonadExcept.ofExcept (library.answer q)

/-- The waveform of a content. If it is not there yet, it is sampled from a pulse, and kept. -/
def request (library : WaveformLibrary Float) (key : ContentKey) (p : Pulse Float) (rate : Float) :
    EStateM CompileError Sampler (Waveform Float) := do
  match (← get).cache.get? key with
  | some waveform => return waveform
  | none =>
    let waveform ← p.sampleWith (ask library) rate
    modify fun s => { s with cache := s.cache.insert key waveform }
    return waveform

end Sampler

end Sequencer
