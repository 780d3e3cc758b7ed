import Sequencer.Digest
import Sequencer.Json.Printer
import Sequencer.Number.Dyadic
import Sequencer.Schedule.Pulse

/-!
# Content keys

Pulses are the same to a waveform memory if they agree in everything that determines their samples:
the channel, the duration, the waveform function and the numeric parameters. When a pulse starts
does not matter. This content is written as a text, in which parameters are sorted by name and the
two zeros are the same, and the key of the pulse is the digest of that text.

## Main definitions

* `ContentKey` — a key
* `Pulse.content`, `Pulse.contentText` — the content of a pulse, and as a text
* `Pulse.contentKey` — its key
-/

namespace Sequencer

/-- The identity of a pulse in a waveform memory. -/
structure ContentKey where
  text : String
deriving DecidableEq

namespace Pulse

/-- What determines the samples of a pulse, as JSON. -/
def content (p : Pulse Float) : Json :=
  .object
    [("channel", Json.ofOption .text p.channel),
     ("duration", .real (Number.unsignedZero p.duration)),
     ("wf_func", Json.ofOption .text p.function),
     ("params", .object (p.parameters.entries.map fun entry =>
       (entry.1, .real (Number.unsignedZero entry.2))))]

/-- The content of a pulse as a text. -/
def contentText (p : Pulse Float) : String := p.content.write

/-- The key of a pulse. -/
def contentKey (p : Pulse Float) : ContentKey := ⟨Digest.sha1 p.contentText⟩

end Pulse

end Sequencer
