import Sequencer.Error
import Sequencer.Text.Blank

/-!
# Compiler settings

## Main definitions

* `Settings`, `Settings.standard`
* `Settings.sanitize` — settings fit for use, and what was changed to get there
* `Settings.resolve` — the resource of a channel, and whether the channel acquires
-/

namespace Sequencer

/-- What can be chosen about a compilation. -/
structure Settings where
  /-- Whether instructions are commented. -/
  comments : Bool
  /-- Whether a bank with too few slots is an error. -/
  limitBanks : Bool
  /-- The end of the names of acquisition channels. -/
  acquisitionSuffix : String

/-- A setting that was changed to be fit for use. -/
structure Settings.Change where
  setting : String
  before : String
  after : String
  reason : String

namespace Settings

/-- Comments, limited banks, and the usual suffix. -/
def standard : Settings := ⟨true, true, "_READOUT"⟩

/-- Make settings fit for use: blanks around the suffix are dropped, and some suffix has to
remain. -/
def sanitize (s : Settings) : Except CompileError (List Change × Settings) :=
  let suffix := Text.trim s.acquisitionSuffix
  if suffix = "" then .error .emptySuffix
  else if suffix = s.acquisitionSuffix then .ok ([], s)
  else
    .ok ([⟨"acquisition_suffix", s.acquisitionSuffix, suffix, "Surrounding whitespace removed."⟩],
      { s with acquisitionSuffix := suffix })

/-- A comment, if there are to be any. -/
def comment (s : Settings) (text : String) : Option String := if s.comments then some text else none

/-- The resource of a channel, and whether the channel acquires. A channel that ends in the suffix
acquires, and the rest of its name is the resource; any other channel is a resource itself. -/
def resolve (s : Settings) (channel : String) : String × Bool :=
  let name := channel.toList
  let suffix := s.acquisitionSuffix.toList
  if suffix.isSuffixOf name then (String.ofList (name.take (name.length - suffix.length)), true)
  else (channel, false)

end Settings

end Sequencer
