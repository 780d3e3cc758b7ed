import Sequencer.Log
import Sequencer.Main
import Sequencer.Schedule.Encode
import Sequencer.Proofs.Success
import Sequencer.Proofs.Encoding
import Sequencer.Proofs.Requests
import Sequencer.Proofs.Numbering
import Sequencer.Proofs.Timing
import Sequencer.Proofs.Performance
import Sequencer.Proofs.Ordering
import Sequencer.Proofs.Projection
import Sequencer.Proofs.LockStep
import Sequencer.Proofs.Addressing
import Sequencer.Proofs.JsonText
import Sequencer.Proofs.Content
import Sequencer.Proofs.Layout
import Sequencer.Proofs.Sharing
import Sequencer.Proofs.Shape
import Sequencer.Proofs.Banks
import Sequencer.Proofs.Labels
import Sequencer.Proofs.Workers
import Sequencer.Proofs.Failure
import Sequencer.Proofs.Agreement
import Sequencer.Proofs.Variation
import Sequencer.Proofs.Signal
import Sequencer.Proofs.Executed
import Sequencer.Proofs.Doubles
import Sequencer.Proofs.Frequency
import Sequencer.Proofs.Recheck
import Sequencer.Proofs.MissingParameters
import Sequencer.Proofs.Independence
import Sequencer.Proofs.Extension
import Sequencer.Proofs.SignedZero
import Sequencer.Proofs.Reordering
import Sequencer.Proofs.Integers
import Sequencer.Proofs.Lines
import Sequencer.Proofs.Comments
import Sequencer.Proofs.Flags
import Sequencer.Proofs.Runs
import Sequencer.Proofs.Outcome
import Sequencer.Proofs.Numerals
import Sequencer.Proofs.JsonReading
import Sequencer.Proofs.RoundTrip
import Sequencer.Proofs.Columns
import Sequencer.Proofs.Disassembly
import Sequencer.Proofs.Registers
import Sequencer.Proofs.Splitting
import Sequencer.Proofs.PhaseStages
import Sequencer.Proofs.Allocation
import Sequencer.Proofs.CacheHistory
import Sequencer.Proofs.CentralSlice
