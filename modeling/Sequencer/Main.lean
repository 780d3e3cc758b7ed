import Sequencer.Command

/-!
# The program

The command on the files of the machine.
-/

namespace Sequencer

/-- Run a file operation and put its failure into words. -/
def attempt {α : Type} (action : IO α) : IO (Except String α) := do
  try
    return .ok (← action)
  catch e =>
    return .error (toString e)

/-- The file operations of the machine. -/
def machineFiles : FileSystem IO where
  read := fun path => attempt (IO.FS.readFile path)
  makeDirectories := fun path => attempt (IO.FS.createDirAll path)
  write := fun path text => attempt (IO.FS.writeFile path text)

end Sequencer

/-- Run the command and print what it has to say. -/
def main (args : List String) : IO UInt32 := do
  let outcome ← Sequencer.Command.run Sequencer.machineFiles args
  for record in outcome.log do
    if record.level != .debug then IO.eprintln (record.level.name ++ " " ++ record.message)
  IO.print outcome.output
  IO.eprint outcome.errors
  return UInt32.ofNat outcome.exitCode
