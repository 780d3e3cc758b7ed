import Sequencer.Files.Schedule
import Sequencer.Log

/-!
# The command

The command compiles the schedule of a file and writes a configuration file for each resource. It
prints which resource has which file.

## Main definitions

* `Arguments`, `Arguments.parse` — the arguments of the command
* `Outcome`, `Command.run` — what the command does and prints
-/

namespace Sequencer

/-- What the command is asked to do. -/
structure Arguments where
  /-- The file of the schedule. -/
  schedule : String
  /-- The directory of the configuration files. -/
  directory : String
  /-- Whether listings are written as well. -/
  listings : Bool
  /-- Whether instructions are commented. -/
  comments : Bool
  /-- Whether a bank with too few slots is an error. -/
  limitBanks : Bool
  /-- Whether statistics of the compilation are logged. -/
  diagnostics : Bool

/-- Why no arguments result: they are wrong, or only help is asked for. -/
inductive Usage where
  | wrong
  | help
deriving DecidableEq

namespace Arguments

/-- The arguments read so far. -/
structure Form where
  schedule : Option String
  directory : Option String
  flags : List String

/-- The options without a value. -/
def flagNames : List String := ["debug", "no-comments", "no-bank-limit", "diagnostics"]

/-- What an argument is. -/
inductive Word where
  /-- A value. -/
  | value (text : String)
  /-- The mark after which everything is a value. -/
  | endOfOptions
  /-- A long option, with the value attached to it. -/
  | long (name : String) (attached : Option String)
  /-- Short options. -/
  | short (letters : List Char)

/-- Read an argument. A lone dash is a value. -/
def Word.ofText (text : String) : Word :=
  match text.toList with
  | ['-', '-'] => .endOfOptions
  | '-' :: '-' :: rest =>
    let name := rest.takeWhile (· != '=')
    .long (String.ofList name)
      (match rest.dropWhile (· != '=') with
      | _ :: attached => some (String.ofList attached)
      | [] => none)
  | '-' :: c :: rest => .short (c :: rest)
  | _ => .value text

/-- Take a value as the schedule. Only one is wanted, and it must not be empty. -/
def Form.takeSchedule (f : Form) (text : String) : Except Usage Form :=
  if f.schedule.isSome ∨ text = "" then .error .wrong else .ok { f with schedule := some text }

/-- Take the value of the directory option. It is wanted once, and must not be empty. -/
def Form.takeDirectory (f : Form) (text : String) : Except Usage Form :=
  if f.directory.isSome ∨ text = "" then .error .wrong else .ok { f with directory := some text }

/-- Take an option without a value, which may be given once. -/
def Form.takeFlag (f : Form) (name : String) : Except Usage Form :=
  if name ∈ flagNames ∧ name ∉ f.flags then .ok { f with flags := name :: f.flags }
  else .error .wrong

/-- Read arguments one after the other. With `plain`, all of them are values. -/
def read (plain : Bool) (f : Form) : List String → Except Usage Form
  | [] => .ok f
  | text :: rest =>
    if plain then do
      let f ← f.takeSchedule text
      read plain f rest
    else
      match Word.ofText text with
      | .value text => do
        let f ← f.takeSchedule text
        read plain f rest
      | .endOfOptions => read true f rest
      | .short letters => .error (if letters.head? = some 'h' then .help else .wrong)
      | .long "help" none => .error .help
      | .long "out-dir" (some directory) => do
        let f ← f.takeDirectory directory
        read plain f rest
      | .long "out-dir" none =>
        match rest with
        | [] => .error .wrong
        | value :: rest =>
          match Word.ofText value with
          | .value directory => do
            let f ← f.takeDirectory directory
            read plain f rest
          | _ => .error .wrong
      | .long name none => do
        let f ← f.takeFlag name
        read plain f rest
      | .long _ (some _) => .error .wrong

/-- The arguments of the command. A schedule has to be named; the directory is the current one
unless another is given. -/
def parse (args : List String) : Except Usage Arguments := do
  let f ← read false ⟨none, none, []⟩ args
  match f.schedule with
  | none => .error .wrong
  | some schedule =>
    return {
      schedule := schedule
      directory := f.directory.getD "."
      listings := "debug" ∈ f.flags
      comments := "no-comments" ∉ f.flags
      limitBanks := "no-bank-limit" ∉ f.flags
      diagnostics := "diagnostics" ∈ f.flags }

/-- The compiler settings that the arguments ask for. -/
def settings (a : Arguments) : Settings :=
  { Settings.standard with comments := a.comments, limitBanks := a.limitBanks }

end Arguments

/-- What a command has logged and printed, and whether it has succeeded. -/
structure Outcome where
  exitCode : Nat
  log : List LogRecord
  output : String
  errors : String

namespace Command

/-- What is logged about the files that were written: each of them, or that there are none. -/
def deliveryLog (schedule : String) (written : List (String × String)) : List LogRecord :=
  if written.isEmpty then
    [⟨.warning, .command, "Schedule '" ++ schedule ++ "' does not play any pulses"⟩]
  else written.map fun entry => ⟨.info, .command, "Wrote sequencer configuration " ++ entry.2⟩

variable {m : Type → Type} [Monad m]

/-- Run the command with given arguments: load, compile and write, up to the first failure. A
success prints which resource has which file, a failure is reported. -/
def deliver (fs : FileSystem m) (a : Arguments) : m Outcome := do
  match ← Schedule.load fs a.schedule with
  | .error failure => return ⟨1, [], "", failure.report⟩
  | .ok schedule =>
    let log := schedule.log WaveformLibrary.standard a.settings a.diagnostics
    match schedule.configure WaveformLibrary.standard a.settings with
    | .error e => return ⟨1, log, "", (Failure.compile schedule.name e).report⟩
    | .ok configurations =>
      match ← writeConfigurations fs a.directory a.listings configurations with
      | .error failure => return ⟨1, log, "", failure.report⟩
      | .ok written =>
        let paths := Json.object (written.map fun entry => (entry.1, .text entry.2))
        return ⟨0, log ++ deliveryLog schedule.name written, paths.writePretty ++ "\n", ""⟩

/-- Run the command. Wrong arguments have an exit code of their own. -/
def run (fs : FileSystem m) (args : List String) : m Outcome := do
  match Arguments.parse args with
  | .error .wrong => return ⟨2, [], "", ""⟩
  | .error .help => return ⟨0, [], "", ""⟩
  | .ok a => deliver fs a

end Command

end Sequencer
