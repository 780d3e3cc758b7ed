import Sequencer.Configuration
import Sequencer.Files.System
import Sequencer.Schedule.Decode

/-!
# Schedule and configuration files

A schedule is read from a file, and each configuration is written to a file of its own, named for
its resource, with its listing beside it if one is asked for.

## Main definitions

* `Failure`, `Failure.report` — what can go wrong, and how it is reported
* `Schedule.load` — the schedule of a file
* `writeConfigurations` — the files of configurations
-/

namespace Sequencer

/-- Why a command fails: what it was doing, and what went wrong with it. -/
inductive Failure where
  | read (path cause : String)
  | parse (path : String) (cause : DecodeError)
  | compile (schedule : String) (cause : CompileError)
  | create (directory cause : String)
  | write (path cause : String)

namespace Failure

/-- What a command was doing when it failed. -/
def headline : Failure → String
  | .read path _ => "Failed to read schedule '" ++ path ++ "'"
  | .parse path _ => "Failed to parse schedule '" ++ path ++ "'"
  | .compile schedule _ => "Failed to compile schedule '" ++ schedule ++ "'"
  | .create directory _ => "Failed to create '" ++ directory ++ "'"
  | .write path _ => "Failed to write '" ++ path ++ "'"

/-- What went wrong, from the outside in. -/
def causes : Failure → List String
  | .read _ cause | .create _ cause | .write _ cause => [cause]
  | .parse _ cause => [cause.message]
  | .compile _ cause => cause.chain.map CompileError.message

/-- A text with something in front of its first line and something else in front of all others. -/
def indent (first others : String) (text : String) : String :=
  first ++ String.ofList (text.toList.flatMap fun c => if c = '\n' then c :: others.toList else [c])

/-- The causes in a report: a single one is indented, several are numbered. -/
def listCauses : List String → List String
  | [cause] => [indent "    " "    " cause]
  | causes => causes.zipIdx.map fun (cause, i) =>
    let number := toString i
    indent
      (String.ofList (List.replicate (5 - number.length) ' ') ++ number ++ ": ") "       " cause

/-- The report of a failure. -/
def report (f : Failure) : String :=
  "Error: " ++ f.headline ++ "\n\nCaused by:" ++ String.join ((listCauses f.causes).map ("\n" ++ ·))
    ++ "\n"

end Failure

variable {m : Type → Type} [Monad m]

/-- The schedule of a file. -/
def Schedule.load (fs : FileSystem m) (path : String) : m (Except Failure Schedule) := do
  match ← fs.read path with
  | .error cause => return .error (.read path cause)
  | .ok text => return (Schedule.ofText text).mapError (.parse path)

/-- The file of the configuration of a resource. -/
def configurationFile (directory resource : String) : String :=
  FilePath.join directory (resource ++ "_sequencer_cfg.json")

/-- The file of the listing of a resource. -/
def listingFile (directory resource : String) : String :=
  FilePath.join directory (resource ++ "_sequencer.q1asm")

/-- Write the files of configurations one after the other, up to the first failure. The result says
which resource has which configuration file. -/
def writeEach (fs : FileSystem m) (directory : String) (listings : Bool) :
    List (String × Configuration) → m (Except Failure (List (String × String)))
  | [] => return .ok []
  | (resource, configuration) :: rest => do
    let path := configurationFile directory resource
    match ← fs.write path configuration.encode.writePretty with
    | .error cause => return .error (.write path cause)
    | .ok () =>
      let listing := listingFile directory resource
      let written ←
        if listings then fs.write listing configuration.program.listing else pure (.ok ())
      match written with
      | .error cause => return .error (.write listing cause)
      | .ok () =>
        match ← writeEach fs directory listings rest with
        | .error e => return .error e
        | .ok paths => return .ok ((resource, path) :: paths)

/-- Write the files of configurations into a directory, which is created if it is missing. -/
def writeConfigurations (fs : FileSystem m) (directory : String) (listings : Bool)
    (configurations : List (String × Configuration)) :
    m (Except Failure (List (String × String))) := do
  match ← fs.makeDirectories directory with
  | .error cause => return .error (.create directory cause)
  | .ok () => writeEach fs directory listings configurations

end Sequencer
