import Sequencer.Configuration

/-!
# The log of a compilation

What a compilation reports on its way, in order, up to its end or its first error. The log is a
function of the same input as the compilation and does not take part in it.

## Main definitions

* `LogRecord` — a message with its level and the part of the compiler that it comes from
* `Schedule.log` — the log of a compilation
-/

namespace Sequencer

/-- How important a message is. -/
inductive LogLevel where
  | debug
  | info
  | warning
deriving DecidableEq

/-- The part of the compiler that a message comes from. -/
inductive LogSource where
  /-- Splitting durations. -/
  | encoder
  /-- Collecting placements. -/
  | placement
  /-- Programs of single resources. -/
  | program
  /-- The compilation as a whole. -/
  | compilation
  /-- The command and its files. -/
  | command
deriving DecidableEq

/-- The name of a level. -/
def LogLevel.name : LogLevel → String
  | .debug => "DEBUG"
  | .info => "INFO"
  | .warning => "WARN"

/-- A message of the log. -/
structure LogRecord where
  level : LogLevel
  source : LogSource
  message : String

/-- The log writes frequencies positionally from `0.0001` up to sixteen digits before the point,
always with a point, and scientifically without a sign on positive exponents otherwise. -/
def logNumber : NumberFormat where
  tie := .up
  positional := fun e => decide (-4 ≤ e ∧ e ≤ 15)
  keepPoint := true
  plusSign := false

/-- An optional frequency in the log. -/
def describeFrequency : Option Float → String
  | some x => "Some(" ++ logNumber.write x ++ ")"
  | none => "None"

/-- The message of a setting that was changed. -/
def Settings.Change.record (c : Settings.Change) : LogRecord where
  level := .warning
  source := .compilation
  message := "Compiler setting `" ++ c.setting.map Char.toUpper ++ "` is sanitized from '"
    ++ c.before ++ "' to '" ++ c.after ++ "'. Reason: " ++ c.reason

/-- What is reported about a placement: a change of the oscillator's frequency. -/
def Track.report (t : Track) (p : Placement) : List LogRecord :=
  match t.tune p with
  | .error _ => []
  | .ok frequency =>
    if frequency == t.frequency then []
    else
      [⟨.debug, .placement, "Resource '" ++ p.channel ++ "' adopts NCO frequency "
        ++ describeFrequency frequency ++ " Hz"⟩]

/-- What is reported while placements are collected. -/
def Compilation.log (library : WaveformLibrary Float) (c : Compilation) :
    List (Except CompileError Placement) → List LogRecord
  | [] => []
  | .error _ :: _ => []
  | .ok p :: rest =>
    (c.track p.channel p.resource).report p
      ++ match c.add Track.tune library p with
        | .ok c => c.log library rest
        | .error _ => []

/-- What is reported about a step that was carried out: a duration that was split. -/
def Step.report (t : Traits) : Step → List LogRecord
  | .emit _ operation =>
    match operation.duration? with
    | none => []
    | some duration =>
      let count := (chunks t.immediateMax duration).length
      if count ≤ 1 then []
      else
        [⟨.debug, .encoder, "Splitting duration " ++ toString duration ++ " into " ++ toString count
          ++ " instructions"⟩]
  | .fail _ => []

/-- What is reported while a plan is carried out. -/
def Step.log (p : Program) : List Step → List LogRecord
  | [] => []
  | step :: rest =>
    match step.perform.run p with
    | .ok _ q => step.report p.traits ++ Step.log q rest
    | .error _ _ => []

/-- What is reported about the program of a resource. -/
def CompiledResource.log (r : CompiledResource) (duration : Int) (settings : Settings)
    (diagnostics : Bool) : List LogRecord :=
  Step.log (Program.empty r.traits) (r.plan duration settings)
    ++ match r.program duration settings with
      | .ok p =>
        if diagnostics then
          [⟨.info, .program, "Resource '" ++ r.name ++ "': " ++ toString p.instructionCount
            ++ " instructions, " ++ toString p.duration ++ " samples"⟩]
        else []
      | .error _ => []

/-- What is reported about the programs of resources; none is begun after an error. -/
def CompiledResource.logAll (duration : Int) (settings : Settings) (diagnostics : Bool) :
    List CompiledResource → List LogRecord
  | [] => []
  | r :: rest =>
    r.log duration settings diagnostics
      ++ match r.program duration settings with
        | .ok _ => logAll duration settings diagnostics rest
        | .error _ => []

/-- The log of a compilation. Summaries are included only if diagnostics are asked for. -/
def Schedule.log (s : Schedule) (library : WaveformLibrary Float) (settings : Settings)
    (diagnostics : Bool) : List LogRecord :=
  match settings.sanitize with
  | .error _ => []
  | .ok (changes, settings) =>
    changes.map Settings.Change.record
      ++ Compilation.start.log library (s.placements settings)
      ++ match s.compile library settings with
        | .error _ => []
        | .ok compiled =>
          (if diagnostics then
            [⟨.info, .compilation,
              "Schedule '" ++ s.name ++ "': " ++ toString compiled.resources.length
              ++ " resources, sequence duration " ++ toString compiled.duration ++ " samples, "
              ++ toString compiled.acquisitions.length ++ " acquisitions"⟩]
          else [])
            ++ CompiledResource.logAll compiled.duration settings diagnostics compiled.resources

end Sequencer
