import Std.Time.DateTime.Timestamp
import FleetControl.CommandLine
import FleetControl.Config.Load
import FleetControl.Service

/-!
# The program

Reads the arguments and the settings and runs the workers, once or for good. All
decisions are made elsewhere; here are only the files, the clock and the output.
-/
namespace FleetControl

/-- The settings file that is read when none is named. -/
def usualFile : String := "control.toml"

/-- What the names of overriding variables start with. -/
def variablePrefix : String := "MERIDIAN_CONTROL_"

/-- The variables that are set, without what their names start with. -/
def readVariables : IO (List (String × String)) :=
  Config.variableNames.filterMapM fun name => do
    let value ← IO.getEnv (variablePrefix ++ name)
    pure (value.map fun text => (name, text))

/-- The text of a file; a file that cannot be read counts as absent. -/
def readFile? (file : String) : IO (Option String) := do
  try
    let text ← IO.FS.readFile file
    pure (some text)
  catch _ => pure none

/-- The configuration of a named file, which must fit, or of the usual file or
else the defaults. -/
def readConfig (named : Option String) : IO (Outcome (Option Config)) := do
  let overrides ← readVariables
  let text ← readFile? (named.getD usualFile)
  pure ((Config.load text overrides).map fun loaded =>
    if named.isSome then loaded else some (loaded.getD {}))

/-- A number that nobody can foresee. -/
def randomSeed : IO Nat := do
  let bytes ← IO.getRandomBytes 8
  pure (bytes.toList.foldl (fun n b => n * 256 + b.toNat) 0)

/-- The wall clock. -/
def readInstant : IO Instant := do
  let now ← Std.Time.Timestamp.now
  pure (Instant.ofMillis now.toMillisecondsSinceUnixEpoch.val)

def printReports (reports : List (String × PassReport)) : IO Unit :=
  reports.forM fun (name, report) => IO.println (report.line name)

/-- Make every pass when it is due. A controller whose pass crashes makes no more. -/
partial def keepPassing (due : List (Nat × Scheduled)) (w : World) (verbose : Bool) : IO Unit := do
  match Scheduled.next? due with
  | none => pure ()
  | some ((millis, worker), others) =>
      let now ← IO.monoMsNow
      if now < millis then IO.sleep (millis - now).toUInt32
      let clock ← readInstant
      let (report, w) := worker.controller.pass.run World.answer { w with clock := clock }
      let started ← IO.monoMsNow
      match report with
      | .ok report =>
          if verbose || 0 < report.failed then IO.println (report.line worker.name)
          (← IO.getStdout).flush
          keepPassing (others ++ [(max millis started + worker.every * 1000, worker)])
            w.deliver verbose
      | .error _ => keepPassing others w.deliver verbose

/-- What is shown when a fault ends the program. -/
def faultText : Fault → String
  | .error e => "error: " ++ e.message
  | .crash payload => "crash: " ++ payload.getD "no message"

/-- The exit status of a crash. -/
def crashStatus : UInt32 := 101

/-- Run the workers of a configuration. -/
def runWorkers (options : Options) (c : Config) : IO UInt32 := do
  let clock ← readInstant
  let seed ← randomSeed
  if options.once then
    match Service.runOnce c clock seed with
    | .ok reports =>
        printReports reports
        pure 0
    | .error fault =>
        IO.eprintln (faultText fault)
        pure 1
  else
    match Service.start c clock seed with
    | .ok world =>
        let now ← IO.monoMsNow
        keepPassing (c.workers.map fun worker => (now, worker)) world options.verbose
        pure 0
    | .error e =>
        IO.eprintln ("error: " ++ e.message)
        pure 1

/-- Do what the arguments ask for. -/
def runCommand : Command → IO UInt32
  | .help => do
      IO.println Command.helpText
      pure 0
  | .version => do
      IO.println Command.versionText
      pure 0
  | .refuse reason => do
      IO.eprintln (Command.refusalText reason)
      pure 2
  | .run options => do
      match ← readConfig options.config with
      | .ok (some c) => runWorkers options c
      | .ok none =>
          IO.eprintln "error: configuration error"
          pure 1
      | .error fault =>
          IO.eprintln (faultText fault)
          pure crashStatus

end FleetControl

def main (args : List String) : IO UInt32 :=
  FleetControl.runCommand
    (FleetControl.Command.ofArguments (args.flatMap FleetControl.Command.separated) {})
