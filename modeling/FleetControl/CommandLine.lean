import FleetControl.Pass

/-!
# The command line

What the arguments of the program ask for, and the texts that it answers with.
-/
namespace FleetControl

/-- How the workers are to be run. -/
structure Options where
  /-- The settings file; without one the usual file is read. -/
  config : Option String := none
  /-- Make one pass of every controller and exit. -/
  once : Bool := false
  verbose : Bool := false
  deriving DecidableEq, Repr

inductive Command where
  | run (options : Options)
  | help
  | version
  /-- The arguments make no sense, with the reason. -/
  | refuse (reason : String)
  deriving DecidableEq, Repr

namespace Command

/-- Whether an argument is an option and no value. -/
def isOption (arg : String) : Bool := arg.startsWith "-" && arg != "-"

/-- An option that may be given once was given again. -/
def repeated (option : String) : Command :=
  refuse ("the argument \x27" ++ option ++ "\x27 cannot be used multiple times")

def valueMissing : Command :=
  refuse "a value is required for \x27--config <FILE>\x27 but none was supplied"

def unexpected (arg : String) : Command :=
  refuse ("unexpected argument \x27" ++ arg ++ "\x27 found")

/-- An argument that holds a file beside its option, as the option and the file. -/
def separated (arg : String) : List String :=
  match arg.toList with
  | '-' :: '-' :: 'c' :: 'o' :: 'n' :: 'f' :: 'i' :: 'g' :: '=' :: file
  | '-' :: 'c' :: '=' :: file => ["--config", String.ofList file]
  | '-' :: 'c' :: c :: file => ["--config", String.ofList (c :: file)]
  | _ => [arg]

/-- Read the arguments from the left; the first that ends the reading decides. -/
def ofArguments : List String → Options → Command
  | [], o => run o
  | arg :: args, o =>
      if arg = "--help" ∨ arg = "-h" then help
      else if arg = "--version" ∨ arg = "-V" then version
      else if arg = "--once" then
        if o.once then repeated "--once" else ofArguments args { o with once := true }
      else if arg = "--verbose" ∨ arg = "-v" then
        if o.verbose then repeated "--verbose" else ofArguments args { o with verbose := true }
      else if arg = "--config" ∨ arg = "-c" then
        match args with
        | [] => valueMissing
        | file :: args =>
            if isOption file then valueMissing
            else if o.config.isSome then repeated "--config <FILE>"
            else ofArguments args { o with config := some file }
      else unexpected arg

def helpText : String :=
  "Run the Meridian deployment controllers\n\n"
    ++ "Usage: meridian-control [OPTIONS]\n\n"
    ++ "Options:\n"
    ++ "  -c, --config <FILE>  Path to configuration file\n"
    ++ "      --once           Tick every enabled controller once and exit\n"
    ++ "  -v, --verbose        Enable verbose logging\n"
    ++ "  -h, --help           Print help\n"
    ++ "  -V, --version        Print version"

def versionText : String := "meridian-control 0.1.0"

/-- What is shown for arguments that make no sense. -/
def refusalText (reason : String) : String :=
  "error: " ++ reason ++ "\n\nUsage: meridian-control [OPTIONS]\n\n"
    ++ "For more information, try \x27--help\x27."

end Command

namespace PassReport

/-- A report as a line of the log. -/
def line (controller : String) (r : PassReport) : String :=
  let candidates := r.candidates
  let processed := r.processed
  let contended := r.contended
  let failed := r.failed
  s!"tick complete controller={controller} candidates={candidates} processed={processed} "
    ++ s!"contended={contended} failed={failed}"

end PassReport

end FleetControl
