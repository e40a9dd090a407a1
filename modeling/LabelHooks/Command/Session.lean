import LabelHooks.Build.Archive
import LabelHooks.Build.Compiler
import LabelHooks.Command.Locate
import LabelHooks.Config.Loader
import LabelHooks.Report.LogLine
import LabelHooks.Report.Renderer

/-!
The state in which a command runs: files, what has been printed, and what the surroundings know of
time and settings.
-/

namespace LabelHooks

structure Surroundings where
  env : List (Text × Text) := []
  clock : Clock := {}
  runId : Text := []
  builtWith : Text := []

structure Call where
  args : List Text
  stdin : Except Text Text := .ok []
  canceled : Bool := false
  /-- The command at the top; it is not the root when a command is used without the others. -/
  top : Command := .root
  /-- Messages for people go to the streams of the process instead of those of the command. -/
  direct : Bool := false

inductive CommandError where
  | usage (e : UsageError)
  | config (e : ConfigError)
  | openCache (path : Text) (e : Archive.OpenError)
  | noCache
  | build (e : BuildError)
  | store (e : StoreError)
  | stdin (reason : Text)
  | watchNeedsPaths
  | needsOutDir (sources : Nat)
  | report (message : Text)
  | crashed
deriving DecidableEq, Repr

namespace CommandError

def message : CommandError → Text
  | .usage e => e.message
  | .config e => e.message
  | .openCache path e => ("failed to open cache " : Text) ++ path ++ (": " : Text) ++ e.message
  | .noCache => "no cache configured; set build.cache or pass --cache"
  | .build e => e.message
  | .store e => e.message
  | .stdin reason => ("failed to read stdin: " : Text) ++ reason
  | .watchNeedsPaths => "--watch needs file or directory paths"
  | .needsOutDir n =>
    ("found " : Text) ++ Text.ofNat n ++ (" source files; use --out-dir to write them" : Text)
  | .report m => m
  | .crashed => "broken off"

end CommandError

structure Stage where
  files : Files
  out : Text := []
  err : Text := []

abbrev Session := ExceptT CommandError (StateM Stage)

namespace Session

def files : Session Files := return (← get).files

def setFiles (f : Files) : Session Unit := modify fun s => { s with files := f }

def print (t : Text) : Session Unit := modify fun s => { s with out := s.out ++ t }

def printError (t : Text) : Session Unit := modify fun s => { s with err := s.err ++ t }

/-- Records for whoever asks: all of them for the verbose, problems for the others, and nothing
without a log. -/
def log (verbose : Option Bool) (records : List LogRecord) : Session Unit :=
  let shown := records.filter fun r => match verbose with
    | none => false
    | some true => true
    | some false => r.level = .warn || r.level = .error
  printError (shown.flatMap LogRecord.line)

def orFail (f : ε → CommandError) : Except ε α → Session α
  | .ok a => pure a
  | .error e => throw (f e)

def ofBuild : BuildError → CommandError
  | .crashed _ => .crashed
  | e => .build e

end Session
end LabelHooks
