import LabelHooks.Build.Watch
import LabelHooks.Command.Completion
import LabelHooks.Command.Help
import LabelHooks.Command.Session
import LabelHooks.Repl.Session
import LabelHooks.Report.History
import LabelHooks.Report.Inspection
import LabelHooks.Report.Summary

/-!
What the commands do.
-/

namespace LabelHooks.Command

open Session

def releaseNumber : Text := "0.1.0"

def versionLine : Text :=
  name .root ++ (" " : Text) ++ releaseNumber ++ (" (commit unknown, built unknown)\n" : Text)

private def versionPage (s : Surroundings) : Text :=
  name .root ++ (" v" : Text) ++ releaseNumber ++
    ("\nLabel sugar for React hooks, built with " : Text) ++ s.builtWith ++ ("\n" : Text)

private structure Desk where
  config : Config
  compiler : Compiler
  store : Option Store
  /-- Whether there is a log, and whether it holds everything. -/
  verbose : Option Bool

private def Desk.renderer (d : Desk) : Renderer := { mode := .ofName d.config.output }

private def openStore (verbose : Option Bool) (path : Text) : Session Store := do
  match Archive.openAt (← files) path with
  | .error e => throw (.openCache path e)
  | .ok (store, f) =>
    setFiles f
    log verbose [.debug "opened state database" [("path", path)]]
    return store

private def saveStore (store : Option Store) : Session Unit := do
  match store with
  | none => pure ()
  | some s => setFiles (Archive.save (← files) s)

private def prepare (s : Surroundings) (config : Config) (verbose : Option Bool) :
    Session Desk := do
  let path := config.build.cache
  let store ← if path.isEmpty then pure none else some <$> openStore verbose path
  let compiler ← orFail ofBuild (Compiler.new config.options config.build s.clock)
  return { config, compiler, store, verbose }

private def readStdin (call : Call) : Session Text := orFail .stdin call.stdin

private def compileText (d : Desk) (file source : Text) : Session Output := do
  let (records, result) := d.compiler.compileSource file source
  log d.verbose records
  orFail ofBuild result

private def startRun (s : Surroundings) (d : Desk) : Session Desk := do
  match d.store with
  | none => return d
  | some store =>
    log d.verbose
      [.debug "creating run" [("id", s.runId), ("command", name .transform)]]
    match store.createRun s.runId (name .transform) s.clock.now with
    | .error e =>
      log d.verbose [⟨.warn, "failed to record run", [("error", e.message)]⟩]
      return d
    | .ok (_, store) => return { d with store := some store }

private def finishRun (s : Surroundings) (d : Desk) (sources : Nat)
    (result : Except CommandError (List Output)) : Session Desk := do
  match d.store with
  | none => return d
  | some store =>
    let (status, cached, error) : Text × Nat × Text := match result with
      | .ok outs => ("completed", (outs.filter (·.cached)).length, [])
      | .error e => ("failed", 0, e.message)
    let done := s.clock.now + s.clock.elapsed / Duration.millisecond
    match store.completeRun s.runId status sources cached error done with
    | .error e =>
      log d.verbose [⟨.warn, "failed to complete run", [("id", s.runId), ("error", e.message)]⟩]
      return d
    | .ok store => return { d with store := some store }

private def writeAll (d : Desk) : List Output → Session (Except BuildError Unit)
  | [] => return .ok ()
  | o :: rest => do
    let (result, f) := d.compiler.write (← files) o
    setFiles f
    match result with
    | .error e => return .error e
    | .ok _ => writeAll d rest

private def compileAll (call : Call) (d : Desk) (sources : List SourceFile) :
    Session (Desk × Except CommandError (List Output)) := do
  if call.canceled && !sources.isEmpty then return (d, .error (.build .canceled))
  let (store, records, result) := d.compiler.compileFiles (← files) d.store sources
  log d.verbose records
  let d := { d with store }
  match result with
  | .error e => return (d, .error (ofBuild e))
  | .ok outs =>
    if d.compiler.build.outDir.isEmpty then return (d, .ok outs)
    match ← writeAll d outs with
    | .error e => return (d, .error (ofBuild e))
    | .ok _ => return (d, .ok outs)

private def watchOne (d : Desk) (src : SourceFile) : Session Desk := do
  let (store, records, result) := d.compiler.compileFile (← files) d.store src
  log d.verbose records
  let d := { d with store }
  match result with
  | .error (.crashed _) => throw .crashed
  | .error e => printError (d.renderer.error e.message)
  | .ok out =>
    let (written, f) := d.compiler.write (← files) out
    setFiles f
    match written with
    | .error e => printError (d.renderer.error e.message)
    | .ok path =>
      log d.verbose [.debug "wrote output" [("path", path)]]
      print (d.renderer.statusLine out.source.rel "success" (Summary.detail out))
  return d

private def runWatch (d : Desk) (paths : List Text) (sources : List SourceFile) : Session Unit := do
  print (d.renderer.muted (("Watching " : Text) ++ Text.ofNat paths.length ++
    (" path(s), writing to " : Text) ++ d.compiler.build.outDir ++ (" (Ctrl+C to stop)" : Text)))
  let d ← sources.foldlM watchOne d
  saveStore d.store

private def transformFiles (s : Surroundings) (call : Call) (d : Desk) (args : Arguments) :
    Session Unit := do
  let sources ← orFail ofBuild (d.compiler.discover (← files) args.rest)
  let outDir := d.compiler.build.outDir
  if outDir.isEmpty && (sources.length ≠ 1 || args.isOn "watch") then
    throw (.needsOutDir sources.length)
  if args.isOn "watch" then runWatch d args.rest sources
  else
    let d ← startRun s d
    let (d, result) ← compileAll call d sources
    let d ← finishRun s d sources.length result
    saveStore d.store
    let outs ← orFail id result
    if outDir.isEmpty then print (outs.flatMap Output.code)
    else print (Summary.render d.compiler outs d.renderer)

private def runTransform (s : Surroundings) (call : Call) (config : Config) (verbose : Option Bool)
    (args : Arguments) : Session Unit := do
  let d ← prepare s config verbose
  if args.rest.isEmpty || args.rest = [("-" : Text)] then
    if args.isOn "watch" then throw .watchNeedsPaths
    let source ← readStdin call
    let out ← compileText d (args.text "stdin-filename" stdinName) source
    print out.code
  else transformFiles s call d args

private def runInspect (s : Surroundings) (call : Call) (config : Config) (verbose : Option Bool)
    (args : Arguments) : Session Unit := do
  let d ← prepare s config verbose
  let path := args.rest.headD []
  let out ←
    if path = ("-" : Text) then compileText d stdinName (← readStdin call)
    else
      let _ ← orFail (fun e => .build (.noStat path e)) ((← files).stat path)
      let (store, records, result) := d.compiler.compileFile (← files) d.store ⟨path, path⟩
      log d.verbose records
      saveStore store
      orFail ofBuild result
  match Inspection.ofOutput? out with
  | none => throw .crashed
  | some report =>
    let given := args.text "format" []
    let format := if given.isEmpty then Inspection.formatFor d.renderer.effectiveMode else given
    print (← orFail .report (report.render d.renderer format))

def say (verbose : Option Bool) (r : Repl.Response) : Session Unit := do
  log verbose r.log
  if r.crashed then throw .crashed
  print r.out
  printError r.err

private def runRepl (s : Surroundings) (call : Call) (config : Config) (verbose : Option Bool)
    (args : Arguments) : Session Unit := do
  let d ← prepare s config verbose
  let file : Text := if args.isOn "jsx" then "repl.jsx" else "repl.js"
  let input := match call.stdin with
    | .ok t => t
    | .error _ => []
  (Repl.events input).forM fun e => say d.verbose (Repl.respond d.config d.compiler file e)

private def openCache (config : Config) (verbose : Option Bool) : Session Store := do
  if config.build.cache.isEmpty then throw .noCache
  openStore verbose config.build.cache

private def listRuns (config : Config) (verbose : Option Bool) (args : Arguments) :
    Session Unit := do
  let store ← openCache config verbose
  let runs ← orFail .store (store.listRuns (args.int "limit" runLimit))
  print (History.render runs { mode := .ofName config.output })

private def clearCache (config : Config) (verbose : Option Bool) : Session Unit := do
  let store ← openCache config verbose
  let (n, store) ← orFail .store store.clear
  saveStore store
  let r : Renderer := { mode := .ofName config.output }
  print (r.success (("Removed " : Text) ++ Text.ofNat n ++ (" cached file(s) from " : Text) ++
    store.path))

private def tell (call : Call) (t : Text) : Session Unit :=
  if call.direct then printError t else print t

private def backquoted (t : Text) : Text :=
  let fits := t.isUtf8 && t.runes.all fun r =>
    r.code ≠ 0x60 && r.code ≠ 0x7F && r.code ≠ 0xFEFF && (r.code ≥ 0x20 || r.code = 9)
  if fits then ("\x60" : Text) ++ t ++ ("\x60" : Text) else Text.quoted t

private def showHelp (call : Call) (args : List Text) : Session Unit := do
  match locate call.top args with
  | .ok (c, _) => print (helpPage call.top c)
  | .error _ =>
    tell call (("Unknown help topic [" : Text) ++ Text.join " " (args.map backquoted) ++
      ("]\n" : Text) ++ usagePage call.top call.top)

private def runCompletion (call : Call) (meanings : Bool) (words : List Text) : Session Unit := do
  match words.getLast? with
  | none => throw (.usage (.tooFew 1 0))
  | some word =>
    let c := Completion.complete call.top words.dropLast word
    match c.problem with
    | some p => if call.direct then printError (("[Error] " : Text) ++ p ++ ("\n" : Text))
    | none => pure ()
    print (c.text meanings)
    printError c.note

private def loadConfig (s : Surroundings) (args : Arguments) : Session Config := do
  orFail .config (Config.load (← files) s.env (args.text "config" []) args.set)

/-- Run a command whose arguments are in order. Under the root, the configuration is loaded before
any command and there is a log. -/
private def runChecked (s : Surroundings) (call : Call) (c : Command) (args : Arguments) :
    Session Unit := do
  match c with
  | .help => showHelp call args.rest
  | .completion | .root | .cache => pure ()
  | _ =>
    let config ← loadConfig s args
    let verbose := if call.top = .root then some config.verbose else none
    if !config.file.isEmpty then
      let used : LogRecord := ⟨.info, "using config file", [("path", config.file)]⟩
      log verbose [used]
    match c with
    | .version => print (versionPage s)
    | .transform => runTransform s call config verbose args
    | .inspect => runInspect s call config verbose args
    | .repl => runRepl s call config verbose args
    | .runs => listRuns config verbose args
    | .clear => clearCache config verbose
    | _ => pure ()

private def runCommand (s : Surroundings) (call : Call) (c : Command) (words : List Text) :
    Session Unit := do
  let args ← orFail (.usage ∘ .flags) (Arguments.read (flags call.top c) words)
  if args.isOn "help" then print (helpPage call.top c)
  else if args.isOn "version" then print versionLine
  else if !c.isRunnable then print (helpPage call.top c)
  else
    orFail .usage (checkArguments call.top c args.rest)
    runChecked s call c args

private def completionRequest? (top : Command) (words : List Text) : Option (Bool × List Text) :=
  let known := declaredFlags top top
  match operandsAmong known words with
  | [] => none
  | w :: _ =>
    if w = Completion.request then some (true, dropOperand known w words)
    else if w = Completion.plainRequest then some (false, dropOperand known w words)
    else none

def session (s : Surroundings) (call : Call) : Session Unit := do
  match completionRequest? call.top call.args with
  | some (meanings, words) => runCompletion call meanings words
  | none =>
    let (c, words) ← orFail .usage (locate call.top call.args)
    runCommand s call c words

structure Outcome where
  files : Files
  out : Text
  err : Text
  result : Except CommandError Unit

def run (s : Surroundings) (files : Files) (call : Call) : Outcome :=
  let (result, stage) := (session s call).run { files }
  { files := stage.files, out := stage.out, err := stage.err, result }

def readsStdin (call : Call) : Bool :=
  match locate call.top call.args with
  | .error _ => false
  | .ok (c, words) => match Arguments.read (flags call.top c) words with
    | .error _ => false
    | .ok args => match c with
      | .transform => args.rest.isEmpty || args.rest = [("-" : Text)]
      | .inspect => args.rest = [("-" : Text)]
      | .repl => true
      | _ => false

/-- What goes on being watched after the first round of a use of the program, and under which
configuration. -/
def watching? (s : Surroundings) (files : Files) (call : Call) : Option (Config × Watch) :=
  match locate call.top call.args with
  | .ok (.transform, words) => do
    let args ← (Arguments.read (flags call.top .transform) words).toOption
    if !args.isOn "watch" then none
    let config ← (Config.load files s.env (args.text "config" []) args.set).toOption
    let compiler ← (Compiler.new config.options config.build s.clock).toOption
    let w ← (args.rest.foldlM (fun (w : Watch) p => w.add files p) { compiler }).toOption
    return (config, w)
  | _ => none

private def watchChanges (config : Config) (w : Watch) (old : Files) : Session Unit := do
  let verbose := some config.verbose
  let path := config.build.cache
  let store ← if path.isEmpty then pure none else some <$> openStore none path
  let d : Desk := { config, compiler := w.compiler, store, verbose }
  let d ← (w.changed old (← files)).foldlM (fun d src => do
    log verbose [⟨.info, "change detected", [("file", src.path)]⟩]
    watchOne d src) d
  saveStore d.store

def watchRound (config : Config) (w : Watch) (old new : Files) : Outcome :=
  let (result, stage) := (watchChanges config w old).run { files := new }
  { files := stage.files, out := stage.out, err := stage.err, result }

def Outcome.exitCode (o : Outcome) : Nat :=
  match o.result with
  | .ok _ => 0
  | .error _ => 1

def Outcome.diagnostics (o : Outcome) : Text :=
  match o.result with
  | .ok _ => o.err
  | .error e => o.err ++ ("Error: " : Text) ++ e.message ++ ("\n" : Text)

end LabelHooks.Command
