import LabelHooks.Manual.Pages

/-!
The program that writes the manual: it reads two flags, looks for the root of the project, and
writes the pages that were asked for.
-/

namespace LabelHooks.Manual

structure Request where
  gen : Text := "all"
  outDir : Text := []
deriving DecidableEq, Repr

inductive RequestError where
  | badForm (word : Text)
  | unknown (name : Text)
  | needsValue (name : Text)
  | help
deriving DecidableEq, Repr

namespace RequestError

def message : RequestError → Text
  | .badForm w => ("bad flag syntax: " : Text) ++ w ++ ("\n" : Text)
  | .unknown n => ("flag provided but not defined: -" : Text) ++ n ++ ("\n" : Text)
  | .needsValue n => ("flag needs an argument: -" : Text) ++ n ++ ("\n" : Text)
  | .help => []

end RequestError

namespace Request

private def set? (r : Request) (name value : Text) : Option Request :=
  if name = ("gen" : Text) then some { r with gen := value }
  else if name = ("outdir" : Text) then some { r with outDir := value }
  else none

def read (r : Request) : List Text → Except RequestError Request
  | [] => .ok r
  | word :: words =>
    if word.length < 2 || !Text.hasPrefix "-" word || word = ("--" : Text) then .ok r
    else
      let body := if Text.hasPrefix "--" word then word.drop 2 else word.drop 1
      let (name, value) := body.span (· ≠ byte '=')
      if name.isEmpty || Text.hasPrefix "-" body then .error (.badForm word)
      else if (r.set? name []).isNone then
        .error (if name = ("help" : Text) || name = ("h" : Text) then .help else .unknown name)
      else if !value.isEmpty then read ((r.set? name (value.drop 1)).getD r) words
      else match words with
        | [] => .error (.needsValue name)
        | v :: words => read ((r.set? name v).getD r) words

end Request

private def usage : Text :=
  "Usage of gendocs:
  -gen string
    \twhat to generate: cli, config, all (default \"all\")
  -outdir string
    \toutput directory (defaults based on gen type)
"

structure Result where
  files : Files
  log : Text
  exitCode : Nat

private structure Desk where
  files : Files
  log : Text := []

private abbrev Writing := ExceptT Text (StateM Desk)

private def say (t : Text) : Writing Unit :=
  modify fun d => { d with log := d.log ++ t ++ ("\n" : Text) }

private def change (what : Text) (f : Files → Except FileError Files) : Writing Unit := do
  match f (← get).files with
  | .error e => throw (what ++ e.message)
  | .ok files => modify fun d => { d with files }

private def makeDir (dir : Text) : Writing Unit :=
  change "failed to create output directory: " (·.makeDirs dir)

private def writePage (what dir name page : Text) : Writing Unit :=
  change what (·.write (Path.join [dir, name ++ (".md" : Text)]) page)

private def writeCommands (dir : Text) : Writing Unit := do
  say (("Generating CLI docs to " : Text) ++ dir)
  makeDir dir
  writePage "failed to generate index: " dir "index" indexPage
  say "  Generated index.md"
  commands.forM fun c => do
    writePage (("failed to generate page for " : Text) ++ c.name ++ (": " : Text)) dir c.name
      (commandPage c)
    say (("  Generated " : Text) ++ c.name ++ (".md" : Text))

private def writeConfiguration (dir : Text) : Writing Unit := do
  say (("Generating configuration docs to " : Text) ++ dir)
  makeDir dir
  writePage [] dir "configuration" configurationPage

private def rootFrom (files : Files) : Nat → Text → Option Text
  | 0, _ => none
  | n + 1, dir =>
    if (files.find (Path.join [dir, "go.mod"])).toOption.isSome then some dir
    else if Path.dir dir = dir then none
    else rootFrom files n (Path.dir dir)

private def named (what : Text) (w : Writing Unit) : Writing Unit :=
  tryCatch w fun e => throw (what ++ e)

private def writePages (r : Request) : Writing Unit := do
  let known : List Text := ["cli", "config", "all"]
  if !known.elem r.gen then
    throw (("unknown -gen value: " : Text) ++ r.gen ++ (" (use: cli, config, all)" : Text))
  let files := (← get).files
  match rootFrom files (files.cwd.length + 1) files.cwdPath with
  | none => throw ("failed to find project root: file does not exist" : Text)
  | some root =>
    say (("Project root: " : Text) ++ root)
    let all := r.gen = ("all" : Text)
    let dir (name : Text) : Text :=
      if !r.outDir.isEmpty && !all then r.outDir else Path.join [root, "docs", name]
    if all || r.gen = ("cli" : Text) then
      named "failed to generate CLI docs: " (writeCommands (dir "cli"))
    if all || r.gen = ("config" : Text) then
      named "failed to generate configuration docs: " (writeConfiguration (dir "reference"))
    say "Done!"

def generate (files : Files) (args : List Text) : Result :=
  match Request.read {} args with
  | .error e => ⟨files, e.message ++ usage, if e = .help then 0 else 2⟩
  | .ok r =>
    match (writePages r).run { files } with
    | (.ok _, d) => ⟨d.files, d.log, 0⟩
    | (.error e, d) => ⟨d.files, d.log ++ e ++ ("\n" : Text), 1⟩

end LabelHooks.Manual
