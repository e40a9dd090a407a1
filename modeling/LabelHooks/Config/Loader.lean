import LabelHooks.Build.Settings
import LabelHooks.Command.Flag
import LabelHooks.Config.Decode
import LabelHooks.Config.Keys
import LabelHooks.Files.Tree
import LabelHooks.Reactive.Options
import LabelHooks.Report.Mode
import LabelHooks.Yaml.Reader

/-!
The configuration of a run. It is laid together from defaults, a file, the environment and flags,
of which each wins over those before it.
-/

namespace LabelHooks

structure Config where
  options : Options
  build : BuildSettings
  verbose : Bool
  output : Text
  root : Text
  file : Text
deriving DecidableEq, Repr

inductive ConfigError where
  | unreadable (file : Text) (e : FileError)
  | malformed (file : Text)
  | undecodable
  | options (e : OptionError)
  | target (name : Text)
  | output (name : Text)
deriving DecidableEq, Repr

namespace ConfigError

private def inFile (file : Text) : Text := ("error reading config file " : Text) ++ file

private def invalid : Text := "invalid configuration: "

def message : ConfigError → Text
  | .unreadable file e => inFile file ++ (": " : Text) ++ e.message
  | .malformed file => inFile file
  | .undecodable => "unable to decode config"
  | .options e => invalid ++ ("sugar: " : Text) ++ e.message
  | .target name => invalid ++ ("build: " : Text) ++ Target.unknown name
  | .output name =>
    invalid ++ ("unknown output format " : Text) ++ Text.quoted name ++
      (" (want one of auto, text, markdown, json)" : Text)

end ConfigError

namespace Config

def defaultOutput : Text := OutputMode.auto.name

def default : Config :=
  { options := .default
    build := BuildSettings.withDefaults {}
    verbose := false
    output := defaultOutput
    root := []
    file := [] }

def fileNames : List Text := ["labelsugar.yaml", "labelsugar.yml"]

def searchDepth : Nat := 10

private def searchFrom (files : Files) : Nat → Text → Option Text
  | 0, _ => none
  | n + 1, dir =>
    let found := (fileNames.map fun name => Path.join [dir, name]).find? fun p =>
      (files.find p).toOption.isSome
    match found with
    | some p => some p
    | none => if Path.dir dir = dir then none else searchFrom files n (Path.dir dir)

def search (files : Files) : Option Text := searchFrom files searchDepth files.cwdPath

private def defaults : List (Text × Yaml) :=
  let o := Options.default
  [("sugar", .map
      [("state_label", .string o.stateLabel), ("watch_label", .string o.watchLabel),
        ("state_factory", .string o.stateFactory), ("effect_factory", .string o.effectFactory),
        ("memo_factory", .string o.memoFactory), ("ignore_member_expr", .bool o.ignoreMembers)]),
    ("build", .map
      [("target", .string BuildSettings.defaultTarget),
        ("extensions", .list (BuildSettings.defaultExtensions.map .string)),
        ("debounce", .string BuildSettings.defaultDebounce.text)]),
    ("verbose", .bool false), ("output", .string defaultOutput)]

private def ofFile (files : Files) (path : Text) : Except ConfigError (List (Text × Yaml)) :=
  match files.read (Path.clean path) with
  | .error e => .error (.unreadable path e)
  | .ok content => match Yaml.read content with
    | some .null => .ok []
    | some (.map members) => .ok members
    | _ => .error (.malformed path)

def ofEnv (env : List (Text × Text)) : List (Text × Yaml) :=
  env.foldl (fun settings (name, value) =>
    if Text.hasPrefix envStart name && !(envKey name).isEmpty then
      Yaml.putPath settings (Text.splitOn (byte '.') (envKey name)) (.string value)
    else settings) []

private def sectionFlags : List (Text × List Text) :=
  [("state-label", ["sugar", "state_label"]), ("watch-label", ["sugar", "watch_label"]),
    ("state-factory", ["sugar", "state_factory"]),
    ("effect-factory", ["sugar", "effect_factory"]), ("memo-factory", ["sugar", "memo_factory"]),
    ("ignore-member-expr", ["sugar", "ignore_member_expr"]), ("out-dir", ["build", "out_dir"]),
    ("cache", ["build", "cache"]), ("minify", ["build", "minify"]),
    ("target", ["build", "target"]), ("jsx-factory", ["build", "jsx_factory"]),
    ("jsx-fragment", ["build", "jsx_fragment"]), ("concurrency", ["build", "concurrency"]),
    ("extensions", ["build", "extensions"]), ("debounce", ["build", "debounce"])]

private def plainFlags : List Text :=
  ["config", "help", "version", "watch", "format", "stdin-filename", "jsx"]

private def flagPath (name : Text) : List Text :=
  if plainFlags.elem name then []
  else (sectionFlags.lookup name).getD [Text.replace "-" "_" name]

private def flagYaml : FlagValue → Yaml
  | .bool b => .bool b
  | .int i => .int i
  | .text t => .string t
  | .list l => .list (l.map .string)
  | .duration d => .int d

private def ofFlags (flags : List (Text × FlagValue)) : List (Text × Yaml) :=
  flags.foldl (fun settings (name, value) =>
    Yaml.putPath settings (flagPath name) (flagYaml value)) []

private def readOptions (v : Yaml) : Option Options := do
  let s ← v.asSection?
  return { stateLabel := ← (Yaml.field s "state_label").asText?
           watchLabel := ← (Yaml.field s "watch_label").asText?
           stateFactory := ← (Yaml.field s "state_factory").asText?
           effectFactory := ← (Yaml.field s "effect_factory").asText?
           memoFactory := ← (Yaml.field s "memo_factory").asText?
           ignoreMembers := ← (Yaml.field s "ignore_member_expr").asBool? }

private def readBuild (v : Yaml) : Option BuildSettings := do
  let s ← v.asSection?
  let concurrency ← (Yaml.field s "concurrency").asInt?
  return { outDir := ← (Yaml.field s "out_dir").asText?
           cache := ← (Yaml.field s "cache").asText?
           minify := ← (Yaml.field s "minify").asBool?
           target := ← (Yaml.field s "target").asText?
           jsxFactory := ← (Yaml.field s "jsx_factory").asText?
           jsxFragment := ← (Yaml.field s "jsx_fragment").asText?
           concurrency := if concurrency > 0 then some concurrency.toNat else none
           extensions := ← (Yaml.field s "extensions").asList?
           debounce := ← (Yaml.field s "debounce").asDuration? }

private def ofSettings? (settings : List (Text × Yaml)) : Option Config := do
  return { options := ← readOptions (Yaml.field settings "sugar")
           build := ← readBuild (Yaml.field settings "build")
           verbose := ← (Yaml.field settings "verbose").asBool?
           output := ← (Yaml.field settings "output").asText?
           root := []
           file := [] }

def validate (c : Config) : Except ConfigError Unit :=
  match c.options.validate with
  | .error e => .error (.options e)
  | .ok _ =>
    if (Target.ofName? c.build.target).isNone then .error (.target c.build.target)
    else if !OutputMode.isName c.output then .error (.output c.output)
    else .ok ()

/-- A path setting: a flag is meant from the working directory, anything else from the root of the
project. -/
private def settle (files : Files) (flags : List (Text × FlagValue)) (flag value root : Text) :
    Text :=
  match flags.lookup flag with
  | some (.text t) => if t.isEmpty then resolve value root else files.abs t
  | _ => resolve value root

def load (files : Files) (env : List (Text × Text)) (path : Text)
    (flags : List (Text × FlagValue)) : Except ConfigError Config := do
  let file := if path.isEmpty then (search files).getD [] else path
  let inFile ← if file.isEmpty then .ok [] else ofFile files file
  let root := if file.isEmpty then files.cwdPath else Path.dir (files.abs file)
  let settings := [inFile, ofEnv env, ofFlags flags].foldl Yaml.overlay defaults
  match ofSettings? settings with
  | none => .error .undecodable
  | some c =>
    let build := { c.build with
      outDir := settle files flags "out-dir" c.build.outDir root
      cache := settle files flags "cache" c.build.cache root }
    let c := { c with build := build.withDefaults, root, file }
    c.validate
    return c

end Config
end LabelHooks
