import LabelHooks.Build.Settings
import LabelHooks.Build.Store
import LabelHooks.Files.Tree
import LabelHooks.Grammar.Module
import LabelHooks.Json.Writer
import LabelHooks.Layout.Print
import LabelHooks.Reactive.Pass
import LabelHooks.Reactive.Restore

/-!
Compiling source files: read, desugar and print one file, reuse earlier results, find the files
under given paths, and write what came out.
-/

namespace LabelHooks

structure SourceFile where
  path : Text
  rel : Text
deriving DecidableEq, Repr

structure Output where
  source : SourceFile
  code : Text
  stats : Stats
  /-- What the pass did; nothing is known of it when the output came from the cache. -/
  result : Option Desugared
  cached : Bool
  duration : Duration

inductive BuildError where
  | options (e : OptionError)
  | target (name : Text)
  | rejected (file : Text) (fault : Fault)
  | refused (file : Text) (e : LabelError)
  | invalidOptions (file : Text) (e : OptionError)
  | crashed (file : Text)
  | unreadable (path : Text) (e : FileError)
  | noStat (path : Text) (e : FileError)
  | noOutDir
  | outDir (e : FileError)
  | unwritten (path : Text) (e : FileError)
  | canceled
deriving DecidableEq, Repr

namespace BuildError

private def within (file message : Text) : Text := file ++ (": " : Text) ++ message

def message : BuildError → Text
  | .options e => ("invalid sugar options: " : Text) ++ e.message
  | .target name => Target.unknown name
  | .rejected file f => within file f.message
  | .refused file e => within file e.message
  | .invalidOptions file e => within file e.message
  | .crashed file => within file "broken off"
  | .unreadable path e => ("failed to read " : Text) ++ within path e.message
  | .noStat path e => ("failed to stat " : Text) ++ within path e.message
  | .noOutDir => "no output directory configured"
  | .outDir e => ("failed to create output directory: " : Text) ++ e.message
  | .unwritten path e => ("failed to write " : Text) ++ within path e.message
  | .canceled => "context canceled"

end BuildError

structure Clock where
  now : Instant := 0
  elapsed : Duration := 0
deriving DecidableEq, Repr

structure Compiler where
  options : Options
  build : BuildSettings
  clock : Clock := {}
deriving DecidableEq, Repr

namespace Compiler

def new (options : Options) (build : BuildSettings) (clock : Clock := {}) :
    Except BuildError Compiler :=
  match options.validate with
  | .error e => .error (.options e)
  | .ok _ =>
    let build := build.withDefaults
    match Target.ofName? build.target with
    | none => .error (.target build.target)
    | some _ => .ok { options, build, clock }

def optionsJson (o : Options) : Json :=
  .object [("state_label", .string o.stateLabel), ("watch_label", .string o.watchLabel),
    ("state_factory", .string o.stateFactory), ("effect_factory", .string o.effectFactory),
    ("memo_factory", .string o.memoFactory), ("ignore_member_expr", .bool o.ignoreMembers)]

def fingerprint (c : Compiler) : Text :=
  Json.compact (.object
    [("format", .nat 2), ("sugar", optionsJson c.options), ("target", .string c.build.target),
      ("jsx_factory", .string c.build.jsxFactory), ("jsx_fragment", .string c.build.jsxFragment),
      ("minify", .bool c.build.minify)])

def statsOf (r : Expansions) : Stats :=
  ⟨r.bindings.length, r.mutations, r.wrapped, r.effects, r.memos⟩

private def inFile (file : Text) (r : LogRecord) : LogRecord :=
  { r with attrs := (("file" : Text), file) :: r.attrs }

/-- Compile code that stands for a file, in which the named identifiers had other names before
the code was lowered. -/
def compileLowered (c : Compiler) (file code : Text) (renames : Renames) :
    List LogRecord × Except BuildError Output :=
  match Program.parse code with
  | .error (.crashed _) => ([], .error (.crashed file))
  | .error (.rejected f) => ([], .error (.rejected file f))
  | .ok p =>
    match (p.restoreWatchParams c.options.watchLabel renames).desugar c.options with
    | (log, .error (.options e)) => (log.map (inFile file), .error (.invalidOptions file e))
    | (log, .error (.label e)) => (log.map (inFile file), .error (.refused file e))
    | (log, .ok d) =>
      let stats := statsOf d.expansions
      let compiled : LogRecord := .debug "compiled"
        [("file", file), ("rewrites", Text.ofNat stats.total),
          ("duration", c.clock.elapsed.text)]
      (log.map (inFile file) ++ [compiled],
        .ok { source := ⟨file, Path.base file⟩, code := d.program.format, stats,
              result := some d, cached := false, duration := c.clock.elapsed })

def compileSource (c : Compiler) (file code : Text) : List LogRecord × Except BuildError Output :=
  c.compileLowered file code []

private def cacheProblem (message file : Text) (e : StoreError) : LogRecord :=
  ⟨.warn, message, [("file", file), ("error", e.message)]⟩

/-- The earlier output of a file, if its key is still the same. A store that fails knows
nothing. -/
def lookup (c : Compiler) (store : Store) (src : SourceFile) (path key : Text) :
    List LogRecord × Option Output :=
  match store.get path with
  | .error e => ([cacheProblem "cache lookup failed" src.path e], none)
  | .ok none => ([], none)
  | .ok (some e) =>
    if e.key = key then
      ([.debug "cache hit" [("file", src.path)]],
        some { source := src, code := e.code, stats := e.stats, result := none, cached := true,
               duration := c.clock.elapsed })
    else ([], none)

def remember (c : Compiler) (store : Store) (path key : Text) (out : Output) :
    List LogRecord × Store :=
  match store.put ⟨path, key, out.code, out.stats, c.clock.now⟩ with
  | .error e => ([cacheProblem "cache store failed" out.source.path e], store)
  | .ok store => (if store.quiet then [] else [.debug "stored entry" [("path", path)]], store)

def compileFile (c : Compiler) (files : Files) (cache : Option Store) (src : SourceFile) :
    Option Store × List LogRecord × Except BuildError Output :=
  match files.read src.path with
  | .error e => (cache, [], .error (.unreadable src.path e))
  | .ok content =>
    match cache with
    | none =>
      let (log, out) := c.compileSource src.path content
      (none, log, out.map fun o => { o with source := src })
    | some store =>
      let path := files.abs src.path
      let key := Entry.keyOf c.fingerprint content
      match c.lookup store src path key with
      | (log, some out) => (some store, log, .ok out)
      | (looked, none) =>
        match c.compileSource src.path content with
        | (log, .error e) => (some store, looked ++ log, .error e)
        | (log, .ok out) =>
          let out := { out with source := src }
          let (kept, store) := c.remember store path key out
          (some store, looked ++ log ++ kept, .ok out)

def compileFiles (c : Compiler) (files : Files) (cache : Option Store) :
    List SourceFile → Option Store × List LogRecord × Except BuildError (List Output)
  | [] => (cache, [], .ok [])
  | src :: rest =>
    match c.compileFile files cache src with
    | (cache, log, .error e) => (cache, log, .error e)
    | (cache, log, .ok out) =>
      match c.compileFiles files cache rest with
      | (cache, more, result) => (cache, log ++ more, result.map (out :: ·))

def skipDir (name : Text) : Bool := name = ("node_modules" : Text) || Text.hasPrefix "." name

mutual

def sourcesAt (c : Compiler) (root path : Text) : FileTree → List SourceFile
  | .file _ =>
    if c.build.isSource path then [⟨path, (Path.rel? root path).getD path⟩] else []
  | .directory entries => sourcesIn c root path entries

def sourcesIn (c : Compiler) (root path : Text) :
    List (Text × FileTree) → List SourceFile
  | [] => []
  | (name, t) :: rest =>
    (if t.isDirectory && skipDir name then [] else sourcesAt c root (Path.join [path, name]) t) ++
      sourcesIn c root path rest

end

/-- The sources that a path stands for: a file itself whatever its name, or the sources below a
directory, in the order of their names. -/
def discoverOne (c : Compiler) (files : Files) (path : Text) :
    Except BuildError (List SourceFile) :=
  match files.stat path with
  | .error e => .error (.noStat path e)
  | .ok (.file _) => .ok [⟨path, Path.base path⟩]
  | .ok (.directory entries) => .ok (c.sourcesIn path path entries)

def discover (c : Compiler) (files : Files) : List Text → Except BuildError (List SourceFile)
  | [] => .ok []
  | path :: rest =>
    match c.discoverOne files path with
    | .error e => .error e
    | .ok found => (c.discover files rest).map (found ++ ·)

def outputPath (c : Compiler) (src : SourceFile) : Text :=
  Path.join [c.build.outDir,
    src.rel.take (src.rel.length - (Path.ext src.rel).length) ++ BuildSettings.outExt]

def write (c : Compiler) (files : Files) (out : Output) : Except BuildError Text × Files :=
  if c.build.outDir.isEmpty then (.error .noOutDir, files)
  else
    let path := c.outputPath out.source
    match files.makeDirs (Path.dir path) with
    | .error e => (.error (.outDir e), files)
    | .ok files => match files.write path out.code with
      | .error e => (.error (.unwritten path e), files)
      | .ok files => (.ok path, files)

end Compiler
end LabelHooks
