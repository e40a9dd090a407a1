import LabelHooks.Command.Run
import LabelHooks.Manual.Pages

/-!
The program. It reads the files that may be needed, runs the command on them, writes the files that
have changed, and prints.
-/

namespace LabelHooks.Program

private def string (t : Text) : String := (String.fromUTF8? ⟨t.toArray⟩).getD ""

private def isSkipped (name : String) : Bool := name = "node_modules" || name = ".git"

private partial def loadTree (depth : Nat) (path : String) : IO (Option FileTree) := do
  try
    let place ← IO.FS.realPath path
    if !(← place.isDir) then return some (.file (← IO.FS.readBinFile path).toList)
    if depth = 0 then return none
    let mut tree := FileTree.empty
    for e in ← place.readDir do
      if !isSkipped e.fileName then
        if let some t ← loadTree (depth - 1) e.path.toString then
          tree := tree.set t [Text.ofString e.fileName]
    return some tree
  catch _ => return none

private def namedIn (words : List Text) : List Text :=
  words.flatMap fun w => [w, (w.dropWhile (· ≠ byte '=')).drop 1]

private def configsAbove (cwd : List Text) : List Text :=
  (List.range (cwd.length + 1)).flatMap fun n =>
    Config.fileNames.map fun name => Path.join (("/" : Text) :: cwd.take n ++ [name])

private def loadFiles (cwd : List Text) (names : List Text) : IO Files := do
  let mut files : Files := ⟨.empty, cwd⟩
  for p in files.cwdPath :: configsAbove cwd ++ names.map files.abs do
    if (files.find p).toOption.isNone then
      if let some t ← loadTree 64 (string p) then
        files := { files with tree := files.tree.set t (Path.parts p) }
  return files

private def saveFiles (old new : Files) : IO Unit := do
  for p in new.tree.pathsFrom [] do
    match old.read p, new.read p with
    | .ok a, .ok b => if a ≠ b then IO.FS.writeBinFile (string p) ⟨b.toArray⟩
    | .error _, .ok b =>
      IO.FS.createDirAll (string (Path.dir p))
      IO.FS.writeBinFile (string p) ⟨b.toArray⟩
    | _, .error _ => pure ()

private partial def readAll (stream : IO.FS.Stream) (acc : ByteArray) : IO ByteArray := do
  let chunk ← stream.read 65536
  if chunk.isEmpty then return acc else readAll stream (acc ++ chunk)

private def readStdin : IO (Except Text Text) := do
  try return .ok (← readAll (← IO.getStdin) .empty).toList
  catch e => return .error (Text.ofString (toString e))

private def readEnv : IO (List (Text × Text)) := do
  let mut env := []
  for key in Manual.keys do
    let name := Config.envName key
    if let some value ← IO.getEnv (string name) then env := env ++ [(name, Text.ofString value)]
  return env

private def startTime : IO Instant := do
  try
    let t := (← (← IO.FS.realPath "/proc/self").metadata).modified
    return t.sec * 1000 + t.nsec.toNat / 1000000
  catch _ => return 0

private def freshId : IO Text := do
  return (← IO.getRandomBytes 16).toList.flatMap fun b => Text.hex 2 b.toNat

private def write (stream : IO.FS.Stream) (t : Text) : IO Unit := do
  stream.write ⟨t.toArray⟩
  stream.flush

private partial def watchOn (config : Config) (cwd names : List Text) (w : Watch) (old : Files)
    (again : Files → Option Watch) : IO Unit := do
  IO.sleep (config.build.debounce / Duration.millisecond).toNat.toUInt32
  let new ← loadFiles cwd names
  let o := Command.watchRound config w old new
  saveFiles new o.files
  write (← IO.getStdout) o.out
  write (← IO.getStderr) o.err
  watchOn config cwd names ((again o.files).getD w) o.files again

def run (args : List String) : IO UInt32 := do
  let words := args.map Text.ofString
  let env ← readEnv
  let cwd := Path.parts (Text.ofString (← IO.currentDir).toString)
  let names := namedIn words ++ env.map Prod.snd
  let files ← loadFiles cwd names
  let surroundings : Surroundings :=
    { env, clock := { now := ← startTime }, runId := ← freshId, builtWith := "Lean 4" }
  let call : Call := { args := words, direct := true }
  let stdin ← if Command.readsStdin call then readStdin else pure (.ok [])
  let call := { call with stdin }
  let o := Command.run surroundings files call
  saveFiles files o.files
  write (← IO.getStdout) o.out
  write (← IO.getStderr) o.diagnostics
  if o.exitCode = 0 then
    if let some (config, w) := Command.watching? surroundings o.files call then
      watchOn config cwd names w o.files fun f =>
        (Command.watching? surroundings f call).map Prod.snd
  return o.exitCode.toUInt32

end LabelHooks.Program

def main (args : List String) : IO UInt32 := LabelHooks.Program.run args
