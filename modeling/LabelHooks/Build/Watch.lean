import LabelHooks.Build.Compiler

/-!
Watching paths: which directories are registered, which changes in them mean a source, and what is
compiled after a round of changes.
-/

namespace LabelHooks

structure WatchedDir where
  location : List Text
  path : Text
deriving DecidableEq, Repr

/-- What is watched: directories as given, files by name, and the directories registered for
them. -/
structure Watch where
  compiler : Compiler
  roots : List Text := []
  files : List Text := []
  dirs : List WatchedDir := []
deriving DecidableEq, Repr

namespace Watch

def relToRoot? (w : Watch) (path : Text) : Option Text :=
  w.roots.findSome? fun root => (Path.rel? root path).bind fun rel =>
    if rel = Path.dotdot || Text.hasPrefix "../" rel then none else some rel

def source? (w : Watch) (name : Text) : Option SourceFile :=
  let name := Path.clean name
  if w.files.contains name then some ⟨name, Path.base name⟩
  else if w.compiler.build.isSource name then (w.relToRoot? name).map (⟨name, ·⟩)
  else none

def watchesTree (w : Watch) (dir : Text) : Bool :=
  let dir := Path.clean dir
  !Compiler.skipDir (Path.base dir) && (w.relToRoot? dir).isSome

def register (w : Watch) (d : WatchedDir) : Watch :=
  { w with dirs := w.dirs.filter (·.location ≠ d.location) ++ [d] }

mutual

def treeAt (location : List Text) (path : Text) : FileTree → List WatchedDir
  | .file _ => []
  | .directory entries => ⟨location, path⟩ :: treeIn location path entries

def treeIn (location : List Text) (path : Text) :
    List (Text × FileTree) → List WatchedDir
  | [] => []
  | (name, t) :: rest =>
    (if Compiler.skipDir name then []
      else treeAt (location ++ [name]) (Path.join [path, name]) t) ++ treeIn location path rest

end

def addTree (w : Watch) (files : Files) (dir : Text) : Watch :=
  match files.locate dir with
  | .error _ => w
  | .ok location => match files.tree.get? location with
    | none => w
    | some t => (treeAt location dir t).foldl register w

def add (w : Watch) (files : Files) (path : Text) : Except BuildError Watch :=
  match files.stat path with
  | .error e => .error (.noStat path e)
  | .ok (.directory _) => .ok ({ w with roots := w.roots ++ [Path.clean path] }.addTree files path)
  | .ok (.file _) =>
    let dir := Path.dir path
    let w := { w with files := w.files ++ [Path.clean path] }
    match files.locate dir with
    | .ok location => .ok (w.register ⟨location, dir⟩)
    | .error c => .error (.noStat dir ⟨"stat", dir, c⟩)

def start (c : Compiler) (files : Files) (paths : List Text) :
    List (Except BuildError Output) × Except BuildError Watch :=
  match c.discover files paths with
  | .error e => ([], .error e)
  | .ok sources =>
    (sources.map fun s => (c.compileFile files none s).2.2,
      paths.foldlM (fun w p => w.add files p) { compiler := c })

structure Changes where
  mkdir : List Text := []
  remove : List Text := []
  chmod : List Text := []
  move : List (Text × Text) := []
  write : List (Text × Text) := []
deriving DecidableEq, Repr

private structure Round where
  files : Files
  watch : Watch
  created : List (List Text)

private def forget (w : Watch) (location : List Text) : Watch :=
  { w with dirs := w.dirs.filter fun d => !location.isPrefixOf d.location }

private def newPlaces (old new : Files) (path : Text) : List (List Text) :=
  match new.locate path with
  | .error _ => []
  | .ok names =>
    ((List.range (names.length + 1)).map names.take).filter fun l => (old.tree.get? l).isNone

private def makeDir (r : Round) (path : Text) : Round :=
  match r.files.makeDirs path with
  | .error _ => r
  | .ok files => { r with files, created := r.created ++ newPlaces r.files files path }

private def removePath (r : Round) (path : Text) : Round :=
  match r.files.locate path with
  | .error _ => r
  | .ok names => { r with files := r.files.remove path, watch := r.watch.forget names }

private def movePath (r : Round) (paths : Text × Text) : Round :=
  match r.files.locate paths.1 with
  | .error _ => r
  | .ok names =>
    let files := r.files.move paths.1 paths.2
    let there := match files.locate paths.2 with
      | .ok l => [l]
      | .error _ => []
    { files, watch := r.watch.forget names, created := r.created ++ there }

private def writePath (r : Round) (file : Text × Text) : Round :=
  match r.files.save file.1 file.2 with
  | .error _ => r
  | .ok files =>
    let there := match files.locate file.1 with
      | .ok l => [l]
      | .error _ => []
    { r with
      files
      created := r.created ++ (newPlaces r.files files file.1).filter (!there.contains ·) ++ there }

private def seenAs? (w : Watch) (location : List Text) : Option Text :=
  match location.getLast? with
  | none => none
  | some name => (w.dirs.find? (·.location = location.dropLast)).map fun d =>
      d.path ++ ("/" : Text) ++ name

private def addPending (s : SourceFile) : List SourceFile → List SourceFile
  | [] => [s]
  | x :: xs =>
    if x.path = s.path then s :: xs
    else if Text.le s.path x.path then s :: x :: xs
    else x :: addPending s xs

private def sort (w : Watch) (files : Files) (names : List Text) : List Text × List SourceFile :=
  names.foldl (fun (dirs, pending) name =>
    if files.isDirectory name && w.watchesTree name then (dirs ++ [name], pending)
    else match w.source? name with
      | none => (dirs, pending)
      | some s => (dirs, addPending s pending)) ([], [])

/-- Make changes; what is watched and compiled because of them. Directories made in this round
are watched from the next one on. -/
def step (w : Watch) (files : Files) (c : Changes) :
    Files × Watch × List (Except BuildError Output) :=
  let r : Round := ⟨files, w, []⟩
  let r := c.mkdir.foldl makeDir r
  let r := c.remove.foldl removePath r
  let r := c.move.foldl movePath r
  let r := c.write.foldl writePath r
  let (dirs, pending) := r.watch.sort r.files (r.created.filterMap r.watch.seenAs?)
  (r.files, dirs.foldl (fun w d => w.addTree r.files d) r.watch,
    pending.map fun s => (w.compiler.compileFile r.files none s).2.2)

/-- The sources in registered directories whose files are new or have another content than
before. -/
def changed (w : Watch) (old new : Files) : List SourceFile :=
  w.dirs.foldl (fun pending d =>
    (((new.tree.get? d.location).map FileTree.entries).getD []).foldl (fun pending (name, t) =>
      let same : Bool := match t, old.tree.get? (d.location ++ [name]) with
        | .file a, some (.file b) => a = b
        | .file _, _ => false
        | .directory _, _ => true
      if same then pending
      else match w.source? (d.path ++ ("/" : Text) ++ name) with
        | none => pending
        | some s => addPending s pending) pending) []

end Watch
end LabelHooks
