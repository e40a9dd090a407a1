import LabelHooks.Path.Basic

/-!
A tree of files, and the operations on it by path: look, read, write, make directories, remove and
move. A path is followed part by part, so that every part before the last must be a directory.
-/

namespace LabelHooks

inductive FileTree where
  | file (content : Text)
  | directory (entries : List (Text × FileTree))

namespace FileTree

def empty : FileTree := .directory []

def isDirectory : FileTree → Bool
  | .file _ => false
  | .directory _ => true

def entries : FileTree → List (Text × FileTree)
  | .file _ => []
  | .directory es => es

def entry? (t : FileTree) (name : Text) : Option FileTree := t.entries.lookup name

def get? (t : FileTree) : List Text → Option FileTree
  | [] => some t
  | name :: names => (t.entry? name).bind fun s => s.get? names

private def putEntry (name : Text) (sub : FileTree) :
    List (Text × FileTree) → List (Text × FileTree)
  | [] => [(name, sub)]
  | (n, s) :: rest =>
    if n = name then (name, sub) :: rest
    else if Text.le name n then (name, sub) :: (n, s) :: rest
    else (n, s) :: putEntry name sub rest

def set (t sub : FileTree) : List Text → FileTree
  | [] => sub
  | name :: names =>
    .directory (putEntry name (((t.entry? name).getD empty).set sub names) t.entries)

def erase (t : FileTree) : List Text → FileTree
  | [] => t
  | [name] => .directory (t.entries.filter (·.1 ≠ name))
  | name :: names => match t.entry? name with
    | none => t
    | some s => .directory (putEntry name (s.erase names) t.entries)

mutual

def pathsFrom (path : Text) : FileTree → List Text
  | .file _ => [path]
  | .directory entries => entryPaths path entries

private def entryPaths (path : Text) : List (Text × FileTree) → List Text
  | [] => []
  | (name, t) :: rest => t.pathsFrom (path ++ Path.slash :: name) ++ entryPaths path rest

end

end FileTree

inductive FileCause where
  | missing | notDirectory | isDirectory | occupied | nameTooLong | invalid
deriving DecidableEq, Repr

namespace FileCause

def message : FileCause → Text
  | .missing => "no such file or directory"
  | .notDirectory => "not a directory"
  | .isDirectory => "is a directory"
  | .occupied => "file exists"
  | .nameTooLong => "file name too long"
  | .invalid => "invalid argument"

end FileCause

structure FileError where
  operation : Text
  path : Text
  cause : FileCause
deriving DecidableEq, Repr

namespace FileError

def message (e : FileError) : Text :=
  e.operation ++ (" " : Text) ++ e.path ++ (": " : Text) ++ e.cause.message

end FileError

structure Files where
  tree : FileTree
  cwd : List Text

namespace Files

def cwdPath (f : Files) : Text := Path.slash :: Text.join [Path.slash] f.cwd

def abs (f : Files) (p : Text) : Text :=
  if Path.isAbs p then Path.clean p else Path.join [f.cwdPath, p]

def tooLong (p : Text) : Bool := p.length ≥ 4096

def follow (t : FileTree) (at_ : List Text) : List Text → Except FileCause (List Text)
  | [] => .ok at_
  | part :: parts =>
    match t.get? at_ with
    | none => .error .missing
    | some (.file _) => .error .notDirectory
    | some (.directory es) =>
      if part.isEmpty || part = Path.dot then follow t at_ parts
      else if part = Path.dotdot then follow t at_.dropLast parts
      else if part.length > 255 then .error .nameTooLong
      else if (es.lookup part).isSome then follow t (at_ ++ [part]) parts
      else .error .missing

def locate (f : Files) (p : Text) : Except FileCause (List Text) :=
  if p.any (· = 0) then .error .invalid
  else if p.isEmpty then .error .missing
  else if tooLong p then .error .nameTooLong
  else follow f.tree (if Path.isAbs p then [] else f.cwd) (Text.splitOn Path.slash p)

def find (f : Files) (p : Text) : Except FileCause FileTree :=
  match f.locate p with
  | .error e => .error e
  | .ok names => match f.tree.get? names with
    | none => .error .missing
    | some t => .ok t

private def splitLast (p : Text) : Text × Text :=
  let last := (p.reverse.takeWhile (· ≠ Path.slash)).reverse
  (p.take (p.length - last.length), last)

private def place (f : Files) (p : Text) : Except FileCause (List Text) :=
  let (parent, last) := splitLast p
  let dir := if parent.isEmpty then .ok f.cwd else f.locate parent
  if p.any (· = 0) then .error .invalid
  else match dir with
    | .error e => .error e
    | .ok names =>
      if p.isEmpty then .error .missing
      else if tooLong p || last.length > 255 then .error .nameTooLong
      else match f.tree.get? names with
        | some (.directory _) => .ok (names ++ [last])
        | some (.file _) => .error .notDirectory
        | none => .error .missing

def isDirectory (f : Files) (p : Text) : Bool :=
  match f.find p with
  | .ok t => t.isDirectory
  | .error _ => false

def stat (f : Files) (p : Text) : Except FileError FileTree :=
  (f.find p).mapError fun c => ⟨"stat", p, c⟩

def read (f : Files) (p : Text) : Except FileError Text :=
  match f.find p with
  | .error c => .error ⟨"open", p, c⟩
  | .ok (.directory _) => .error ⟨"read", p, .isDirectory⟩
  | .ok (.file t) => .ok t

def write (f : Files) (p content : Text) : Except FileError Files :=
  match f.find p with
  | .ok (.directory _) => .error ⟨"open", p, .isDirectory⟩
  | .ok (.file _) => match f.locate p with
    | .ok names => .ok { f with tree := f.tree.set (.file content) names }
    | .error c => .error ⟨"open", p, c⟩
  | .error .missing =>
    if Text.hasSuffix [Path.slash] p then .error ⟨"open", p, .isDirectory⟩
    else match f.place p with
      | .ok names => .ok { f with tree := f.tree.set (.file content) names }
      | .error c => .error ⟨"open", p, c⟩
  | .error c => .error ⟨"open", p, c⟩

def makeDir (f : Files) (p : Text) : Except FileError Files :=
  match f.find p with
  | .ok _ => .error ⟨"mkdir", p, .occupied⟩
  | .error .missing => match f.place (Text.trimRight (· = Path.slash) p) with
    | .ok names => .ok { f with tree := f.tree.set .empty names }
    | .error c => .error ⟨"mkdir", p, c⟩
  | .error c => .error ⟨"mkdir", p, c⟩

private def parentOf (p : Text) : Text :=
  (splitLast (Text.trimRight (· = Path.slash) p)).1.dropLast

private def makeDirsFrom : Nat → Files → Text → Except FileError Files
  | 0, f, p => f.makeDir p
  | depth + 1, f, p =>
    match f.find p with
    | .ok (.directory _) => .ok f
    | .ok (.file _) => .error ⟨"mkdir", p, .notDirectory⟩
    | .error _ =>
      let parent := parentOf p
      let made := if parent.isEmpty then .ok f else makeDirsFrom depth f parent
      match made with
      | .error e => .error e
      | .ok f => match f.makeDir p with
        | .ok f => .ok f
        | .error e => if f.isDirectory p then .ok f else .error e

def makeDirs (f : Files) (p : Text) : Except FileError Files :=
  makeDirsFrom p.length f p

def save (f : Files) (p content : Text) : Except FileError Files :=
  match f.makeDirs (Path.dir p) with
  | .error e => .error e
  | .ok f => f.write p content

def remove (f : Files) (p : Text) : Files :=
  match f.locate p with
  | .ok names => { f with tree := f.tree.erase names }
  | .error _ => f

def move (f : Files) (source target : Text) : Files :=
  match f.locate source, f.place (Text.trimRight (· = Path.slash) target) with
  | .ok old, .ok new => match f.tree.get? old with
    | some t => { f with tree := (f.tree.erase old).set t new }
    | none => f
  | _, _ => f

end Files
end LabelHooks
