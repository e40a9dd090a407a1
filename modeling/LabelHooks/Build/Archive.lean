import LabelHooks.Build.Store
import LabelHooks.Files.Tree
import LabelHooks.Text.Integer

/-!
A database as a file. Every field is written with its length before it, so that fields may hold any
bytes; a record is a field that holds fields.
-/

namespace LabelHooks.Archive

private def header : Text := "labelsugar state\n"

def pack (fields : List Text) : Text :=
  fields.flatMap fun f => Text.ofNat f.length ++ byte ':' :: f

private def unpackFrom : Nat → Text → Option (List Text)
  | _, [] => some []
  | 0, _ => none
  | fuel + 1, t =>
    let (digits, rest) := t.span Text.isDigit
    match Text.readInt digits, rest with
    | .ok n, b :: body =>
      if b = byte ':' && n ≥ 0 && n ≤ body.length then
        (unpackFrom fuel (body.drop n.toNat)).map (body.take n.toNat :: ·)
      else none
    | _, _ => none

def unpack (t : Text) : Option (List Text) := unpackFrom t.length t

private def ofEntry (e : Entry) : List Text :=
  let s := e.stats
  ["entry", e.path, e.key, e.code, Text.ofNat s.states, Text.ofNat s.mutations,
    Text.ofNat s.wrapped, Text.ofNat s.effects, Text.ofNat s.memos, Text.ofInt e.updated]

private def ofRun (r : Run) : List Text :=
  ["run", r.id, r.command, r.status, Text.ofInt r.files, Text.ofInt r.cached,
    Text.ofInt r.started, (r.completed.map Text.ofInt).getD [], r.error]

private def int? (t : Text) : Option Int := (Text.readInt t).toOption

private def nat? (t : Text) : Option Nat := (int? t).map Int.toNat

private def addRecord (d : Database) (fields : List Text) : Option Database :=
  match fields with
  | [kind, path, key, code, states, mutations, wrapped, effects, memos, updated] =>
    if kind = ("entry" : Text) then do
      let stats : Stats := ⟨← nat? states, ← nat? mutations, ← nat? wrapped, ← nat? effects,
        ← nat? memos⟩
      return { d with entries := d.entries ++ [⟨path, key, code, stats, ← int? updated⟩] }
    else none
  | [kind, id, command, status, files, cached, started, completed, error] =>
    if kind = ("run" : Text) then do
      let completed ← if completed.isEmpty then some none else (int? completed).map some
      let run : Run := ⟨id, command, status, ← int? files, ← int? cached, ← int? started,
        completed, error⟩
      return { d with runs := d.runs ++ [run] }
    else none
  | _ => none

def encode (d : Database) : Text :=
  header ++ pack ((d.entries.map ofEntry ++ d.runs.map ofRun).map pack)

def decode (t : Text) : Option Database :=
  if t.isEmpty then some { migrated := true }
  else if Text.hasPrefix header t then do
    let records ← (← unpack (t.drop header.length)).mapM unpack
    records.foldlM addRecord { migrated := true }
  else none

inductive OpenError where
  | directory (e : FileError)
  | unusable
deriving DecidableEq, Repr

namespace OpenError

def message : OpenError → Text
  | .directory e => ("failed to create state directory: " : Text) ++ e.message
  | .unusable => "failed to ping sqlite database"

end OpenError

def save (files : Files) (store : Store) : Files :=
  match store.database with
  | none => files
  | some d => (files.write store.path (encode d)).toOption.getD files

def openAt (files : Files) (path : Text) : Except OpenError (Store × Files) :=
  match files.makeDirs (Path.dir path) with
  | .error e => .error (.directory e)
  | .ok files =>
    let content : Option Text := match files.find path with
      | .ok (.file t) => some t
      | .error .missing => some []
      | _ => none
    match content.bind decode with
    | none => .error .unusable
    | some d =>
      let store : Store := { database := some d, path, quiet := false }
      match files.write path (encode d) with
      | .error _ => .error .unusable
      | .ok files => .ok (store, files)

end LabelHooks.Archive
