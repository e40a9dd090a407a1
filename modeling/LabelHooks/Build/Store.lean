import LabelHooks.Digest.Sha256
import LabelHooks.Report.Log
import LabelHooks.Time.Instant

/-!
The database of a build: what each file was compiled to, under a key that stands for its content
and for the settings, and the history of runs.
-/

namespace LabelHooks

structure Stats where
  states : Nat
  mutations : Nat
  wrapped : Nat
  effects : Nat
  memos : Nat
deriving DecidableEq, Repr

namespace Stats

def total (s : Stats) : Nat := s.states + s.mutations + s.wrapped + s.effects + s.memos

end Stats

structure Entry where
  path : Text
  key : Text
  code : Text
  stats : Stats
  updated : Instant
deriving DecidableEq, Repr

namespace Entry

def keyOf (fingerprint content : Text) : Text :=
  Sha256.hex (fingerprint ++ ([0] : Text) ++ content)

end Entry

structure Run where
  id : Text
  command : Text
  status : Text
  files : Int
  cached : Int
  started : Instant
  completed : Option Instant
  error : Text
deriving DecidableEq, Repr

structure Database where
  migrated : Bool := false
  entries : List Entry := []
  runs : List Run := []
deriving DecidableEq, Repr

structure Store where
  database : Option Database
  path : Text := []
  quiet : Bool := true
deriving DecidableEq, Repr

inductive StoreError where
  | notOpened
  | failed (action : Text)
  | runNotFound (id : Text)
deriving DecidableEq, Repr

namespace StoreError

def message : StoreError → Text
  | .notOpened => "database not opened"
  | .failed action => ("failed to " : Text) ++ action
  | .runNotFound id => ("run not found: " : Text) ++ id

end StoreError

namespace Store

def closed : Store := { database := none }

def opened : Store := { database := some {} }

def opened? (s : Store) : Except StoreError Database :=
  match s.database with
  | none => .error .notOpened
  | some d => .ok d

def tables (s : Store) (action : Text) : Except StoreError Database := do
  let d ← s.opened?
  if d.migrated then pure d else throw (.failed action)

def keep (s : Store) (d : Database) : Store := { s with database := some d }

def migrate (s : Store) : Except StoreError Store := do
  let d ← s.opened?
  return s.keep { d with migrated := true }

def version (s : Store) : Except StoreError Nat := do
  let d ← s.opened?
  return if d.migrated then 1 else 0

def get (s : Store) (path : Text) : Except StoreError (Option Entry) := do
  let d ← s.tables "get entry"
  return d.entries.find? (·.path = path)

def put (s : Store) (e : Entry) : Except StoreError Store := do
  let d ← s.tables "put entry"
  return s.keep { d with entries := d.entries.filter (·.path ≠ e.path) ++ [e] }

def delete (s : Store) (path : Text) : Except StoreError Store := do
  let d ← s.tables "delete entry"
  return s.keep { d with entries := d.entries.filter (·.path ≠ path) }

def clear (s : Store) : Except StoreError (Nat × Store) := do
  let d ← s.tables "clear entries"
  return (d.entries.length, s.keep { d with entries := [] })

def count (s : Store) : Except StoreError Nat := do
  let d ← s.tables "count entries"
  return d.entries.length

def createRun (s : Store) (id command : Text) (now : Instant) :
    Except StoreError (Run × Store) := do
  let d ← s.tables "create run"
  let run : Run := ⟨id, command, "running", 0, 0, now, none, []⟩
  return (run, s.keep { d with runs := d.runs ++ [run] })

def completeRun (s : Store) (id status : Text) (files cached : Int) (error : Text)
    (now : Instant) : Except StoreError Store := do
  let d ← s.tables "complete run"
  if d.runs.any (·.id = id) then
    return s.keep { d with
      runs := d.runs.map fun r =>
        if r.id = id then { r with status, files, cached, completed := some now, error } else r }
  else throw (.runNotFound id)

def getRun (s : Store) (id : Text) : Except StoreError Run := do
  let d ← s.tables "get run"
  match d.runs.find? (·.id = id) with
  | some r => return r
  | none => throw (.runNotFound id)

private def insertByStart (r : Run) : List Run → List Run
  | [] => [r]
  | x :: xs => if x.started > r.started then x :: insertByStart r xs else r :: x :: xs

def listRuns (s : Store) (limit : Int) : Except StoreError (List Run) := do
  let d ← s.tables "list runs"
  let newest := d.runs.foldl (fun l r => insertByStart r l) []
  return if limit < 0 then newest else newest.take limit.toNat

end Store
end LabelHooks
