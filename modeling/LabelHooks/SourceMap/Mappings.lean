import LabelHooks.Json.Reader
import LabelHooks.Source.Renames
import LabelHooks.SourceMap.Columns
import LabelHooks.SourceMap.Vlq

/-!
The names in a source map. Each line of the generated text has a group of segments; a segment
with five fields carries a name, and it does so only for identifiers that were renamed.
-/

namespace LabelHooks

structure SourceMap where
  mappings : Text := []
  names : List Text := []
deriving DecidableEq, Repr

inductive SourceMapError where
  /-- The map is no JSON object with members of the right types. -/
  | undecodable
  | vlq (e : Vlq.VlqError)
  | fieldCount (segment : Text) (count : Nat)
  | nameIndex (index : Int)
deriving DecidableEq, Repr

namespace SourceMapError

def message : SourceMapError → Text
  | .undecodable => "malformed source map"
  | .vlq (.invalidDigit b) =>
    ("malformed mappings: invalid character " : Text) ++ Text.quotedByte b
  | .vlq (.truncated s) =>
    ("malformed mappings: truncated value in " : Text) ++ Text.quoted s
  | .fieldCount s n =>
    ("malformed mappings: segment " : Text) ++ Text.quoted s ++ (" has " : Text) ++ Text.ofNat n ++
      (" fields" : Text)
  | .nameIndex i =>
    ("malformed mappings: name index " : Text) ++ Text.ofInt i ++ (" out of range" : Text)

end SourceMapError

namespace SourceMap

def foldKey (key : Text) : Text :=
  (Text.runes key).flatMap fun r =>
    if 0x41 ≤ r.code && r.code ≤ 0x5A then Text.ofCode (r.code + 32)
    else if r.code = 0x17F then Text.ofCode 0x73
    else if r.code = 0x212A then Text.ofCode 0x6B
    else Text.ofCode r.code

private def namesOver : List Text → List Json → Option (List Text)
  | _, [] => some []
  | old, .string s :: vs => (namesOver old.tail vs).map (s :: ·)
  | old, .null :: vs => (namesOver old.tail vs).map (old.headD [] :: ·)
  | _, _ :: _ => none

private def member (m : SourceMap) (key : Text) (v : Json) : Option SourceMap :=
  if foldKey key = ("mappings" : Text) then
    match v with
    | .string s => some { m with mappings := s }
    | .null => some m
    | _ => none
  else if foldKey key = ("names" : Text) then
    match v with
    | .array items => (namesOver m.names items).map ({ m with names := · })
    | .null => some { m with names := [] }
    | _ => none
  else some m

/-- The members of the document that are used; keys match without regard to case, and the last
of those that match counts. -/
def ofJson? : Json → Option SourceMap
  | .null => some {}
  | .object members => members.foldlM (fun m (key, v) => member m key v) {}
  | _ => none

structure Progress where
  renames : Renames
  name : Vlq.Word
  column : Vlq.Word
  columns : Columns

def segment (names : List Text) (lineStart : Nat) (p : Progress) (s : Text) :
    Except SourceMapError Progress :=
  if s.isEmpty then .ok p
  else match Vlq.decode s with
    | .error e => .error (.vlq e)
    | .ok [column] | .ok [column, _, _, _] => .ok { p with column := p.column + column }
    | .ok [column, _, _, _, name] =>
      let name := p.name + name
      let column := p.column + column
      match if name.toInt < 0 then none else names[name.toInt.toNat]? with
      | none => .error (.nameIndex name.toInt)
      | some text =>
        let columns := p.columns.advance column.toInt
        .ok { renames := p.renames.insert (lineStart + columns.bytes) text, name, column, columns }
    | .ok fields => .error (.fieldCount s fields.length)

def groups (names : List Text) (p : Progress) (lineStart : Nat) :
    List Text → List Text → Except SourceMapError Renames
  | [], _ => .ok p.renames
  | g :: gs, lines => do
    let line := lines.headD []
    let p := { p with column := 0, columns := .ofLine line }
    let p ← (Text.splitOn (byte ',') g).foldlM (segment names lineStart) p
    let next := if lines.isEmpty then lineStart else lineStart + line.length + 1
    groups names p next gs lines.tail

def renames (m : SourceMap) (code : Text) : Except SourceMapError Renames :=
  if m.names.isEmpty then .ok []
  else
    groups m.names ⟨[], 0, 0, .ofLine []⟩ 0 (Text.splitOn (byte ';') m.mappings)
      (Text.splitOn Text.newline code)

def read (map code : Text) : Except SourceMapError Renames :=
  if map.isEmpty then .ok []
  else match (Json.parse? map).bind ofJson? with
    | none => .error .undecodable
    | some m => m.renames code

end SourceMap
end LabelHooks
