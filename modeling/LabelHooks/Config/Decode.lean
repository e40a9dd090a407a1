import LabelHooks.Text.Case
import LabelHooks.Text.Integer
import LabelHooks.Time.Duration
import LabelHooks.Yaml.Value

/-!
Settings out of YAML values, read generously: texts stand for numbers and truth values, numbers and
truth values for texts, and a text with commas for a list. A null leaves a setting as it was before
anything was said.
-/

namespace LabelHooks.Yaml

private def signed (negative : Bool) (t : Text) : Text := if negative then byte '-' :: t else t

def asText? : Yaml → Option Text
  | .null => some []
  | .string t => some t
  | .bool b => some (if b then "1" else "0")
  | .int i => some (Text.ofInt i)
  | .float negative x => some (signed negative x.shortest)
  | .nonfinite name => some name
  | .timestamp _ | .list _ | .map _ => none

def asBool? : Yaml → Option Bool
  | .null => some false
  | .bool b => some b
  | .int i => some (i ≠ 0)
  | .float _ x => some (x.significand ≠ 0)
  | .nonfinite _ => some true
  | .string t => if t.isEmpty then some false else Text.readBool? t
  | .timestamp _ | .list _ | .map _ => none

private def wrapped (i : Int) : Int := if i ≥ Word.half then i - Word.count else i

private def truncated (negative : Bool) (x : Binary) : Int :=
  if x.floor ≥ Word.half then Duration.smallest
  else if negative then -(x.floor : Int)
  else x.floor

def asInt? : Yaml → Option Int
  | .null => some 0
  | .int i => some (wrapped i)
  | .float negative x => some (truncated negative x)
  | .nonfinite _ => some Duration.smallest
  | .bool b => some (if b then 1 else 0)
  | .string t => if t.isEmpty then some 0 else (Text.readInt t).toOption
  | .timestamp _ | .list _ | .map _ => none

def asDuration? : Yaml → Option Duration
  | .string t => (Duration.read t).toOption
  | v => v.asInt?

def asList? : Yaml → Option (List Text)
  | .null => some []
  | .string t => some (if t.isEmpty then [] else Text.splitOn (byte ',') t)
  | .list items => items.mapM asText?
  | .map members => if members.isEmpty then some [] else none
  | v => v.asText?.map ([·])

def asSection? : Yaml → Option (List (Text × Yaml))
  | .null => some []
  | .map members => some members
  | _ => none

def field (members : List (Text × Yaml)) (name : Text) : Yaml :=
  match members.lookup name with
  | some v => v
  | none => ((members.find? fun (k, _) => Text.spells name k).map Prod.snd).getD .null

private def put (base : List (Text × Yaml)) (k : Text) (v : Yaml) : List (Text × Yaml) :=
  if (base.lookup k).isSome then base.map fun (n, w) => if n = k then (n, v) else (n, w)
  else base ++ [(k, v)]

mutual

def overlay (base : List (Text × Yaml)) : List (Text × Yaml) → List (Text × Yaml)
  | [] => base
  | (k, v) :: rest => overlay (put base k (laid (base.lookup k) v)) rest

private def laid (old : Option Yaml) : Yaml → Yaml
  | .map m => match old with
    | some (.map b) => .map (overlay b m)
    | _ => .map m
  | v => v

end

/-- Set the member at the end of a path of names. A name that already stands for something else
than a map is passed over. -/
def putPath (base : List (Text × Yaml)) : List Text → Yaml → List (Text × Yaml)
  | [], _ => base
  | [k], v => put base k v
  | k :: ks, v => match base.lookup k with
    | none => put base k (.map (putPath [] ks v))
    | some (.map m) => put base k (.map (putPath m ks v))
    | some _ => putPath base ks v

end LabelHooks.Yaml
