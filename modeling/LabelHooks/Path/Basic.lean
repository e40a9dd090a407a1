import LabelHooks.Text.Basic

/-!
Paths as texts with `/` between their parts, handled without looking at any file.
-/

namespace LabelHooks.Path

def slash : UInt8 := byte '/'

def dot : Text := "."

def dotdot : Text := ".."

def isAbs (p : Text) : Bool := p.head? = some slash

def parts (p : Text) : List Text :=
  (Text.splitOn slash p).filter fun c => !c.isEmpty && c ≠ dot

def follow (rooted : Bool) (stack : List Text) (part : Text) : List Text :=
  if part = dotdot then
    match stack with
    | [] => if rooted then [] else [dotdot]
    | top :: rest => if top = dotdot then dotdot :: stack else rest
  else part :: stack

/-- The shortest path that means the same: no empty parts, no dots, pairs of dots only at the
start of a relative path. -/
def clean (p : Text) : Text :=
  let rooted := isAbs p
  let kept := ((parts p).foldl (follow rooted) []).reverse
  if rooted then slash :: Text.join [slash] kept
  else if kept.isEmpty then dot
  else Text.join [slash] kept

def join (ps : List Text) : Text :=
  match ps.dropWhile List.isEmpty with
  | [] => []
  | rest => clean (Text.join [slash] rest)

def lastPart (p : Text) : Text := (p.reverse.takeWhile (· ≠ slash)).reverse

def dir (p : Text) : Text := clean (p.take (p.length - (lastPart p).length))

def base (p : Text) : Text :=
  if p.isEmpty then dot
  else
    let trimmed := Text.trimRight (· = slash) p
    if trimmed.isEmpty then [slash] else lastPart trimmed

def ext (p : Text) : Text :=
  let name := (lastPart p).reverse
  if name.contains (byte '.') then byte '.' :: (name.takeWhile (· ≠ byte '.')).reverse else []

def steps (p : Text) : List Text :=
  if p.isEmpty then [] else if p = [slash] then [[]] else Text.splitOn slash p

def dropCommon : List Text → List Text → List Text × List Text
  | b :: bs, t :: ts => if b = t then dropCommon bs ts else (b :: bs, t :: ts)
  | bs, ts => (bs, ts)

def rel? (start target : Text) : Option Text :=
  let b := clean start
  let t := clean target
  if b = t then some dot
  else
    let b := if b = dot then [] else b
    if isAbs b ≠ isAbs t then none
    else
      match dropCommon (steps b) (steps t) with
      | ([], ts) => some (Text.join [slash] ts)
      | (bs, ts) =>
        if bs.head? = some dotdot && !ts.isEmpty then none
        else some (Text.join [slash] (bs.map (fun _ => dotdot) ++ ts))

end LabelHooks.Path
