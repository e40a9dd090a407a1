import LabelHooks.Grammar.Reader

/-!
Patterns:

    binding  → IDENT | array | object
    element  → binding ['=' assignment]
    array    → '[' (element | ',' | '...' binding)* ']'
    object   → '{' (key ':' element | IDENT ['=' assignment] | '...' IDENT) (',' ...)* '}'

Assignment targets and arrow parameters are read as expressions and turned into patterns by
`toPattern`.
-/

namespace LabelHooks.Parse

def patternCause (binding : Bool) : Cause :=
  if binding then .invalidArrowParams else .invalidTarget

mutual

/-- Read an expression as a pattern: one that only binds names, or one that may also assign to
properties. What is no pattern is kept as it is and recorded as a fault. -/
def toPattern (binding : Bool) : Expr → Parse Expr
  | .hole => throw .missingValue
  | .ident i => return .ident i
  | .arrayPattern m es => return .arrayPattern m es
  | .objectPattern m es => return .objectPattern m es
  | .assignPattern m l r => return .assignPattern m l r
  | .rest m x => return .rest m x
  | .array m elems => return .arrayPattern m (← toElems binding elems)
  | .object m members => return .objectPattern m (← toMembers binding members)
  | .assign m .set left right => return .assignPattern m (← toPattern binding left) right
  | .member m x prop computed false => do
    if binding then failAt m.span.start (patternCause binding)
    return .member m x prop computed false
  | e => do
    failAt e.span.start (patternCause binding)
    return e

def toElems (binding : Bool) : List Expr → Parse (List Expr)
  | [] => return []
  | .hole :: es => return .hole :: (← toElems binding es)
  | .spread m x :: es => do
    if !es.isEmpty then failAt m.span.start (patternCause binding)
    let x ← toPattern binding x
    return .rest m x :: (← toElems binding es)
  | e :: es => do
    let e ← toPattern binding e
    return e :: (← toElems binding es)

def toMembers (binding : Bool) : List Expr → Parse (List Expr)
  | [] => return []
  | .spread m x :: es => do
    if !es.isEmpty then failAt m.span.start (patternCause binding)
    let x ← toPattern binding x
    return .rest m x :: (← toMembers binding es)
  | .property m shape key value :: es => do
    if shape.method || shape.kind ≠ .init then
      failAt m.span.start (patternCause binding)
      toMembers binding es
    else
      let value ← toPattern binding value
      return .property m shape key value :: (← toMembers binding es)
  | _ :: es => toMembers binding es

end

example (m : Mark) (i : Ident) : toPattern true (.array m [.hole, .spread m (.ident i)]) =
    return .arrayPattern m [.hole, .rest m (.ident i)] := by cbv

def toParams : List Expr → Parse (List Expr)
  | [] => return []
  | .spread m x :: es => do
    if !es.isEmpty then failAt m.span.start .invalidArrowParams
    let x ← toPattern true x
    return .rest m x :: (← toParams es)
  | e :: es => do
    let e ← toPattern true e
    return e :: (← toParams es)

def computedProp (r : Rules) : Parse Expr := do
  expect .lbracket
  let prop ← withNoIn false r.expression
  expect .rbracket
  return prop

def propertyKey (r : Rules) : Parse (Expr × Bool) := do
  let t ← token
  match t.kind with
  | .lbracket => return (← computedProp r, true)
  | .string =>
    advance
    return (.literal ⟨← markFrom t.pos, .string, t.literal⟩, false)
  | .number =>
    advance
    return (.literal ⟨← markFrom t.pos, .number, t.literal⟩, false)
  | _ => return (.ident (← identName), false)

def bindingElement (r : Rules) : Parse Expr := do
  let p ← start
  let target ← r.bindingTarget
  if ← accept .assign then
    let value ← r.assign
    return .assignPattern (← markFrom p) target value
  return target

def arrayStep (r : Rules) (elems : List Expr) : Parse (List Expr ⊕ List Expr) := do
  if (← check .rbracket) || (← failed) then return .inr elems
  if ← accept .comma then return .inl (elems ++ [.hole])
  if ← check .ellipsis then
    let p ← start
    advance
    let target ← r.bindingTarget
    return .inr (elems ++ [.rest (← markFrom p) target])
  let elem ← bindingElement r
  if !(← check .rbracket) then expect .comma
  return .inl (elems ++ [elem])

def arrayPattern (r : Rules) : Parse Expr := do
  let p ← start
  expect .lbracket
  let elems ← iterate (arrayStep r) r.rounds []
  expect .rbracket
  return .arrayPattern (← markFrom p) elems

def patternShape (computed shorthand : Bool) : PropShape := ⟨.init, computed, shorthand, false⟩

def patternProperty (r : Rules) : Parse (Option Expr) := do
  let p ← start
  let keyToken ← token
  let (key, computed) ← propertyKey r
  if ← accept .colon then
    let value ← bindingElement r
    return some (.property (← markFrom p) (patternShape computed false) key value)
  match key with
  | .ident i =>
    if computed || keyToken.kind ≠ .ident then
      fail .invalidBinding
      return none
    if ← accept .assign then
      let value ← r.assign
      let withDefault := .assignPattern (← markFrom p) (.ident (copyIdent i)) value
      return some (.property (← markFrom p) (patternShape computed true) key withDefault)
    return some (.property (← markFrom p) (patternShape computed true) key (.ident (copyIdent i)))
  | _ =>
    fail .invalidBinding
    return none

def objectStep (r : Rules) (members : List Expr) : Parse (List Expr ⊕ List Expr) := do
  if (← check .rbrace) || (← failed) then return .inr members
  if ← check .ellipsis then
    let p ← start
    advance
    let target ← ident
    return .inr (members ++ [.rest (← markFrom p) (.ident target)])
  match ← patternProperty r with
  | none => return .inr members
  | some member =>
    if ← accept .comma then return .inl (members ++ [member])
    return .inr (members ++ [member])

def objectPattern (r : Rules) : Parse Expr := do
  let p ← start
  expect .lbrace
  let members ← iterate (objectStep r) r.rounds []
  expect .rbrace
  return .objectPattern (← markFrom p) members

def bindingTarget (r : Rules) : Parse Expr := do
  match (← token).kind with
  | .lbracket => arrayPattern r
  | .lbrace => objectPattern r
  | .ident => return .ident (← ident)
  | _ =>
    fail .invalidBinding
    return .ident (missingIdent (← start))

end LabelHooks.Parse
