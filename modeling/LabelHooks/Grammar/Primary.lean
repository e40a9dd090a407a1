import LabelHooks.Grammar.Function

/-!
Primary expressions:

    primary → IDENT | literal | this | super | template
            | '(' expression ')' | arrow
            | '[' elements ']' | '{' properties '}'
            | [async] function ['*'] [IDENT] params body
    arrow   → [async] (IDENT | '(' params ')') '=>' (block | assignment)

The parameters of an arrow function are read as a parenthesised expression and turned into
patterns when the arrow is seen.
-/

namespace LabelHooks.Parse

/-- A primary expression, and whether it is an arrow function without parentheses around it,
which is never called or accessed. -/
structure Primary where
  expr : Expr
  bareArrow : Bool

def plain (e : Expr) : Primary := ⟨e, false⟩

def arrowBody (r : Rules) : Parse Body := do
  if ← check .lbrace then return .block (← withNoIn false (block r))
  return .expr (← r.assign)

def identArrow (r : Rules) (p : Position) (isAsync : Bool) : Parse Primary := do
  let param ← ident
  expect .arrow
  let body ← arrowBody r
  return ⟨.arrow (← markFrom p) isAsync [.ident param] body, true⟩

def atArrow : Parse Bool := return (← check .arrow) && !(← token).newlineBefore

def arrowAfter (r : Rules) (p : Position) (isAsync : Bool) (items : List Expr) :
    Parse Primary := do
  advance
  let params ← toParams items
  let body ← arrowBody r
  return ⟨.arrow (← markFrom p) isAsync params body, true⟩

structure Group where
  items : List Expr
  /-- The group is not an expression by itself: it ends in a comma or a rest. -/
  onlyParams : Bool

def groupStep (r : Rules) (g : Group) : Parse (Group ⊕ Group) := do
  if (← check .rparen) || (← failed) then return .inr g
  if ← check .ellipsis then
    let p ← start
    advance
    let target ← r.bindingTarget
    return .inr ⟨g.items ++ [.rest (← markFrom p) target], true⟩
  let item ← r.assign
  if ← accept .comma then return .inl ⟨g.items ++ [item], true⟩
  return .inr ⟨g.items ++ [item], false⟩

def parenthesized (r : Rules) : Parse Primary := do
  let p ← start
  expect .lparen
  withNoIn false do
    let g ← iterate (groupStep r) r.rounds ⟨[], false⟩
    expect .rparen
    if ← atArrow then arrowAfter r p false g.items
    else match g.items, g.onlyParams with
      | [x], false => return plain x
      | x :: y :: more, false => return plain (.seq (← markFrom p) (x :: y :: more))
      | _, _ =>
        failExpecting Token.Kind.arrow.text
        return plain (.ident ⟨← markFrom p, []⟩)

def asyncCall (r : Rules) : Parse Primary := do
  let p ← start
  let callee ← ident
  let args ← arguments r
  if ← atArrow then arrowAfter r p true args
  else return plain (.call (← markFrom p) (.ident callee) args false)

def functionExpr (r : Rules) (isAsync : Bool) : Parse Primary := do
  let p ← start
  let f ← function r isAsync false
  return plain (.function (← markFrom p) f)

def elementStep (r : Rules) (elems : List Expr) : Parse (List Expr ⊕ List Expr) := do
  if (← check .rbracket) || (← failed) then return .inr elems
  if ← accept .comma then return .inl (elems ++ [.hole])
  let elem ← spreadable r
  if !(← check .rbracket) then expect .comma
  return .inl (elems ++ [elem])

def arrayLiteral (r : Rules) : Parse Expr := do
  let p ← start
  expect .lbracket
  withNoIn false do
    let elems ← iterate (elementStep r) r.rounds []
    expect .rbracket
    return .array (← markFrom p) elems

def startsKey (t : Token) : Bool :=
  t.kind = .string || t.kind = .number || t.kind = .lbracket || t.kind = .star || t.isName

def propertyModifier : Parse (PropKind × Bool) := do
  let t ← token
  let next ← peek
  if t.kind ≠ .ident || !startsKey next then return (.init, false)
  if t.literal = ("get" : Text) then
    advance
    return (.get, false)
  if t.literal = ("set" : Text) then
    advance
    return (.set, false)
  if t.literal = ("async" : Text) && !next.newlineBefore then
    advance
    return (.init, true)
  return (.init, false)

def shorthandValue (r : Rules) (i : Ident) : Parse Expr := do
  let value := .ident (copyIdent i)
  if ← accept .assign then
    let init ← r.assign
    return .assign (← markFrom i.mark.span.start) .set value init
  return value

/-- A member of an object literal: `key: value`, a name alone, a method, an accessor or a
spread. -/
def property (r : Rules) : Parse Expr := do
  let p ← start
  if ← check .ellipsis then
    advance
    let x ← r.assign
    return .spread (← markFrom p) x
  let (kind, isAsync) ← propertyModifier
  let generator ← accept .star
  let keyToken ← token
  let (key, computed) ← propertyKey r
  if (← check .lparen) || kind ≠ .init || isAsync || generator then
    let fstart ← start
    let f ← functionRest r fstart none isAsync generator
    let value := .function (← markFrom fstart) f
    return .property (← markFrom p) ⟨kind, computed, false, kind = .init⟩ key value
  if ← accept .colon then
    let value ← r.assign
    return .property (← markFrom p) ⟨kind, computed, false, false⟩ key value
  match key, !computed && keyToken.kind = .ident with
  | .ident i, true =>
    let value ← shorthandValue r i
    return .property (← markFrom p) ⟨kind, computed, true, false⟩ key value
  | _, _ =>
    failExpecting Token.Kind.colon.text
    return .property (← markFrom p) ⟨kind, computed, false, false⟩ key .hole

def memberStep (r : Rules) (members : List Expr) : Parse (List Expr ⊕ List Expr) := do
  if (← check .rbrace) || (← failed) then return .inr members
  let member ← property r
  if ← accept .comma then return .inl (members ++ [member])
  return .inr (members ++ [member])

def objectLiteral (r : Rules) : Parse Expr := do
  let p ← start
  expect .lbrace
  withNoIn false do
    let members ← iterate (memberStep r) r.rounds []
    expect .rbrace
    return .object (← markFrom p) members

def substitution (r : Rules) (sub : Substitution) : Parse Expr := do
  let inner ← Reader.ofLexer (.ofFragment sub.source sub.pos)
  let whole : Parse Expr := do
    let e ← r.expression
    if !(← check .eof) && !(← failed) then fail (.unexpectedOperand (← token))
    return e
  let (e, inner) ← whole.run inner
  modify fun s => { s with faults := s.faults ++ inner.fault?.toList }
  return e

def substitutions (r : Rules) : List Substitution → Parse (List Expr)
  | [] => return []
  | sub :: subs => do
    let e ← substitution r sub
    return e :: (← substitutions r subs)

def template (r : Rules) (p : Position) (tag : Option Expr) : Parse Expr := do
  let t ← token
  advance
  let m ← markFrom p
  let parts ← TemplateParts.ofRaw t.literal t.pos
  return .template m tag parts.quasis (← substitutions r parts.substitutions)

def asLiteral (t : Token) (kind : LiteralKind) : Parse Primary := do
  advance
  return plain (.literal ⟨← markFrom t.pos, kind, t.literal⟩)

def named (r : Rules) (t : Token) : Parse Primary := do
  let next ← peek
  if next.kind = .arrow && !next.newlineBefore then identArrow r t.pos false
  else
    let isAsync := t.literal = ("async" : Text) && !next.newlineBefore
    if isAsync && next.kind = .functionKw then functionExpr r true
    else if isAsync && next.kind = .ident && (← get).peek2.kind = .arrow then
      advance
      identArrow r t.pos true
    else if isAsync && next.kind = .lparen then asyncCall r
    else
      advance
      return plain (.ident ⟨← markFrom t.pos, t.literal⟩)

def primary (r : Rules) : Parse Primary := do
  let t ← token
  match t.kind with
  | .ident => named r t
  | .number => asLiteral t .number
  | .string => asLiteral t .string
  | .regexp => asLiteral t .regexp
  | .trueKw => asLiteral t .true
  | .falseKw => asLiteral t .false
  | .nullKw => asLiteral t .null
  | .thisKw =>
    advance
    return plain (.this (← markFrom t.pos))
  | .superKw =>
    advance
    return plain (.super (← markFrom t.pos))
  | .importKw =>
    advance
    return plain (.ident ⟨← markFrom t.pos, "import"⟩)
  | .template => return plain (← template r t.pos none)
  | .lparen => parenthesized r
  | .lbracket => return plain (← arrayLiteral r)
  | .lbrace => return plain (← objectLiteral r)
  | .functionKw => functionExpr r false
  | .classKw =>
    fail (.unsupported "class expression")
    return plain (.ident (missingIdent t.pos))
  | _ =>
    fail (.unexpectedOperand t)
    return plain (.ident (missingIdent t.pos))

end LabelHooks.Parse
