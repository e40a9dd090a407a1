import LabelHooks.Grammar.Pattern

/-!
Blocks, parameter lists and functions, and the argument list of a call.
-/

namespace LabelHooks.Parse

def statementStep (r : Rules) (stop : Token.Kind) (list : List Stmt) :
    Parse (List Stmt ⊕ List Stmt) := do
  if (← check stop) || (← check .eof) || (← failed) then return .inr list
  let comments ← takeComments (← start).offset
  let s ← r.statement
  return .inl (list ++ [s.addLead comments])

def statementList (r : Rules) (stop : Token.Kind) : Parse (List Stmt) :=
  iterate (statementStep r stop) r.rounds []

def block (r : Rules) : Parse Block := do
  let p ← start
  expect .lbrace
  let list ← statementList r .rbrace
  expect .rbrace
  return .mk (← markFrom p) list

def paramStep (r : Rules) (params : List Expr) : Parse (List Expr ⊕ List Expr) := do
  if (← check .rparen) || (← failed) then return .inr params
  if ← check .ellipsis then
    let p ← start
    advance
    let target ← r.bindingTarget
    return .inr (params ++ [.rest (← markFrom p) target])
  let param ← bindingElement r
  if ← accept .comma then return .inl (params ++ [param])
  return .inr (params ++ [param])

def params (r : Rules) : Parse (List Expr) := do
  expect .lparen
  let list ← iterate (paramStep r) r.rounds []
  expect .rparen
  return list

def functionRest (r : Rules) (p : Position) (name : Option Ident) (isAsync generator : Bool) :
    Parse Func := withNoIn false do
  let list ← params r
  let body ← block r
  return .mk (← markFrom p) name list body isAsync generator

def function (r : Rules) (isAsync named : Bool) : Parse Func := do
  let p ← start
  if isAsync then advance
  expect .functionKw
  let generator ← accept .star
  if named || (← check .ident) then
    let name ← ident
    functionRest r p (some name) isAsync generator
  else functionRest r p none isAsync generator

def spreadable (r : Rules) : Parse Expr := do
  if ← check .ellipsis then
    let p ← start
    advance
    let x ← r.assign
    return .spread (← markFrom p) x
  r.assign

def argumentStep (r : Rules) (args : List Expr) : Parse (List Expr ⊕ List Expr) := do
  if (← check .rparen) || (← failed) then return .inr args
  let arg ← spreadable r
  if ← accept .comma then return .inl (args ++ [arg])
  return .inr (args ++ [arg])

def arguments (r : Rules) : Parse (List Expr) := do
  expect .lparen
  withNoIn false do
    let args ← iterate (argumentStep r) r.rounds []
    expect .rparen
    return args

end LabelHooks.Parse
