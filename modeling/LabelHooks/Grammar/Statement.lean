import LabelHooks.Grammar.Expression

/-!
Statements:

    block    → '{' statement* '}'
    var      → (var|let|const) binding ['=' assignment] (',' ...)* ';'
    if       → if '(' expression ')' statement [else statement]
    for      → for [await] '(' (var|expression)? ';' expression? ';' expression? ')' statement
             | for [await] '(' (var|target) (in|of) expression ')' statement
    try      → try block [catch ['(' binding ')'] block] [finally block]
    labeled  → IDENT ':' statement
-/

namespace LabelHooks.Parse

def missingStmt (p : Position) : Stmt := .empty (.ofSpan (.point p))

def parenExpr (r : Rules) : Parse Expr := do
  expect .lparen
  let x ← withNoIn false (expression r)
  expect .rparen
  return x

def declKind? : Token.Kind → Option DeclKind
  | .varKw => some .var
  | .letKw => some .let_
  | .constKw => some .const
  | _ => none

def declaratorStep (r : Rules) (noIn : Bool) (decls : List Declarator) :
    Parse (List Declarator ⊕ List Declarator) := do
  let p ← start
  let target ← bindingTarget r
  let init ← if ← accept .assign then some <$> withNoIn noIn (assign r) else pure none
  let decls := decls ++ [.mk (← markFrom p) target init]
  if ← failed then return .inr decls
  if ← accept .comma then return .inl decls
  return .inr decls

def varDecl (r : Rules) (kind : DeclKind) (noIn : Bool) : Parse VarDecl := do
  let p ← start
  advance
  let decls ← iterate (declaratorStep r noIn) r.rounds []
  return .mk (← markFrom p) kind decls

def varDeclStmt (r : Rules) (kind : DeclKind) : Parse Stmt := do
  let p ← start
  let d ← varDecl r kind false
  semicolon
  return .varDecl (d.withMark (← markFrom p))

def funcDecl (r : Rules) (isAsync : Bool) : Parse Stmt := do
  let p ← start
  let f ← function r isAsync true
  return .funcDecl (← markFrom p) f

def atAsyncFunction : Parse Bool :=
  return (← checkWord "async") && (← checkPeek .functionKw) && !(← peek).newlineBefore

def ifStmt (r : Rules) : Parse Stmt := do
  let p ← start
  advance
  let test ← parenExpr r
  let yes ← r.statement
  let no ← if ← accept .elseKw then some <$> r.statement else pure none
  return .ifElse (← markFrom p) test yes no

def forInRest (r : Rules) (p : Position) (left : ForHead) (isAwait : Bool) : Parse Stmt := do
  let isOf ← checkWord "of"
  advance
  let right ← if isOf then assign r else expression r
  expect .rparen
  let body ← r.statement
  return .forIn (← markFrom p) left right body isOf isAwait

def optional (stop : Token.Kind) (act : Parse Expr) : Parse (Option Expr) := do
  if ← check stop then return none
  return some (← act)

def forRest (r : Rules) (p : Position) (init : Option ForHead) : Parse Stmt := do
  expect .semicolon
  let test ← optional .semicolon (expression r)
  expect .semicolon
  let post ← optional .rparen (expression r)
  expect .rparen
  let body ← r.statement
  return .forLoop (← markFrom p) init test post body

def atInOrOf : Parse Bool := return (← check .inKw) || (← checkWord "of")

def forStmt (r : Rules) : Parse Stmt := do
  let p ← start
  advance
  let isAwait ← accept .awaitKw
  expect .lparen
  let t ← token
  match declKind? t.kind with
  | some kind =>
    let d ← varDecl r kind true
    if ← atInOrOf then
      match d with
      | .mk _ _ [.mk _ _ none] => forInRest r p (.decl d) isAwait
      | _ =>
        fail .loopDeclaration
        return missingStmt p
    else forRest r p (some (.decl d))
  | none =>
    if t.kind = .semicolon then forRest r p none
    else
      let x ← withNoIn true (expression r)
      if ← atInOrOf then
        let target ← toPattern false x
        forInRest r p (.expr target) isAwait
      else forRest r p (some (.expr x))

def catchClause (r : Rules) : Parse Catch := do
  let p ← start
  advance
  if ← accept .lparen then
    let param ← bindingTarget r
    expect .rparen
    let body ← block r
    return .mk (← markFrom p) (some param) body
  let body ← block r
  return .mk (← markFrom p) none body

def tryStmt (r : Rules) : Parse Stmt := do
  let p ← start
  advance
  let b ← block r
  let handler ← if ← check .catchKw then some <$> catchClause r else pure none
  let finalizer ← if ← accept .finallyKw then some <$> block r else pure none
  if handler.isNone && finalizer.isNone then failExpecting Token.Kind.catchKw.text
  return .tryCatch (← markFrom p) b handler finalizer

def atCaseEnd : Parse Bool := do
  let k := (← token).kind
  return k = .caseKw || k = .defaultKw || k = .rbrace || k = .eof || (← failed)

def caseBodyStep (r : Rules) (list : List Stmt) : Parse (List Stmt ⊕ List Stmt) := do
  if ← atCaseEnd then return .inr list
  return .inl (list ++ [← r.statement])

def caseStep (r : Rules) (cases : List Case) : Parse (List Case ⊕ List Case) := do
  if (← check .rbrace) || (← check .eof) || (← failed) then return .inr cases
  let p ← start
  let test ← if ← accept .caseKw then some <$> expression r else do
    expect .defaultKw
    pure none
  expect .colon
  let body ← iterate (caseBodyStep r) r.rounds []
  return .inl (cases ++ [.mk (← markFrom p) test body])

def switchStmt (r : Rules) : Parse Stmt := do
  let p ← start
  advance
  let disc ← parenExpr r
  expect .lbrace
  let cases ← iterate (caseStep r) r.rounds []
  expect .rbrace
  return .switch (← markFrom p) disc cases

def labeled (r : Rules) : Parse Stmt := do
  let p ← start
  let label ← ident
  expect .colon
  let body ← r.statement
  return .labeled (← markFrom p) label body

def branch (isBreak : Bool) : Parse Stmt := do
  let p ← start
  advance
  let label ← if (← check .ident) && !(← token).newlineBefore then some <$> ident else pure none
  semicolon
  return .branch (← markFrom p) isBreak label

def whileStmt (r : Rules) : Parse Stmt := do
  let p ← start
  advance
  let test ← parenExpr r
  let body ← r.statement
  return .whileLoop (← markFrom p) test body

def doStmt (r : Rules) : Parse Stmt := do
  let p ← start
  advance
  let body ← r.statement
  expect .whileKw
  let test ← parenExpr r
  let _ ← accept .semicolon
  return .doWhile (← markFrom p) body test

def returnStmt (r : Rules) : Parse Stmt := do
  let p ← start
  advance
  let x ← if ← atStatementEnd then pure none else some <$> expression r
  semicolon
  return .ret (← markFrom p) x

def throwStmt (r : Rules) : Parse Stmt := do
  let p ← start
  advance
  let x ← expression r
  semicolon
  return .throw (← markFrom p) x

def exprStmt (r : Rules) : Parse Stmt := do
  let p ← start
  let x ← expression r
  semicolon
  return .expr (← markFrom p) x

def plainStatement (r : Rules) : Parse Stmt := do
  let p ← start
  match (← token).kind with
  | .lbrace => return .block (← block r)
  | .varKw => varDeclStmt r .var
  | .letKw => varDeclStmt r .let_
  | .constKw => varDeclStmt r .const
  | .functionKw => funcDecl r false
  | .ifKw => ifStmt r
  | .forKw => forStmt r
  | .whileKw => whileStmt r
  | .doKw => doStmt r
  | .returnKw => returnStmt r
  | .breakKw => branch true
  | .continueKw => branch false
  | .throwKw => throwStmt r
  | .tryKw => tryStmt r
  | .switchKw => switchStmt r
  | .semicolon =>
    advance
    return .empty (← markFrom p)
  | .debuggerKw =>
    advance
    semicolon
    return .debugger (← markFrom p)
  | .classKw =>
    fail (.unsupported "class declaration")
    return missingStmt p
  | .ident =>
    if ← checkPeek .colon then labeled r
    else if ← atAsyncFunction then funcDecl r true
    else exprStmt r
  | _ => exprStmt r

end LabelHooks.Parse
