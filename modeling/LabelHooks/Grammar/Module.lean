import LabelHooks.Grammar.Statement

/-!
Imports and exports, and whole source files. An import names a module, and may bind its default
export, its namespace or a list of its exports. An export is a default value, a declaration, a
star with a module, or a list of names that may come from a module.
-/

namespace LabelHooks.Parse

def importRest (p : Position) (specs : List ImportSpec) : Parse Stmt := do
  expectWord "from"
  let source ← stringLiteral
  semicolon
  return .imports (← markFrom p) specs source

def renamed (i : Ident) (name : Parse Ident) : Parse Ident := do
  if ← checkWord "as" then
    advance
    name
  else return copyIdent i

def importSpecStep (specs : List ImportSpec) : Parse (List ImportSpec ⊕ List ImportSpec) := do
  if (← check .rbrace) || (← failed) then return .inr specs
  let p ← start
  let imported ← identName
  let binding ← renamed imported ident
  let specs := specs ++ [.named (← markFrom p) imported binding]
  if ← accept .comma then return .inl specs
  return .inr specs

def importSpecs (r : Rules) (first : List ImportSpec) : Parse (List ImportSpec) := do
  let t ← token
  match t.kind with
  | .star =>
    advance
    expectWord "as"
    let binding ← ident
    return first ++ [.star (← markFrom t.pos) binding]
  | .lbrace =>
    advance
    let specs ← iterate importSpecStep r.rounds first
    expect .rbrace
    return specs
  | _ =>
    failExpecting Token.Kind.lbrace.text
    return first

def importStmt (r : Rules) : Parse Stmt := do
  let p ← start
  advance
  if ← check .string then
    let source ← stringLiteral
    semicolon
    return .imports (← markFrom p) [] source
  else if ← check .ident then
    let q ← start
    let binding ← ident
    let first := [ImportSpec.default (← markFrom q) binding]
    if ← accept .comma then importRest p (← importSpecs r first) else importRest p first
  else importRest p (← importSpecs r [])

def exportDefault (r : Rules) (p : Position) : Parse Stmt := do
  let isAsync ← atAsyncFunction
  if (← check .functionKw) || isAsync then
    let q ← start
    let f ← function r isAsync false
    if f.name?.isSome then
      let d := .funcDecl (← markFrom q) f
      return .exportDecl (← markFrom p) true d
    let value := .function (← markFrom q) f
    return .exportValue (← markFrom p) value
  let value ← assign r
  semicolon
  return .exportValue (← markFrom p) value

def exportAll (p : Position) : Parse Stmt := do
  let name ← if ← checkWord "as" then do
    advance
    some <$> identName
  else pure none
  expectWord "from"
  let source ← stringLiteral
  semicolon
  return .exportAll (← markFrom p) name source

def exportSpecStep (specs : List ExportSpec) : Parse (List ExportSpec ⊕ List ExportSpec) := do
  if (← check .rbrace) || (← failed) then return .inr specs
  let p ← start
  let source ← identName
  let exported ← renamed source identName
  let specs := specs ++ [⟨← markFrom p, source, exported⟩]
  if ← accept .comma then return .inl specs
  return .inr specs

def exportNames (r : Rules) (p : Position) : Parse Stmt := do
  let specs ← iterate exportSpecStep r.rounds []
  expect .rbrace
  let source ← if ← checkWord "from" then do
    advance
    some <$> stringLiteral
  else pure none
  semicolon
  return .exportNames (← markFrom p) specs source

def exportStmt (r : Rules) : Parse Stmt := do
  let p ← start
  advance
  if ← accept .defaultKw then exportDefault r p
  else match declKind? (← token).kind with
    | some kind =>
      let d ← varDeclStmt r kind
      return .exportDecl (← markFrom p) false d
    | none =>
      if ← check .functionKw then
        let d ← funcDecl r false
        return .exportDecl (← markFrom p) false d
      else if (← checkWord "async") && (← checkPeek .functionKw) then
        let d ← funcDecl r true
        return .exportDecl (← markFrom p) false d
      else if ← accept .star then exportAll p
      else if ← accept .lbrace then exportNames r p
      else
        if ← check .classKw then fail (.unsupported "class declaration")
        else failExpecting "declaration"
        return missingStmt p

def statement (r : Rules) : Parse Stmt := do
  match (← token).kind with
  | .importKw =>
    if (← checkPeek .lparen) || (← checkPeek .dot) then plainStatement r else importStmt r
  | .exportKw => exportStmt r
  | _ => plainStatement r

def stuck (rounds : Nat) : Rules where
  rounds
  expression := throw .exhausted
  assign := throw .exhausted
  unary := throw .exhausted
  binary _ := throw .exhausted
  newExpr := throw .exhausted
  bindingTarget := throw .exhausted
  statement := throw .exhausted

def rules (rounds : Nat) : Nat → Rules
  | 0 => stuck rounds
  | depth + 1 =>
    { rounds
      expression := fun s => expression (rules rounds depth) s
      assign := fun s => assign (rules rounds depth) s
      unary := fun s => unary (rules rounds depth) s
      binary := fun least s => binary (rules rounds depth) least s
      newExpr := fun s => newExpr (rules rounds depth) s
      bindingTarget := fun s => bindingTarget (rules rounds depth) s
      statement := fun s => statement (rules rounds depth) s }

def rulesFor (t : Text) : Rules := rules (t.length + 2) (t.length + 2)

end Parse

inductive SyntaxError where
  | rejected (f : Fault)
  | crashed (c : Crash)
deriving DecidableEq, Repr

namespace Parse

def whole (rule : Rules → Parse α) (t : Text) : Except SyntaxError α :=
  let outcome := do
    let s ← Reader.ofLexer (.ofText t)
    (rule (rulesFor t)).run s
  match outcome with
  | .error c => .error (.crashed c)
  | .ok (x, s) =>
    match s.fault? with
    | some f => .error (.rejected f)
    | none => .ok x

def program (r : Rules) : Parse Program := do
  let p ← start
  let body ← statementList r .eof
  let s ← get
  return ⟨.ofSpan ⟨p, s.prevEnd⟩, body, s.lexer.comments⟩

def soleExpression (r : Rules) : Parse Expr := do
  let e ← expression r
  if !(← check .eof) && !(← failed) then failExpecting Token.Kind.eof.text
  return e

end Parse

def Program.parse (t : Text) : Except SyntaxError Program := Parse.whole Parse.program t

def Expr.parse (t : Text) : Except SyntaxError Expr := Parse.whole Parse.soleExpression t

def Reader.firstComments (t : Text) : Except Crash (List Comment) :=
  return (← Reader.ofLexer (.ofText t)).lexer.comments

end LabelHooks
