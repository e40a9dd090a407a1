import LabelHooks.Syntax.Tree
import LabelHooks.Token.Lexer

/-!
The reader: three tokens of lookahead over a lexer, the faults recorded so far, and the rules
that refer to each other. Reading goes on after a fault; the earliest one is reported.
-/

namespace LabelHooks

structure Reader where
  lexer : Lexer
  token : Token
  peek : Token
  peek2 : Token
  prevEnd : Position
  faults : List Fault
  noIn : Bool
  /-- How many of the lexer's comments have been dealt with. -/
  taken : Nat

abbrev Parse := StateT Reader (Except Crash)

namespace Parse

def advance : Parse Unit := do
  let s ← get
  let (token, lexer) ← s.lexer.next
  let passed := s.token.kind ≠ .eof || s.token.literal ≠ []
  set { s with
    lexer
    token := s.peek
    peek := s.peek2
    peek2 := token
    prevEnd := if passed then s.token.stop else s.prevEnd }

def token : Parse Token := return (← get).token

def peek : Parse Token := return (← get).peek

def start : Parse Position := return (← get).token.pos

def check (k : Token.Kind) : Parse Bool := return (← get).token.kind = k

def checkPeek (k : Token.Kind) : Parse Bool := return (← get).peek.kind = k

def checkWord (word : Text) : Parse Bool :=
  return (← token).kind = .ident && (← token).literal = word

def failAt (p : Position) (cause : Cause) : Parse Unit :=
  modify fun s => { s with faults := s.faults ++ [⟨p, cause⟩] }

def fail (cause : Cause) : Parse Unit := do failAt (← start) cause

def failExpecting (expected : Text) : Parse Unit := do fail (.unexpectedToken (← token) expected)

def failed : Parse Bool := return !(← get).faults.isEmpty || !(← get).lexer.faults.isEmpty

def accept (k : Token.Kind) : Parse Bool := do
  if ← check k then
    advance
    return true
  return false

def expect (k : Token.Kind) : Parse Unit := do
  if ← check k then advance else failExpecting k.text

def expectWord (word : Text) : Parse Unit := do
  if ← checkWord word then advance else failExpecting word

def markFrom (p : Position) : Parse Mark := return .ofSpan ⟨p, (← get).prevEnd⟩

def withNoIn (noIn : Bool) (act : Parse α) : Parse α := do
  let saved := (← get).noIn
  modify fun s => { s with noIn }
  let x ← act
  modify fun s => { s with noIn := saved }
  return x

def iterate (step : σ → Parse (σ ⊕ β)) : Nat → σ → Parse β
  | 0, _ => throw .exhausted
  | fuel + 1, s => do
    match ← step s with
    | .inl s' => iterate step fuel s'
    | .inr b => return b

def semicolon : Parse Unit := do
  if ← accept .semicolon then return
  let t ← token
  if t.kind = .rbrace || t.kind = .eof || t.newlineBefore then return
  failExpecting Token.Kind.semicolon.text

def atStatementEnd : Parse Bool := do
  let t ← token
  return t.kind = .semicolon || t.kind = .rbrace || t.kind = .eof || t.newlineBefore

def missingIdent (p : Position) : Ident := ⟨.ofSpan (.point p), []⟩

def ident : Parse Ident := do
  let t ← token
  if t.kind = .ident then
    advance
    return ⟨← markFrom t.pos, t.literal⟩
  failExpecting Token.Kind.ident.text
  return missingIdent t.pos

def identName : Parse Ident := do
  let t ← token
  if t.isName then
    advance
    return ⟨← markFrom t.pos, t.literal⟩
  failExpecting Token.Kind.ident.text
  return missingIdent t.pos

def copyIdent (i : Ident) : Ident := ⟨.ofSpan i.mark.span, i.name⟩

def stringLiteral : Parse Literal := do
  let t ← token
  expect .string
  return ⟨← markFrom t.pos, .string, t.literal⟩

def ending (offset : Int) : List Comment → Nat
  | [] => 0
  | c :: cs => if c.span.stop.offset ≤ offset then ending offset cs + 1 else 0

def takeComments (offset : Int) : Parse (List Comment) := do
  let s ← get
  let left := s.lexer.comments.drop s.taken
  let n := ending offset left
  set { s with taken := s.taken + n }
  return (left.take n).filter (!·.isPure)

/-- The rules that refer to each other. A rule is only used through this structure after the rule
that uses it has passed over a token. -/
structure Rules where
  rounds : Nat
  expression : Parse Expr
  assign : Parse Expr
  unary : Parse Expr
  binary : Prec → Parse Expr
  newExpr : Parse Expr
  bindingTarget : Parse Expr
  statement : Parse Stmt

end Parse

namespace Reader

def ofLexer (lexer : Lexer) : Except Crash Reader := do
  let s : Reader := ⟨lexer, .blank, .blank, .blank, .none, [], false, 0⟩
  let fill : Parse Unit := do
    Parse.advance
    Parse.advance
    Parse.advance
  return (← fill.run s).2

def fault? (s : Reader) : Option Fault := Fault.earliest? (s.lexer.faults ++ s.faults)

end Reader
end LabelHooks
