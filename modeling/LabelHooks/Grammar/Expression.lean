import LabelHooks.Grammar.Primary

/-!
Expressions above the primary ones. Binary operators are read by precedence: an operator binds
its right operand one level tighter than itself, except for `**`, which groups to the right.
-/

namespace LabelHooks.Parse

/-- Read what follows an expression that starts at `p`: member accesses, calls, optional chains
and tagged templates. The callee of `new` takes no calls. -/
def tailStep (r : Rules) (p : Position) (calls : Bool) (x : Expr) : Parse (Expr ⊕ Expr) := do
  if ← failed then return .inr x
  match (← token).kind with
  | .dot =>
    advance
    let prop ← identName
    return .inl (.member (← markFrom p) x (.ident prop) false false)
  | .optChain =>
    advance
    if ← check .lparen then
      let args ← arguments r
      return .inl (.call (← markFrom p) x args true)
    else if ← check .lbracket then
      let prop ← computedProp r
      return .inl (.member (← markFrom p) x prop true true)
    else
      let prop ← identName
      return .inl (.member (← markFrom p) x (.ident prop) false true)
  | .lbracket =>
    let prop ← computedProp r
    return .inl (.member (← markFrom p) x prop true false)
  | .lparen =>
    if !calls then return .inr x
    let args ← arguments r
    return .inl (.call (← markFrom p) x args false)
  | .template => return .inl (← template r p (some x))
  | _ => return .inr x

def tail (r : Rules) (p : Position) (calls : Bool) (x : Expr) : Parse Expr :=
  iterate (tailStep r p calls) r.rounds x

def newExpr (r : Rules) : Parse Expr := do
  let p ← start
  advance
  if ← accept .dot then
    let prop ← identName
    return .member (← markFrom p) (.ident ⟨.ofSpan (.point p), "new"⟩) (.ident prop) false false
  let callee ← if ← check .newKw then r.newExpr else pure (← primary r).expr
  let callee ← tail r p false callee
  let args ← if ← check .lparen then arguments r else pure []
  return .new (← markFrom p) callee args

def leftHandSide (r : Rules) : Parse Expr := do
  let p ← start
  if ← check .newKw then tail r p true (← newExpr r)
  else
    let x ← primary r
    if x.bareArrow then return x.expr
    tail r p true x.expr

def isSimpleTarget : Expr → Bool
  | .ident _ => true
  | .member _ _ _ _ optional => !optional
  | _ => false

def postfixed (r : Rules) : Parse Expr := do
  let p ← start
  let x ← leftHandSide r
  let t ← token
  match UpdateOp.ofKind? t.kind with
  | some op =>
    if t.newlineBefore then return x
    if !isSimpleTarget x then fail .invalidTarget
    advance
    return .update (← markFrom p) op false x
  | none => return x

def unary (r : Rules) : Parse Expr := do
  let p ← start
  let t ← token
  match UnaryOp.ofKind? t.kind, UpdateOp.ofKind? t.kind with
  | some op, _ =>
    advance
    let x ← r.unary
    return .unary (← markFrom p) op x
  | none, some op =>
    advance
    let x ← r.unary
    if !isSimpleTarget x then failAt p .invalidTarget
    return .update (← markFrom p) op true x
  | none, none =>
    if t.kind = .awaitKw then
      advance
      let x ← r.unary
      return .await (← markFrom p) x
    else postfixed r

def operator? : Parse (Option BinaryOp) := do
  let s ← get
  if s.noIn && s.token.kind = .inKw then return none
  return BinaryOp.ofKind? s.token.kind

def binaryStep (r : Rules) (p : Position) (least : Prec) (left : Expr) :
    Parse (Expr ⊕ Expr) := do
  if ← failed then return .inr left
  match ← operator? with
  | none => return .inr left
  | some op =>
    if op.prec < least then return .inr left
    advance
    let right ← r.binary (if op = .pow then op.prec else op.prec + 1)
    return .inl (.binary (← markFrom p) op left right)

def binary (r : Rules) (least : Prec) : Parse Expr := do
  let p ← start
  let left ← unary r
  iterate (binaryStep r p least) r.rounds left

def conditional (r : Rules) : Parse Expr := do
  let p ← start
  let test ← binary r .nullish
  if ← accept .question then
    let yes ← withNoIn false r.assign
    expect .colon
    let no ← r.assign
    return .cond (← markFrom p) test yes no
  return test

def endsYield (t : Token) : Bool :=
  [.rparen, .rbracket, .rbrace, .comma, .colon, .semicolon, .eof].contains t.kind || t.newlineBefore

def yieldExpr (r : Rules) : Parse Expr := do
  let p ← start
  advance
  if endsYield (← token) then return .yield (← markFrom p) false none
  let delegate ← accept .star
  let x ← r.assign
  return .yield (← markFrom p) delegate (some x)

def assign (r : Rules) : Parse Expr := do
  let p ← start
  if ← check .yieldKw then yieldExpr r
  else
    let left ← conditional r
    match AssignOp.ofKind? (← token).kind with
    | none => return left
    | some op =>
      let target ← if op = .set then toPattern false left else pure left
      if op ≠ .set && !isSimpleTarget left then fail .invalidTarget
      advance
      let right ← r.assign
      return .assign (← markFrom p) op target right

def sequenceStep (r : Rules) (list : List Expr) : Parse (List Expr ⊕ List Expr) := do
  if ← failed then return .inr list
  if ← accept .comma then return .inl (list ++ [← r.assign])
  return .inr list

def expression (r : Rules) : Parse Expr := do
  let p ← start
  let e ← assign r
  if ← check .comma then
    let list ← iterate (sequenceStep r) r.rounds [e]
    return .seq (← markFrom p) list
  return e

end LabelHooks.Parse
