import LabelHooks.Reactive.Names
import LabelHooks.Reactive.Options
import LabelHooks.Reactive.Registry
import LabelHooks.Report.Log
import LabelHooks.Scope.Analysis
import LabelHooks.Syntax.Numbering
import LabelHooks.Syntax.Shape

/-!
The pass that turns labelled statements into calls of state, effect and memo functions:

    ref: count = 0                  const [count, _setCount] = React.useState(0);
    watch: (count) => log(count)    React.useEffect(() => log(count), [count]);
    watch: twice = count => count*2 const twice = React.useMemo(() => count * 2, [count]);

Later mutations that refer to a declared name call its modifier:

    count = 1      _setCount(count => 1)
    count += 2     _setCount(count => count + 2)
    count++        _setCount(count => count + 1)
    obj.a = 1      _setObj(obj => { obj.a = 1; })

The scope table is kept up to date while code moves into new functions, because later names are
resolved in it.
-/

namespace LabelHooks

inductive LabelCause where
  | stateNotExpression
  | stateNotAssignment
  | stateTargetNotIdent
  | watchShape
  | watchRightNotFunction
  | watchLeftNotIdent
  | watchDeps
deriving DecidableEq, Repr

namespace LabelCause

def message : LabelCause → Text
  | .stateNotExpression => "ref sugar must be an expression statement"
  | .stateNotAssignment => "ref sugar expression must be an assignment"
  | .stateTargetNotIdent => "ref sugar assignment left must be an identifier"
  | .watchShape => "watch sugar must be an assignment or arrow function"
  | .watchRightNotFunction => "watch sugar assign right must be an arrow function"
  | .watchLeftNotIdent => "watch sugar assign left must be an identifier"
  | .watchDeps => "watch sugar arrow deps can only be identifiers"

end LabelCause

structure LabelError where
  pos : Position
  label : Text
  cause : LabelCause
deriving DecidableEq, Repr

namespace LabelError

def message (e : LabelError) : Text := e.pos.text ++ (": " : Text) ++ e.cause.message

end LabelError

structure Expansions where
  bindings : Registry := []
  mutations : Nat := 0
  /-- Mutations of a property that moved into a modifier callback. -/
  wrapped : Nat := 0
  effects : Nat := 0
  memos : Nat := 0
deriving DecidableEq, Repr

namespace Expansions

def total (r : Expansions) : Nat :=
  r.bindings.length + r.mutations + r.wrapped + r.effects + r.memos

end Expansions

structure PassState where
  table : Table
  done : Expansions
  taken : List Text
  nextNode : Nat
  log : List LogRecord
deriving DecidableEq, Repr

/-- A pass stops at the first labelled statement that it cannot expand; what it recorded until
then is kept. -/
abbrev Pass := ExceptT LabelError (StateM PassState)

namespace Pass

def note (message : Text) (attrs : List (Text × Text)) : Pass Unit :=
  modify fun p => { p with log := p.log ++ [.debug message attrs] }

def count (f : Expansions → Expansions) : Pass Unit := modify fun p => { p with done := f p.done }

def edit (f : Table → Table) : Pass Unit := modify fun p => { p with table := f p.table }

def reject (pos : Position) (label : Text) (cause : LabelCause) : Pass α :=
  throw ⟨pos, label, cause⟩

def newMark (span : Span) : Pass Mark := do
  let p ← get
  set { p with nextNode := p.nextNode + 1 }
  return { span, id := some p.nextNode }

def scopeOf (m : Mark) (s : ScopeId) : Pass ScopeId := do
  return ((← get).table.scopeOf? m).getD s

def reactive? (name : Text) (s : ScopeId) : Pass (Option Reactive) := do
  let p ← get
  return p.done.bindings.reactive? p.table name s

def declareState (target : Ident) (s : ScopeId) (span : Span) : Pass Reactive := do
  let p ← get
  let a := Modifier.allocate p.taken p.table s target.name span
  let ident := Ident.ofName target.name target.mark.span
  let binding : Reactive := ⟨ident, a.ident, s⟩
  set { p with
    taken := a.taken
    done := { p.done with bindings := p.done.bindings ++ [binding] }
    table := a.table.declare s target.name .reactive (some ident) }
  return binding

structure Callback where
  binding : Reactive
  mark : Mark
  param : Ident
  scope : ScopeId

/-- Open the scope of a callback whose parameter shadows the reactive name, and move the scopes
of `moved` into it. -/
def openCallback (b : Reactive) (param : Ident) (moved : Expr) (s : ScopeId) (span : Span) :
    Pass Callback := do
  let mark ← newMark span
  let (scope, t) := (← get).table.child s .function (some ⟨.arrowFunc, mark, []⟩)
  let t := (t.declare scope param.name .param (some param)).bind mark scope
  edit fun _ => t.reparent moved.outline s scope
  return ⟨b, mark, param, scope⟩

def Callback.call (c : Callback) (body : Body) : Expr :=
  let span := c.mark.span
  .callOf (.ofName c.binding.modifier.name span) [.arrow c.mark false [.ident c.param] body] span

private def site (b : Reactive) (span : Span) : List (Text × Text) :=
  [("name", b.name), ("modifier", b.modifier.name), ("pos", span.start.text)]

def finishUpdate (c : Callback) (body : Expr) : Pass Expr := do
  count fun r => { r with mutations := r.mutations + 1 }
  note "mutation rewritten" (site c.binding c.mark.span)
  return c.call (.expr body)

def memberCallback? (o : Options) (mutation x : Expr) (s : ScopeId) :
    Pass (Option (Callback × Mark)) := do
  if o.ignoreMembers then return none
  match x.rootIdent? with
  | none => return none
  | some base =>
    match ← reactive? base.name s with
    | none => return none
    | some b =>
      let param := Ident.ofName base.name base.mark.span
      let c ← openCallback b param mutation s mutation.span
      let block ← newMark mutation.span
      edit (·.bind block c.scope)
      return some (c, block)

def finishMember (c : Option (Callback × Mark)) (mutation : Expr) : Pass Expr := do
  match c with
  | none => return mutation
  | some (c, block) =>
    count fun r => { r with wrapped := r.wrapped + 1 }
    note "property mutation wrapped" (site c.binding c.mark.span)
    return c.call (.block (.mk block [.expr (.ofSpan block.span) mutation]))

def insideOf (c : Option (Callback × Mark)) (s : ScopeId) : ScopeId :=
  (c.map (·.1.scope)).getD s

def updated (m : Mark) (op : AssignOp) (left : Ident) (right : Expr) : Expr :=
  match op.binary? with
  | none => right
  | some b => .binary (.ofSpan m.span) b (.ofName left.name left.mark.span) right

def stepped (m : Mark) (op : UpdateOp) (x : Ident) : Expr :=
  .binary (.ofSpan m.span) (match op with | .inc => .add | .dec => .sub)
    (.ofName x.name x.mark.span) (.literal ⟨.ofSpan m.span, .number, "1"⟩)

def dependencies (label : Text) : List Expr → Pass (List Expr)
  | [] => return []
  | .ident i :: ps => return .ofName i.name i.mark.span :: (← dependencies label ps)
  | p :: _ => reject p.span.start label .watchDeps

def openWatcher (old : Mark) (span : Span) (s : ScopeId) : Pass (Mark × ScopeId) := do
  let mark ← newMark span
  let (inner, t) := (← get).table.rebind old ⟨.arrowFunc, mark, []⟩
  match inner with
  | none => return (mark, s)
  | some i =>
    edit fun _ => t.removeKind i .param
    return (mark, i)

def factory (path : Text) (span : Span) : Expr := (Expr.ofPath? path span).getD .hole

def finishState (o : Options) (m am : Mark) (target : Ident) (b : Reactive) (init : Expr) :
    Pass Stmt := do
  let pattern := Expr.arrayPattern (.ofSpan target.mark.span)
    [.ident b.ident, .ofName b.modifier.name target.mark.span]
  note "state declared"
    [("name", target.name), ("modifier", b.modifier.name), ("pos", m.span.start.text)]
  return .varDecl (.const pattern (.callOf (factory o.stateFactory m.span) [init] am.span) m)

def finishEffect (o : Options) (m em : Mark) (wrapper : Expr) (deps : List Expr) (span : Span) :
    Pass Stmt := do
  count fun r => { r with effects := r.effects + 1 }
  note "effect declared" [("deps", Text.ofNat deps.length), ("pos", m.span.start.text)]
  return .expr m (.callOf (factory o.effectFactory m.span)
    [wrapper, .array (.ofSpan span) deps] em.span)

def finishMemo (o : Options) (m am : Mark) (target : Ident) (wrapper : Expr) (deps : List Expr)
    (span : Span) (s : ScopeId) : Pass Stmt := do
  let ident := Ident.ofName target.name target.mark.span
  edit (·.declare s target.name .const (some ident))
  count fun r => { r with memos := r.memos + 1 }
  note "memo declared"
    [("name", target.name), ("deps", Text.ofNat deps.length), ("pos", m.span.start.text)]
  return .varDecl (.const (.ident ident) (.callOf (factory o.memoFactory m.span)
    [wrapper, .array (.ofSpan span) deps] am.span) m)

def stateTarget (label : Text) (am : Mark) (op : AssignOp) (left : Expr) : Pass Ident :=
  if op ≠ .set then reject am.span.start label .stateNotAssignment
  else match left with
    | .ident target => return target
    | _ => reject left.span.start label .stateTargetNotIdent

/-- The name a watch label declares. The function itself is checked for being one, not for its
parameters. -/
def memoTarget (label : Text) (am : Mark) (op : AssignOp) (left right : Expr) : Pass Ident :=
  if op ≠ .set then reject am.span.start label .watchShape
  else if right.suspends then reject right.span.start label .watchShape
  else if right.anonymous?.isNone then reject right.span.start label .watchRightNotFunction
  else match left with
    | .ident target => return target
    | _ => reject left.span.start label .watchLeftNotIdent

def checkEffect (label : Text) (x : Expr) : Pass Unit :=
  if x.anonymous?.isNone || x.suspends then reject x.span.start label .watchShape else return

mutual

def expr (o : Options) (s : ScopeId) : Expr → Pass Expr
  | .hole => return .hole
  | .ident i => return .ident i
  | .literal l => return .literal l
  | .this m => return .this m
  | .super m => return .super m
  | .assign m op (.ident i) right => do
    match ← reactive? i.name s with
    | none => return .assign m op (.ident i) (← expr o s right)
    | some b =>
      let c ← openCallback b (.ofName b.name m.span) right s m.span
      finishUpdate c (updated m op i (← expr o c.scope right))
  | .assign m op (.member mm x prop computed optional) right => do
    let c ← memberCallback? o (.assign m op (.member mm x prop computed optional) right) x s
    let x ← expr o (insideOf c s) x
    let prop ← if computed then expr o (insideOf c s) prop else pure prop
    let right ← expr o (insideOf c s) right
    finishMember c (.assign m op (.member mm x prop computed optional) right)
  | .assign m op left right => do
    let left ← pattern o s left
    return .assign m op left (← expr o s right)
  | .update m op before (.ident i) => do
    match ← reactive? i.name s with
    | none => return .update m op before (.ident i)
    | some b =>
      let c ← openCallback b (.ofName b.name m.span) .hole s m.span
      finishUpdate c (stepped m op i)
  | .update m op before (.member mm x prop computed optional) => do
    let c ← memberCallback? o (.update m op before (.member mm x prop computed optional)) x s
    let x ← expr o (insideOf c s) x
    let prop ← if computed then expr o (insideOf c s) prop else pure prop
    finishMember c (.update m op before (.member mm x prop computed optional))
  | .update m op before x => return .update m op before x
  | .arrow m isAsync params body => do
    let inner ← scopeOf m s
    let params ← patterns o inner params
    return .arrow m isAsync params (← arrowBody o inner body)
  | .function m f => return .function m (← func o s f)
  | .template m tag quasis es => do
    let tag ← expr? o s tag
    return .template m tag quasis (← exprs o s es)
  | .array m es => return .array m (← exprs o s es)
  | .object m es => return .object m (← exprs o s es)
  | .property m shape key value => do
    let key ← if shape.computed then expr o s key else pure key
    return .property m shape key (← expr o s value)
  | .spread m x => return .spread m (← expr o s x)
  | .unary m op x => return .unary m op (← expr o s x)
  | .binary m op x y => do
    let x ← expr o s x
    return .binary m op x (← expr o s y)
  | .cond m x y z => do
    let x ← expr o s x
    let y ← expr o s y
    return .cond m x y (← expr o s z)
  | .call m callee args optional => do
    let callee ← expr o s callee
    return .call m callee (← exprs o s args) optional
  | .new m callee args => do
    let callee ← expr o s callee
    return .new m callee (← exprs o s args)
  | .member m x prop computed optional => do
    let x ← expr o s x
    let prop ← if computed then expr o s prop else pure prop
    return .member m x prop computed optional
  | .seq m es => return .seq m (← exprs o s es)
  | .await m x => return .await m (← expr o s x)
  | .yield m delegate x => return .yield m delegate (← expr? o s x)
  | .arrayPattern m es => return .arrayPattern m (← patterns o s es)
  | .objectPattern m es => return .objectPattern m (← patterns o s es)
  | .assignPattern m left right => do
    let left ← pattern o s left
    return .assignPattern m left (← expr o s right)
  | .rest m x => return .rest m (← pattern o s x)

def expr? (o : Options) (s : ScopeId) : Option Expr → Pass (Option Expr)
  | none => return none
  | some e => return some (← expr o s e)

def exprs (o : Options) (s : ScopeId) : List Expr → Pass (List Expr)
  | [] => return []
  | e :: es => do
    let e ← expr o s e
    return e :: (← exprs o s es)

def pattern (o : Options) (s : ScopeId) : Expr → Pass Expr
  | .arrayPattern m es => return .arrayPattern m (← patterns o s es)
  | .objectPattern m es => return .objectPattern m (← patterns o s es)
  | .property m shape key value => do
    let key ← if shape.computed then expr o s key else pure key
    return .property m shape key (← pattern o s value)
  | .assignPattern m left right => do
    let left ← pattern o s left
    return .assignPattern m left (← expr o s right)
  | .rest m x => return .rest m (← pattern o s x)
  | .member m x prop computed optional => do
    let x ← expr o s x
    let prop ← if computed then expr o s prop else pure prop
    return .member m x prop computed optional
  | e => return e

def pattern? (o : Options) (s : ScopeId) : Option Expr → Pass (Option Expr)
  | none => return none
  | some e => return some (← pattern o s e)

def patterns (o : Options) (s : ScopeId) : List Expr → Pass (List Expr)
  | [] => return []
  | e :: es => do
    let e ← pattern o s e
    return e :: (← patterns o s es)

def func (o : Options) (s : ScopeId) : Func → Pass Func
  | .mk m name params body isAsync generator => do
    let inner ← scopeOf m s
    let params ← patterns o inner params
    return .mk m name params (← sharing o inner body) isAsync generator

def sharing (o : Options) (s : ScopeId) : Block → Pass Block
  | .mk m list => return .mk m (← stmts o s list)

def arrowBody (o : Options) (s : ScopeId) : Body → Pass Body
  | .block b => return .block (← sharing o s b)
  | .expr e => return .expr (← expr o s e)

def watcher (o : Options) (label : Text) (s : ScopeId) : Expr → Pass (Expr × List Expr)
  | .arrow m _ params body => do
    let deps ← dependencies label params
    let (mark, inner) ← openWatcher m m.span s
    return (.arrow mark false [] (← arrowBody o inner body), deps)
  | .function m (.mk fm _ params body _ _) => do
    let deps ← dependencies label params
    let (mark, inner) ← openWatcher fm m.span s
    return (.arrow mark false [] (.block (← sharing o inner body)), deps)
  | e => reject e.span.start label .watchShape

def declarators (o : Options) (s : ScopeId) : List Declarator → Pass (List Declarator)
  | [] => return []
  | .mk m target init :: ds => do
    let target ← pattern o s target
    let init ← expr? o s init
    return .mk m target init :: (← declarators o s ds)

def varDecl (o : Options) (s : ScopeId) : VarDecl → Pass VarDecl
  | .mk m kind ds => return .mk m kind (← declarators o s ds)

def forInit? (o : Options) (s : ScopeId) : Option ForHead → Pass (Option ForHead)
  | none => return none
  | some (.decl d) => return some (.decl (← varDecl o s d))
  | some (.expr e) => return some (.expr (← expr o s e))

def forTarget (o : Options) (s : ScopeId) : ForHead → Pass ForHead
  | .decl d => return .decl (← varDecl o s d)
  | .expr e => return .expr (← pattern o s e)

def block (o : Options) (s : ScopeId) : Block → Pass Block
  | .mk m list => do
    let inner ← scopeOf m s
    return .mk m (← stmts o inner list)

def block? (o : Options) (s : ScopeId) : Option Block → Pass (Option Block)
  | none => return none
  | some b => return some (← block o s b)

def handler? (o : Options) (s : ScopeId) : Option Catch → Pass (Option Catch)
  | none => return none
  | some (.mk m param body) => do
    let inner ← scopeOf m s
    let param ← pattern? o inner param
    return some (.mk m param (← sharing o inner body))

def cases (o : Options) (s : ScopeId) : List Case → Pass (List Case)
  | [] => return []
  | .mk m test body :: cs => do
    let test ← expr? o s test
    let body ← stmts o s body
    return .mk m test body :: (← cases o s cs)

def state (o : Options) (s : ScopeId) (m : Mark) (label : Text) : Stmt → Pass Stmt
  | .expr _ (.assign am op left right) => do
    let target ← stateTarget label am op left
    let b ← declareState target s m.span
    finishState o m am target b (← expr o s right)
  | .expr _ x => reject x.span.start label .stateNotAssignment
  | body => reject body.span.start label .stateNotExpression

def watch (o : Options) (s : ScopeId) (m : Mark) (label : Text) : Stmt → Pass Stmt
  | .expr _ (.assign am op left right) => do
    let target ← memoTarget label am op left right
    let (wrapper, deps) ← watcher o label s right
    finishMemo o m am target wrapper deps right.span s
  | .expr em x => do
    checkEffect label x
    let (wrapper, deps) ← watcher o label s x
    finishEffect o m em wrapper deps x.span
  | body => reject body.span.start label .watchShape

def stmt (o : Options) (s : ScopeId) : Stmt → Pass Stmt
  | .labeled m label body => do
    match o.classify label.name with
    | .unmatched => return .labeled m label (← stmt o s body)
    | .state => state o s m label.name body
    | .watch => watch o s m label.name body
  | .varDecl d => return .varDecl (← varDecl o s d)
  | .funcDecl m f => return .funcDecl m (← func o s f)
  | .expr m x => return .expr m (← expr o s x)
  | .block b => return .block (← block o s b)
  | .ret m x => return .ret m (← expr? o s x)
  | .ifElse m test yes no => do
    let test ← expr o s test
    let yes ← stmt o s yes
    return .ifElse m test yes (← stmt? o s no)
  | .forLoop m init test post body => do
    let inner ← scopeOf m s
    let init ← forInit? o inner init
    let test ← expr? o inner test
    let post ← expr? o inner post
    return .forLoop m init test post (← stmt o inner body)
  | .forIn m left right body isOf isAwait => do
    let inner ← scopeOf m s
    let left ← forTarget o inner left
    let right ← expr o inner right
    return .forIn m left right (← stmt o inner body) isOf isAwait
  | .whileLoop m test body => do
    let test ← expr o s test
    return .whileLoop m test (← stmt o s body)
  | .doWhile m body test => do
    let body ← stmt o s body
    return .doWhile m body (← expr o s test)
  | .throw m x => return .throw m (← expr o s x)
  | .tryCatch m b handler finalizer => do
    let b ← block o s b
    let handler ← handler? o s handler
    return .tryCatch m b handler (← block? o s finalizer)
  | .switch m disc cs => do
    let disc ← expr o s disc
    let inner ← scopeOf m s
    return .switch m disc (← cases o inner cs)
  | .exportDecl m isDefault decl => return .exportDecl m isDefault (← stmt o s decl)
  | .exportValue m value => return .exportValue m (← expr o s value)
  | .branch m isBreak label => return .branch m isBreak label
  | .empty m => return .empty m
  | .debugger m => return .debugger m
  | .imports m specs source => return .imports m specs source
  | .exportAll m name source => return .exportAll m name source
  | .exportNames m specs source => return .exportNames m specs source

def stmt? (o : Options) (s : ScopeId) : Option Stmt → Pass (Option Stmt)
  | none => return none
  | some st => return some (← stmt o s st)

def stmts (o : Options) (s : ScopeId) : List Stmt → Pass (List Stmt)
  | [] => return []
  | st :: sts => do
    let st ← stmt o s st
    return st :: (← stmts o s sts)

end

end Pass

structure Desugared where
  program : Program
  table : Table
  expansions : Expansions

inductive DesugarError where
  | options (e : OptionError)
  | label (e : LabelError)
deriving DecidableEq, Repr

private def summary (r : Expansions) : LogRecord :=
  .debug "desugar pass finished"
    [("bindings", Text.ofNat r.bindings.length), ("mutations", Text.ofNat r.mutations),
      ("wrapped", Text.ofNat r.wrapped), ("effects", Text.ofNat r.effects),
      ("memos", Text.ofNat r.memos)]

def Program.desugarWith (o : Options) (p : Program) :
    List LogRecord × Except LabelError Desugared :=
  let (q, next) := p.numbered
  let start : PassState :=
    { table := q.analyze, done := {}, taken := [], nextNode := next, log := [] }
  match (Pass.stmts o Table.root q.body).run.run start with
  | (.error e, s) => (s.log, .error e)
  | (.ok body, s) => (s.log ++ [summary s.done], .ok ⟨{ q with body }, s.table, s.done⟩)

def Program.desugar (o : Options) (p : Program) :
    List LogRecord × Except DesugarError Desugared :=
  match o.complete with
  | .error e => ([], .error (.options e))
  | .ok o =>
    match p.desugarWith o with
    | (log, .error e) => (log, .error (.label e))
    | (log, .ok d) => (log, .ok d)

end LabelHooks
