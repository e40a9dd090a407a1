import LabelHooks.Scope.Table

/-!
Building the scope table of a numbered program. A `var` belongs to the nearest function or to the
program; `let`, `const` and function declarations to their block; parameters to the function,
whose body shares its scope.
-/

namespace LabelHooks.Analysis

abbrev Analyze := StateM Table

def enter (kind : ScopeKind) (node : Node) (s : ScopeId) : Analyze ScopeId := do
  let (inner, t) := (← get).child s kind (some node)
  set (t.bind node.mark inner)
  return inner

def refer (name : Text) : Analyze Unit :=
  if name.isEmpty then return else modify (·.addReference name)

def declareIdent (kind : BindingKind) (s : ScopeId) (i : Ident) : Analyze Unit :=
  modify (·.declare s i.name kind (some i))

def share (body : Mark) (s : ScopeId) : Analyze Unit := modify (·.bind body s)

def declKind : DeclKind → BindingKind
  | .var => .var
  | .let_ => .let_
  | .const => .const

def declScope (kind : DeclKind) (s : ScopeId) : Analyze ScopeId := do
  match kind with
  | .var => return (← get).functionScope s
  | .let_ | .const => return s

def declareName (kind : BindingKind) (s : ScopeId) : Option Ident → Analyze Unit
  | none => return
  | some i => declareIdent kind s i

mutual

def expr (s : ScopeId) : Expr → Analyze Unit
  | .hole | .literal _ | .this _ | .super _ => return
  | .ident i => refer i.name
  | .template _ tag _ es => do
    expr? s tag
    exprs s es
  | .array _ es | .arrayPattern _ es | .object _ es | .objectPattern _ es | .seq _ es => exprs s es
  | .property _ shape key value => do
    if shape.computed then expr s key
    expr s value
  | .spread _ x | .rest _ x | .unary _ _ x | .update _ _ _ x | .await _ x => expr s x
  | .function _ f => func true s f
  | .arrow m _ params body => do
    let inner ← enter .function ⟨.arrowFunc, m, []⟩ s
    declareList .param inner inner params
    arrowBody inner body
  | .binary _ _ x y | .assign _ _ x y | .assignPattern _ x y => do
    expr s x
    expr s y
  | .cond _ x y z => do
    expr s x
    expr s y
    expr s z
  | .call _ callee args _ | .new _ callee args => do
    expr s callee
    exprs s args
  | .member _ x prop computed _ => do
    expr s x
    if computed then expr s prop
  | .yield _ _ x => expr? s x

def expr? (s : ScopeId) : Option Expr → Analyze Unit
  | none => return
  | some e => expr s e

def exprs (s : ScopeId) : List Expr → Analyze Unit
  | [] => return
  | e :: es => do
    expr s e
    exprs s es

/-- Declare every identifier of a binding pattern in `owner`. Default values and computed keys
are evaluated in `s`. -/
def declare (kind : BindingKind) (owner s : ScopeId) : Expr → Analyze Unit
  | .ident i => declareIdent kind owner i
  | .arrayPattern _ es | .objectPattern _ es => declareList kind owner s es
  | .property _ shape key value => do
    if shape.computed then expr s key
    declare kind owner s value
  | .assignPattern _ left right => do
    declare kind owner s left
    expr s right
  | .rest _ x => declare kind owner s x
  | _ => return

def declare? (kind : BindingKind) (owner s : ScopeId) : Option Expr → Analyze Unit
  | none => return
  | some e => declare kind owner s e

def declareList (kind : BindingKind) (owner s : ScopeId) : List Expr → Analyze Unit
  | [] => return
  | e :: es => do
    declare kind owner s e
    declareList kind owner s es

def func (isExpr : Bool) (s : ScopeId) : Func → Analyze Unit
  | .mk m name params body _ _ => do
    let inner ← enter .function ⟨.function, m, []⟩ s
    if isExpr then declareName .local_ inner name
    declareList .param inner inner params
    sharing inner body

def sharing (s : ScopeId) : Block → Analyze Unit
  | .mk m list => do
    share m s
    stmts s list

def arrowBody (s : ScopeId) : Body → Analyze Unit
  | .block b => sharing s b
  | .expr e => expr s e

def declarators (kind : BindingKind) (owner s : ScopeId) : List Declarator → Analyze Unit
  | [] => return
  | .mk _ target init :: ds => do
    declare kind owner s target
    expr? s init
    declarators kind owner s ds

def varDecl (s : ScopeId) : VarDecl → Analyze Unit
  | .mk _ kind ds => do
    let owner ← declScope kind s
    declarators (declKind kind) owner s ds

def forHead (s : ScopeId) : ForHead → Analyze Unit
  | .decl d => varDecl s d
  | .expr e => expr s e

def forHead? (s : ScopeId) : Option ForHead → Analyze Unit
  | none => return
  | some h => forHead s h

def block (s : ScopeId) : Block → Analyze Unit
  | .mk m list => do
    let inner ← enter .block ⟨.blockStmt, m, []⟩ s
    stmts inner list

def block? (s : ScopeId) : Option Block → Analyze Unit
  | none => return
  | some b => block s b

def handler? (s : ScopeId) : Option Catch → Analyze Unit
  | none => return
  | some (.mk m param body) => do
    let inner ← enter .catch_ ⟨.catchClause, m, []⟩ s
    declare? .catch_ inner inner param
    sharing inner body

def cases (s : ScopeId) : List Case → Analyze Unit
  | [] => return
  | .mk _ test body :: cs => do
    expr? s test
    stmts s body
    cases s cs

def stmt (s : ScopeId) : Stmt → Analyze Unit
  | .varDecl d => varDecl s d
  | .funcDecl _ f => do
    declareName .function s f.name?
    func false s f
  | .expr _ x => expr s x
  | .block b => block s b
  | .labeled _ label body => do
    modify (·.addLabel label.name)
    stmt s body
  | .ret _ x => expr? s x
  | .ifElse _ test yes no => do
    expr s test
    stmt s yes
    stmt? s no
  | .forLoop m init test post body => do
    let inner ← enter .for_ ⟨.forStmt, m, []⟩ s
    forHead? inner init
    expr? inner test
    expr? inner post
    stmt inner body
  | .forIn m left right body _ _ => do
    let inner ← enter .for_ ⟨.forInStmt, m, []⟩ s
    forHead inner left
    expr inner right
    stmt inner body
  | .whileLoop _ test body => do
    expr s test
    stmt s body
  | .doWhile _ body test => do
    stmt s body
    expr s test
  | .throw _ x => expr s x
  | .tryCatch _ b handler finalizer => do
    block s b
    handler? s handler
    block? s finalizer
  | .switch m disc cs => do
    expr s disc
    let inner ← enter .block ⟨.switchStmt, m, []⟩ s
    cases inner cs
  | .imports _ specs _ => do
    let owner := (← get).functionScope s
    specs.forM fun spec => declareIdent .import_ owner spec.binding
  | .exportDecl _ _ decl => stmt s decl
  | .exportValue _ value => expr s value
  | .exportNames _ specs none => specs.forM fun spec => refer spec.source.name
  | .exportNames _ _ (some _) | .exportAll _ _ _ | .branch _ _ _ | .empty _ | .debugger _ => return

def stmt? (s : ScopeId) : Option Stmt → Analyze Unit
  | none => return
  | some st => stmt s st

def stmts (s : ScopeId) : List Stmt → Analyze Unit
  | [] => return
  | st :: sts => do
    stmt s st
    stmts s sts

end

end Analysis

def Program.analyze (p : Program) : Table :=
  ((Analysis.stmts Table.root p.body).run (Table.ofProgram p)).2

end LabelHooks
