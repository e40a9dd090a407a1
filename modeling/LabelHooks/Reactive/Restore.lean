import LabelHooks.Source.Renames
import LabelHooks.Syntax.Shape

/-!
Giving watch functions their parameter names back. The parameters of a watch function are its
dependencies, so they have to name what stands around it; a tool that ran before may have renamed
a parameter that shadowed such a name. The uses of a restored parameter are restored with it, and
no other name changes.
-/

namespace LabelHooks.Restore

/-- The parameters of the watch functions around a place, innermost first. -/
abbrev Frames := List (List Expr)

/-- A choice of names for the identifiers of a tree, by the frames they stand in. -/
structure Naming where
  label : Text
  rename : Frames → Ident → Ident

namespace Naming

def importSpec (n : Naming) (fs : Frames) : ImportSpec → ImportSpec
  | .named m imported binding => .named m (n.rename fs imported) (n.rename fs binding)
  | .default m binding => .default m (n.rename fs binding)
  | .star m binding => .star m (n.rename fs binding)

def exportSpec (n : Naming) (fs : Frames) : ExportSpec → ExportSpec
  | ⟨m, source, exported⟩ => ⟨m, n.rename fs source, n.rename fs exported⟩

mutual

/-- The tree with other names and nothing else changed. A function directly under the label is a
frame for its body if it is anonymous, and each parameter of it is one for itself. -/
def expr (n : Naming) (fs : Frames) (watched : Bool) : Expr → Expr
  | .hole => .hole
  | .ident i => .ident (n.rename fs i)
  | .literal l => .literal l
  | .template m tag quasis es => .template m (n.expr? fs tag) quasis (n.exprs fs false es)
  | .this m => .this m
  | .super m => .super m
  | .array m es => .array m (n.exprs fs false es)
  | .object m es => .object m (n.exprs fs false es)
  | .property m shape key value => .property m shape (n.expr fs false key) (n.expr fs false value)
  | .spread m x => .spread m (n.expr fs false x)
  | .function m f => .function m (n.func fs watched f)
  | .arrow m isAsync params body =>
    .arrow m isAsync (n.exprs fs watched params)
      (n.body (if watched then params :: fs else fs) body)
  | .unary m op x => .unary m op (n.expr fs false x)
  | .update m op before x => .update m op before (n.expr fs false x)
  | .binary m op x y => .binary m op (n.expr fs false x) (n.expr fs false y)
  | .assign m op x y => .assign m op (n.expr fs false x) (n.expr fs false y)
  | .cond m x y z => .cond m (n.expr fs false x) (n.expr fs false y) (n.expr fs false z)
  | .call m callee args optional =>
    .call m (n.expr fs false callee) (n.exprs fs false args) optional
  | .new m callee args => .new m (n.expr fs false callee) (n.exprs fs false args)
  | .member m x prop computed optional =>
    .member m (n.expr fs false x) (n.expr fs false prop) computed optional
  | .seq m es => .seq m (n.exprs fs false es)
  | .await m x => .await m (n.expr fs false x)
  | .yield m delegate x => .yield m delegate (n.expr? fs x)
  | .arrayPattern m es => .arrayPattern m (n.exprs fs false es)
  | .objectPattern m es => .objectPattern m (n.exprs fs false es)
  | .assignPattern m x y => .assignPattern m (n.expr fs false x) (n.expr fs false y)
  | .rest m x => .rest m (n.expr fs false x)

def expr? (n : Naming) (fs : Frames) : Option Expr → Option Expr
  | none => none
  | some e => some (n.expr fs false e)

def exprs (n : Naming) (fs : Frames) (watched : Bool) : List Expr → List Expr
  | [] => []
  | .ident i :: es =>
    .ident (n.rename (if watched then [.ident i] :: fs else fs) i) :: n.exprs fs watched es
  | e :: es => n.expr fs false e :: n.exprs fs watched es

def func (n : Naming) (fs : Frames) (watched : Bool) : Func → Func
  | .mk m name params body isAsync generator =>
    let watched := watched && name.isNone && !generator
    .mk m (name.map (n.rename fs)) (n.exprs fs watched params)
      (n.block (if watched then params :: fs else fs) body) isAsync generator

def body (n : Naming) (fs : Frames) : Body → Body
  | .block b => .block (n.block fs b)
  | .expr e => .expr (n.expr fs false e)

def block (n : Naming) (fs : Frames) : Block → Block
  | .mk m list => .mk m (n.stmts fs list)

def block? (n : Naming) (fs : Frames) : Option Block → Option Block
  | none => none
  | some b => some (n.block fs b)

def varDecl (n : Naming) (fs : Frames) : VarDecl → VarDecl
  | .mk m kind ds => .mk m kind (n.declarators fs ds)

def declarators (n : Naming) (fs : Frames) : List Declarator → List Declarator
  | [] => []
  | .mk m target init :: ds =>
    .mk m (n.expr fs false target) (n.expr? fs init) :: n.declarators fs ds

def head (n : Naming) (fs : Frames) : ForHead → ForHead
  | .decl d => .decl (n.varDecl fs d)
  | .expr e => .expr (n.expr fs false e)

def head? (n : Naming) (fs : Frames) : Option ForHead → Option ForHead
  | none => none
  | some h => some (n.head fs h)

def handler? (n : Naming) (fs : Frames) : Option Catch → Option Catch
  | none => none
  | some (.mk m param body) => some (.mk m (n.expr? fs param) (n.block fs body))

def cases (n : Naming) (fs : Frames) : List Case → List Case
  | [] => []
  | .mk m test body :: cs => .mk m (n.expr? fs test) (n.stmts fs body) :: n.cases fs cs

def stmt (n : Naming) (fs : Frames) (watched : Bool) : Stmt → Stmt
  | .varDecl d => .varDecl (n.varDecl fs d)
  | .funcDecl m f => .funcDecl m (n.func fs false f)
  | .expr m (.assign am op left right) =>
    .expr m (.assign am op (n.expr fs false left) (n.expr fs watched right))
  | .expr m x => .expr m (n.expr fs watched x)
  | .block b => .block (n.block fs b)
  | .labeled m label body =>
    .labeled m (n.rename fs label) (n.stmt fs ((n.rename fs label).name = n.label) body)
  | .ret m x => .ret m (n.expr? fs x)
  | .ifElse m test yes no =>
    .ifElse m (n.expr fs false test) (n.stmt fs false yes) (n.stmt? fs no)
  | .forLoop m init test post body =>
    .forLoop m (n.head? fs init) (n.expr? fs test) (n.expr? fs post) (n.stmt fs false body)
  | .forIn m left right body isOf isAwait =>
    .forIn m (n.head fs left) (n.expr fs false right) (n.stmt fs false body) isOf isAwait
  | .whileLoop m test body => .whileLoop m (n.expr fs false test) (n.stmt fs false body)
  | .doWhile m body test => .doWhile m (n.stmt fs false body) (n.expr fs false test)
  | .branch m isBreak label => .branch m isBreak (label.map (n.rename fs))
  | .throw m x => .throw m (n.expr fs false x)
  | .tryCatch m block handler finalizer =>
    .tryCatch m (n.block fs block) (n.handler? fs handler) (n.block? fs finalizer)
  | .switch m disc cs => .switch m (n.expr fs false disc) (n.cases fs cs)
  | .empty m => .empty m
  | .debugger m => .debugger m
  | .imports m specs source => .imports m (specs.map (n.importSpec fs)) source
  | .exportDecl m isDefault decl => .exportDecl m isDefault (n.stmt fs false decl)
  | .exportValue m value => .exportValue m (n.expr fs false value)
  | .exportAll m name source => .exportAll m (name.map (n.rename fs)) source
  | .exportNames m specs source => .exportNames m (specs.map (n.exportSpec fs)) source

def stmt? (n : Naming) (fs : Frames) : Option Stmt → Option Stmt
  | none => none
  | some s => some (n.stmt fs false s)

def stmts (n : Naming) (fs : Frames) : List Stmt → List Stmt
  | [] => []
  | s :: ss => n.stmt fs false s :: n.stmts fs ss

end

def program (n : Naming) (p : Program) : Program := { p with body := n.stmts [] p.body }

end Naming

/-- The parameters restored in the enclosing watch functions, outermost first: the name each had
in the text and the one it got back, the latest first. -/
abbrev Restored := List (List (Text × Text))

def recorded (renames : Renames) (i : Ident) : Option Text :=
  renames.find? i.mark.span.start.offset

def apply (renames : Renames) (i : Ident) (names : List (Text × Text)) : Ident :=
  match names.lookup i.name with
  | none => i
  | some name => if (recorded renames i).getD [] = name then { i with name } else i

def ident (renames : Renames) (r : Restored) (i : Ident) : Ident := r.foldl (apply renames) i

def addName (renames : Renames) (r : Restored) (names : List (Text × Text)) :
    Expr → List (Text × Text)
  | .ident i =>
    match recorded renames i with
    | some name => ((ident renames r i).name, name) :: names
    | none => names
  | _ => names

def restored (renames : Renames) : Frames → Restored
  | [] => []
  | params :: fs =>
    let r := restored renames fs
    r ++ [params.foldl (addName renames r) []]

def naming (renames : Renames) (label : Text) : Naming :=
  ⟨label, fun fs => ident renames (restored renames fs)⟩

end Restore

def Program.restoreWatchParams (p : Program) (label : Text) (renames : Renames) : Program :=
  if renames.isEmpty then p else (Restore.naming renames label).program p

end LabelHooks
