import LabelHooks.Syntax.Tree

/-!
The outline of a tree: its nodes without what they hold, each above its children. A walk meets
every node before its children and the children in the order of their fields; names of
properties and members are children too.
-/

namespace LabelHooks

inductive NodeKind where
  | program | varDecl | declarator | function | funcDecl | exprStmt | blockStmt | labeledStmt
  | returnStmt | ifStmt | forStmt | forInStmt | whileStmt | doWhileStmt | branchStmt | throwStmt
  | tryStmt | catchClause | switchStmt | caseClause | emptyStmt | debuggerStmt | importDecl
  | importSpec | exportDecl | exportSpec | ident | literal | templateLit | thisExpr | superExpr
  | arrayLit | property | objectLit | spreadElem | funcExpr | arrowFunc | unaryExpr | updateExpr
  | binaryExpr | assignExpr | condExpr | callExpr | newExpr | memberExpr | seqExpr | awaitExpr
  | yieldExpr | arrayPattern | objectPattern | assignPattern | restElem
deriving DecidableEq, Repr

namespace NodeKind

def name : NodeKind → Text
  | .program => "Program"
  | .varDecl => "VarDecl"
  | .declarator => "Declarator"
  | .function => "Function"
  | .funcDecl => "FuncDecl"
  | .exprStmt => "ExprStmt"
  | .blockStmt => "BlockStmt"
  | .labeledStmt => "LabeledStmt"
  | .returnStmt => "ReturnStmt"
  | .ifStmt => "IfStmt"
  | .forStmt => "ForStmt"
  | .forInStmt => "ForInStmt"
  | .whileStmt => "WhileStmt"
  | .doWhileStmt => "DoWhileStmt"
  | .branchStmt => "BranchStmt"
  | .throwStmt => "ThrowStmt"
  | .tryStmt => "TryStmt"
  | .catchClause => "CatchClause"
  | .switchStmt => "SwitchStmt"
  | .caseClause => "CaseClause"
  | .emptyStmt => "EmptyStmt"
  | .debuggerStmt => "DebuggerStmt"
  | .importDecl => "ImportDecl"
  | .importSpec => "ImportSpec"
  | .exportDecl => "ExportDecl"
  | .exportSpec => "ExportSpec"
  | .ident => "Ident"
  | .literal => "Literal"
  | .templateLit => "TemplateLit"
  | .thisExpr => "ThisExpr"
  | .superExpr => "SuperExpr"
  | .arrayLit => "ArrayLit"
  | .property => "Property"
  | .objectLit => "ObjectLit"
  | .spreadElem => "SpreadElem"
  | .funcExpr => "FuncExpr"
  | .arrowFunc => "ArrowFunc"
  | .unaryExpr => "UnaryExpr"
  | .updateExpr => "UpdateExpr"
  | .binaryExpr => "BinaryExpr"
  | .assignExpr => "AssignExpr"
  | .condExpr => "CondExpr"
  | .callExpr => "CallExpr"
  | .newExpr => "NewExpr"
  | .memberExpr => "MemberExpr"
  | .seqExpr => "SeqExpr"
  | .awaitExpr => "AwaitExpr"
  | .yieldExpr => "YieldExpr"
  | .arrayPattern => "ArrayPattern"
  | .objectPattern => "ObjectPattern"
  | .assignPattern => "AssignPattern"
  | .restElem => "RestElem"

end NodeKind

structure Node where
  kind : NodeKind
  mark : Mark
  name : Text := []
deriving DecidableEq, Repr

namespace Node

def ofIdent (i : Ident) : Node := ⟨.ident, i.mark, i.name⟩

def ofLiteral (l : Literal) : Node := ⟨.literal, l.mark, []⟩

def label (n : Node) : Text :=
  n.kind.name ++ ("@" : Text) ++ Text.ofInt n.mark.span.start.offset ++ ("-" : Text) ++
    Text.ofInt n.mark.span.stop.offset

end Node

inductive Outline where
  | mk (node : Node) (children : List Outline)

namespace Outline

def node : Outline → Node
  | .mk n _ => n

def leaf (n : Node) : Outline := .mk n []

def ofIdent (i : Ident) : Outline := leaf (.ofIdent i)

def ofLiteral (l : Literal) : Outline := leaf (.ofLiteral l)

mutual

def walk (enter : Node → Bool) : Outline → List Node
  | .mk n inner => n :: if enter n then walkList enter inner else []

def walkList (enter : Node → Bool) : List Outline → List Node
  | [] => []
  | o :: os => o.walk enter ++ walkList enter os

end

mutual

def find? (p : Node → Bool) : Outline → Option Outline
  | .mk n inner => if p n then some (.mk n inner) else findIn? p inner

def findIn? (p : Node → Bool) : List Outline → Option Outline
  | [] => none
  | o :: os =>
    match o.find? p with
    | some found => some found
    | none => findIn? p os

end

end Outline

def Outline.above (n : Node) (inner : List Outline) : List Outline := [.mk n inner]

open Outline (leaf above ofIdent ofLiteral)

namespace ImportSpec

def outline (s : ImportSpec) : List Outline :=
  above ⟨.importSpec, s.mark, []⟩ <|
    match s with
    | .named _ imported binding => [ofIdent imported, ofIdent binding]
    | .default _ binding | .star _ binding => [ofIdent binding]

end ImportSpec

namespace ExportSpec

def outline (s : ExportSpec) : List Outline :=
  above ⟨.exportSpec, s.mark, []⟩ [ofIdent s.source, ofIdent s.exported]

end ExportSpec

mutual

def Expr.outline : Expr → List Outline
  | .hole => []
  | .ident i => [ofIdent i]
  | .literal l => [ofLiteral l]
  | .template m tag _ es =>
    above ⟨.templateLit, m, []⟩ (Expr.outline? tag ++ Expr.outlineList es)
  | .this m => [leaf ⟨.thisExpr, m, []⟩]
  | .super m => [leaf ⟨.superExpr, m, []⟩]
  | .array m es => above ⟨.arrayLit, m, []⟩ (Expr.outlineList es)
  | .object m es => above ⟨.objectLit, m, []⟩ (Expr.outlineList es)
  | .property m _ k v => above ⟨.property, m, []⟩ (k.outline ++ v.outline)
  | .spread m x => above ⟨.spreadElem, m, []⟩ (x.outline)
  | .function m f => above ⟨.funcExpr, m, []⟩ f.outline
  | .arrow m _ ps body => above ⟨.arrowFunc, m, []⟩ (Expr.outlineList ps ++ body.outline)
  | .unary m _ x => above ⟨.unaryExpr, m, []⟩ (x.outline)
  | .update m _ _ x => above ⟨.updateExpr, m, []⟩ (x.outline)
  | .binary m _ x y => above ⟨.binaryExpr, m, []⟩ (x.outline ++ y.outline)
  | .assign m _ x y => above ⟨.assignExpr, m, []⟩ (x.outline ++ y.outline)
  | .cond m x y z =>
    above ⟨.condExpr, m, []⟩ (x.outline ++ y.outline ++ z.outline)
  | .call m c as _ => above ⟨.callExpr, m, []⟩ (c.outline ++ Expr.outlineList as)
  | .new m c as => above ⟨.newExpr, m, []⟩ (c.outline ++ Expr.outlineList as)
  | .member m x p _ _ => above ⟨.memberExpr, m, []⟩ (x.outline ++ p.outline)
  | .seq m es => above ⟨.seqExpr, m, []⟩ (Expr.outlineList es)
  | .await m x => above ⟨.awaitExpr, m, []⟩ (x.outline)
  | .yield m _ x => above ⟨.yieldExpr, m, []⟩ (Expr.outline? x)
  | .arrayPattern m es => above ⟨.arrayPattern, m, []⟩ (Expr.outlineList es)
  | .objectPattern m es => above ⟨.objectPattern, m, []⟩ (Expr.outlineList es)
  | .assignPattern m x y => above ⟨.assignPattern, m, []⟩ (x.outline ++ y.outline)
  | .rest m x => above ⟨.restElem, m, []⟩ (x.outline)

def Expr.outline? : Option Expr → List Outline
  | none => []
  | some e => e.outline

def Expr.outlineList : List Expr → List Outline
  | [] => []
  | e :: es => e.outline ++ Expr.outlineList es

def Body.outline : Body → List Outline
  | .block b => b.outline
  | .expr e => e.outline

def Func.outline : Func → List Outline
  | .mk m name ps body _ _ =>
    above ⟨.function, m, []⟩ (name.toList.map ofIdent ++ Expr.outlineList ps ++ body.outline)

def Block.outline : Block → List Outline
  | .mk m list => above ⟨.blockStmt, m, []⟩ (Stmt.outlineList list)

def Block.outline? : Option Block → List Outline
  | none => []
  | some b => b.outline

def Declarator.outlineList : List Declarator → List Outline
  | [] => []
  | .mk m target init :: ds =>
    above ⟨.declarator, m, []⟩ (target.outline ++ Expr.outline? init) ++ Declarator.outlineList ds

def VarDecl.outline : VarDecl → List Outline
  | .mk m _ ds => above ⟨.varDecl, m, []⟩ (Declarator.outlineList ds)

def ForHead.outline : ForHead → List Outline
  | .decl d => d.outline
  | .expr e => e.outline

def ForHead.outline? : Option ForHead → List Outline
  | none => []
  | some h => h.outline

def Catch.outline? : Option Catch → List Outline
  | none => []
  | some (.mk m param body) => above ⟨.catchClause, m, []⟩ (Expr.outline? param ++ body.outline)

def Case.outlineList : List Case → List Outline
  | [] => []
  | .mk m test body :: cs =>
    above ⟨.caseClause, m, []⟩ (Expr.outline? test ++ Stmt.outlineList body) ++ Case.outlineList cs

def Stmt.outline : Stmt → List Outline
  | .varDecl d => d.outline
  | .funcDecl m f => above ⟨.funcDecl, m, []⟩ f.outline
  | .expr m x => above ⟨.exprStmt, m, []⟩ (x.outline)
  | .block b => b.outline
  | .labeled m label body =>
    above ⟨.labeledStmt, m, label.name⟩ (ofIdent label :: body.outline)
  | .ret m x => above ⟨.returnStmt, m, []⟩ (Expr.outline? x)
  | .ifElse m test yes no =>
    above ⟨.ifStmt, m, []⟩ (test.outline ++ yes.outline ++ Stmt.outline? no)
  | .forLoop m init test post body =>
    above ⟨.forStmt, m, []⟩
      (ForHead.outline? init ++ Expr.outline? test ++ Expr.outline? post ++ body.outline)
  | .forIn m left right body _ _ =>
    above ⟨.forInStmt, m, []⟩ (left.outline ++ right.outline ++ body.outline)
  | .whileLoop m test body =>
    above ⟨.whileStmt, m, []⟩ (test.outline ++ body.outline)
  | .doWhile m body test =>
    above ⟨.doWhileStmt, m, []⟩ (body.outline ++ test.outline)
  | .branch m _ label => above ⟨.branchStmt, m, []⟩ (label.toList.map ofIdent)
  | .throw m x => above ⟨.throwStmt, m, []⟩ (x.outline)
  | .tryCatch m block handler finalizer =>
    above ⟨.tryStmt, m, []⟩
      (block.outline ++ Catch.outline? handler ++ Block.outline? finalizer)
  | .switch m disc cases =>
    above ⟨.switchStmt, m, []⟩ (disc.outline ++ Case.outlineList cases)
  | .empty m => [leaf ⟨.emptyStmt, m, []⟩]
  | .debugger m => [leaf ⟨.debuggerStmt, m, []⟩]
  | .imports m specs source =>
    above ⟨.importDecl, m, []⟩ (specs.flatMap (·.outline) ++ [ofLiteral source])
  | .exportDecl m _ decl => above ⟨.exportDecl, m, []⟩ (decl.outline)
  | .exportValue m value => above ⟨.exportDecl, m, []⟩ (value.outline)
  | .exportAll m name source =>
    above ⟨.exportDecl, m, []⟩ (name.toList.map ofIdent ++ [ofLiteral source])
  | .exportNames m specs source =>
    above ⟨.exportDecl, m, []⟩
      (specs.flatMap (·.outline) ++ source.toList.map ofLiteral)

def Stmt.outline? : Option Stmt → List Outline
  | none => []
  | some s => s.outline

def Stmt.outlineList : List Stmt → List Outline
  | [] => []
  | s :: ss => s.outline ++ Stmt.outlineList ss

end

namespace Program

def outline (p : Program) : Outline := .mk ⟨.program, p.mark, []⟩ (Stmt.outlineList p.body)

def walk (enter : Node → Bool) (p : Program) : List Node := p.outline.walk enter

def nodes (p : Program) : List Node := p.walk fun _ => true

end Program
end LabelHooks
