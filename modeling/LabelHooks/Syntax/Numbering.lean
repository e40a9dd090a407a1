import LabelHooks.Syntax.Outline

/-!
Changing the marks of a tree, node by node in the order of the walk, and numbering: the program
is node zero and every other node has the number of nodes before it.
-/

namespace LabelHooks

variable {m : Type → Type} [Monad m]

namespace Ident

def visit (f : Mark → m Mark) (i : Ident) : m Ident := return { i with mark := ← f i.mark }

end Ident

namespace Literal

def visit (f : Mark → m Mark) (l : Literal) : m Literal := return { l with mark := ← f l.mark }

end Literal

namespace ImportSpec

def visit (f : Mark → m Mark) : ImportSpec → m ImportSpec
  | .named k imported binding =>
    return .named (← f k) (← imported.visit f) (← binding.visit f)
  | .default k binding => return .default (← f k) (← binding.visit f)
  | .star k binding => return .star (← f k) (← binding.visit f)

end ImportSpec

namespace ExportSpec

def visit (f : Mark → m Mark) (s : ExportSpec) : m ExportSpec :=
  return ⟨← f s.mark, ← s.source.visit f, ← s.exported.visit f⟩

end ExportSpec

def visitIdent? (f : Mark → m Mark) : Option Ident → m (Option Ident)
  | none => return none
  | some i => return some (← i.visit f)

def visitLiteral? (f : Mark → m Mark) : Option Literal → m (Option Literal)
  | none => return none
  | some l => return some (← l.visit f)

mutual

def Expr.visit (f : Mark → m Mark) : Expr → m Expr
  | .hole => return .hole
  | .ident i => return .ident (← i.visit f)
  | .literal l => return .literal (← l.visit f)
  | .template k tag quasis es => do
    let k ← f k
    let tag ← Expr.visit? f tag
    return .template k tag quasis (← Expr.visitList f es)
  | .this k => return .this (← f k)
  | .super k => return .super (← f k)
  | .array k es => return .array (← f k) (← Expr.visitList f es)
  | .object k es => return .object (← f k) (← Expr.visitList f es)
  | .property k shape key value =>
    return .property (← f k) shape (← key.visit f) (← value.visit f)
  | .spread k x => return .spread (← f k) (← x.visit f)
  | .function k func => return .function (← f k) (← func.visit f)
  | .arrow k a ps body => return .arrow (← f k) a (← Expr.visitList f ps) (← body.visit f)
  | .unary k op x => return .unary (← f k) op (← x.visit f)
  | .update k op before x => return .update (← f k) op before (← x.visit f)
  | .binary k op x y => return .binary (← f k) op (← x.visit f) (← y.visit f)
  | .assign k op x y => return .assign (← f k) op (← x.visit f) (← y.visit f)
  | .cond k x y z => return .cond (← f k) (← x.visit f) (← y.visit f) (← z.visit f)
  | .call k c as optional =>
    return .call (← f k) (← c.visit f) (← Expr.visitList f as) optional
  | .new k c as => return .new (← f k) (← c.visit f) (← Expr.visitList f as)
  | .member k x p computed optional =>
    return .member (← f k) (← x.visit f) (← p.visit f) computed optional
  | .seq k es => return .seq (← f k) (← Expr.visitList f es)
  | .await k x => return .await (← f k) (← x.visit f)
  | .yield k delegate x => return .yield (← f k) delegate (← Expr.visit? f x)
  | .arrayPattern k es => return .arrayPattern (← f k) (← Expr.visitList f es)
  | .objectPattern k es => return .objectPattern (← f k) (← Expr.visitList f es)
  | .assignPattern k x y => return .assignPattern (← f k) (← x.visit f) (← y.visit f)
  | .rest k x => return .rest (← f k) (← x.visit f)

def Expr.visit? (f : Mark → m Mark) : Option Expr → m (Option Expr)
  | none => return none
  | some e => return some (← e.visit f)

def Expr.visitList (f : Mark → m Mark) : List Expr → m (List Expr)
  | [] => return []
  | e :: es => return (← e.visit f) :: (← Expr.visitList f es)

def Body.visit (f : Mark → m Mark) : Body → m Body
  | .block b => return .block (← b.visit f)
  | .expr e => return .expr (← e.visit f)

def Func.visit (f : Mark → m Mark) : Func → m Func
  | .mk k name ps body a g =>
    return .mk (← f k) (← visitIdent? f name) (← Expr.visitList f ps) (← body.visit f) a g

def Block.visit (f : Mark → m Mark) : Block → m Block
  | .mk k list => return .mk (← f k) (← Stmt.visitList f list)

def Block.visit? (f : Mark → m Mark) : Option Block → m (Option Block)
  | none => return none
  | some b => return some (← b.visit f)

def Declarator.visitList (f : Mark → m Mark) : List Declarator → m (List Declarator)
  | [] => return []
  | .mk k target init :: ds =>
    return .mk (← f k) (← target.visit f) (← Expr.visit? f init) :: (← Declarator.visitList f ds)

def VarDecl.visit (f : Mark → m Mark) : VarDecl → m VarDecl
  | .mk k kind ds => return .mk (← f k) kind (← Declarator.visitList f ds)

def ForHead.visit (f : Mark → m Mark) : ForHead → m ForHead
  | .decl d => return .decl (← d.visit f)
  | .expr e => return .expr (← e.visit f)

def ForHead.visit? (f : Mark → m Mark) : Option ForHead → m (Option ForHead)
  | none => return none
  | some h => return some (← h.visit f)

def Catch.visit? (f : Mark → m Mark) : Option Catch → m (Option Catch)
  | none => return none
  | some (.mk k param body) =>
    return some (.mk (← f k) (← Expr.visit? f param) (← body.visit f))

def Case.visitList (f : Mark → m Mark) : List Case → m (List Case)
  | [] => return []
  | .mk k test body :: cs =>
    return .mk (← f k) (← Expr.visit? f test) (← Stmt.visitList f body) :: (← Case.visitList f cs)

def Stmt.visit (f : Mark → m Mark) : Stmt → m Stmt
  | .varDecl d => return .varDecl (← d.visit f)
  | .funcDecl k func => return .funcDecl (← f k) (← func.visit f)
  | .expr k x => return .expr (← f k) (← x.visit f)
  | .block b => return .block (← b.visit f)
  | .labeled k label body => return .labeled (← f k) (← label.visit f) (← body.visit f)
  | .ret k x => return .ret (← f k) (← Expr.visit? f x)
  | .ifElse k test yes no =>
    return .ifElse (← f k) (← test.visit f) (← yes.visit f) (← Stmt.visit? f no)
  | .forLoop k init test post body =>
    return .forLoop (← f k) (← ForHead.visit? f init) (← Expr.visit? f test)
      (← Expr.visit? f post) (← body.visit f)
  | .forIn k left right body isOf isAwait =>
    return .forIn (← f k) (← left.visit f) (← right.visit f) (← body.visit f) isOf isAwait
  | .whileLoop k test body => return .whileLoop (← f k) (← test.visit f) (← body.visit f)
  | .doWhile k body test => return .doWhile (← f k) (← body.visit f) (← test.visit f)
  | .branch k isBreak label => return .branch (← f k) isBreak (← visitIdent? f label)
  | .throw k x => return .throw (← f k) (← x.visit f)
  | .tryCatch k block handler finalizer =>
    return .tryCatch (← f k) (← block.visit f) (← Catch.visit? f handler)
      (← Block.visit? f finalizer)
  | .switch k disc cases => return .switch (← f k) (← disc.visit f) (← Case.visitList f cases)
  | .empty k => return .empty (← f k)
  | .debugger k => return .debugger (← f k)
  | .imports k specs source =>
    return .imports (← f k) (← specs.mapM (·.visit f)) (← source.visit f)
  | .exportDecl k isDefault decl => return .exportDecl (← f k) isDefault (← decl.visit f)
  | .exportValue k value => return .exportValue (← f k) (← value.visit f)
  | .exportAll k name source =>
    return .exportAll (← f k) (← visitIdent? f name) (← source.visit f)
  | .exportNames k specs source =>
    return .exportNames (← f k) (← specs.mapM (·.visit f)) (← visitLiteral? f source)

def Stmt.visit? (f : Mark → m Mark) : Option Stmt → m (Option Stmt)
  | none => return none
  | some s => return some (← s.visit f)

def Stmt.visitList (f : Mark → m Mark) : List Stmt → m (List Stmt)
  | [] => return []
  | s :: ss => return (← s.visit f) :: (← Stmt.visitList f ss)

end

namespace Program

def visit (f : Mark → m Mark) (p : Program) : m Program :=
  return { p with mark := ← f p.mark, body := ← Stmt.visitList f p.body }

def nextNumber (k : Mark) : StateM Nat Mark := do
  let n ← get
  set (n + 1)
  return { k with id := some n }

def numbered (p : Program) : Program × Nat := (p.visit nextNumber).run 0

end Program
end LabelHooks
