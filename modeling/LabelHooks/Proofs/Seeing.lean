import LabelHooks.Grammar.Primary
import LabelHooks.Proofs.Feeds

/-!
How results of reading look through a view of the offsets: only the starts of the nodes are left of
their marks.
-/

namespace LabelHooks
set_option autoImplicit true

class Seen (α : Type) where
  seen : (Int → Int) → α → α

open Seen (seen)

instance : Seen Unit := ⟨fun _ u => u⟩
instance : Seen Bool := ⟨fun _ b => b⟩
instance : Seen PropKind := ⟨fun _ k => k⟩
instance : Seen Ident := ⟨fun v => Ident.marked (Mark.seen v)⟩
instance : Seen Literal := ⟨fun v => Literal.marked (Mark.seen v)⟩
instance : Seen Expr := ⟨fun v => Expr.marked (Mark.seen v)⟩
instance : Seen Body := ⟨fun v => Body.marked (Mark.seen v)⟩
instance : Seen Func := ⟨fun v => Func.marked (Mark.seen v)⟩
instance : Seen Block := ⟨fun v => Block.marked (Mark.seen v)⟩
instance : Seen Declarator := ⟨fun v => Declarator.marked (Mark.seen v)⟩
instance : Seen VarDecl := ⟨fun v => VarDecl.marked (Mark.seen v)⟩
instance : Seen ForHead := ⟨fun v => ForHead.marked (Mark.seen v)⟩
instance : Seen Catch := ⟨fun v => Catch.marked (Mark.seen v)⟩
instance : Seen Case := ⟨fun v => Case.marked (Mark.seen v)⟩
instance : Seen Stmt := ⟨fun v => Stmt.marked (Mark.seen v)⟩
instance : Seen ImportSpec := ⟨fun v => ImportSpec.marked (Mark.seen v)⟩
instance : Seen ExportSpec := ⟨fun v => ExportSpec.marked (Mark.seen v)⟩
instance : Seen Parse.Primary := ⟨fun v x => ⟨seen v x.expr, x.bareArrow⟩⟩
instance [Seen α] : Seen (List α) := ⟨fun v => List.map (seen v)⟩
instance [Seen α] : Seen (Option α) := ⟨fun v => Option.map (seen v)⟩
instance : Seen Parse.Group := ⟨fun v g => ⟨seen v g.items, g.onlyParams⟩⟩
instance [Seen α] [Seen β] : Seen (α × β) := ⟨fun v => Prod.map (seen v) (seen v)⟩
instance [Seen α] [Seen β] : Seen (α ⊕ β) := ⟨fun v => Sum.map (seen v) (seen v)⟩

variable (v : Int → Int)

@[simp] theorem Mark.seen_ofSpan (s : Span) :
    (Mark.ofSpan s).seen v = .ofSpan ⟨s.start.seen v, .none⟩ := rfl

@[simp] theorem Unit.seen_eq (u : Unit) : seen v u = u := rfl

@[simp] theorem Bool.seen_eq (b : Bool) : seen v b = b := rfl

@[simp] theorem PropKind.seen_eq (k : PropKind) : seen v k = k := rfl

@[simp] theorem Prod.seen_mk [Seen α] [Seen β] (a : α) (b : β) :
    seen v (a, b) = (seen v a, seen v b) := rfl

@[simp] theorem Sum.seen_inl [Seen α] [Seen β] (a : α) :
    seen v (.inl a : α ⊕ β) = .inl (seen v a) := rfl

@[simp] theorem Sum.seen_inr [Seen α] [Seen β] (b : β) :
    seen v (.inr b : α ⊕ β) = .inr (seen v b) := rfl

@[simp] theorem Option.seen_none [Seen α] : seen v (none : Option α) = none := rfl

@[simp] theorem Option.seen_some [Seen α] (a : α) : seen v (some a) = some (seen v a) := rfl

@[simp] theorem seen_nil [Seen α] : seen v ([] : List α) = [] := rfl

@[simp] theorem seen_cons [Seen α] (a : α) (as : List α) :
    seen v (a :: as) = seen v a :: seen v as := rfl

@[simp] theorem seen_append [Seen α] (as bs : List α) :
    seen v (as ++ bs) = seen v as ++ seen v bs := List.map_append

@[simp] theorem Ident.seen_mk : seen v (Ident.mk m u) = ⟨m.seen v, u⟩ := rfl

@[simp] theorem Ident.seen_copyIdent (i : Ident) : seen v (Parse.copyIdent i) = seen v i := rfl

@[simp] theorem Literal.seen_mk : seen v (Literal.mk m k u) = ⟨m.seen v, k, u⟩ := rfl

@[simp] theorem Parse.Primary.seen_mk : seen v (Parse.Primary.mk x b) = ⟨seen v x, b⟩ := rfl

@[simp] theorem Parse.seen_plain : seen v (Parse.plain x) = Parse.plain (seen v x) := rfl

@[simp] theorem Parse.Group.seen_mk : seen v (Parse.Group.mk xs b) = ⟨seen v xs, b⟩ := rfl

@[simp] theorem Body.seen_block : seen v (Body.block b) = .block (seen v b) := rfl

@[simp] theorem Body.seen_expr : seen v (Body.expr x) = .expr (seen v x) := rfl

@[simp] theorem ForHead.seen_decl : seen v (ForHead.decl d) = .decl (seen v d) := rfl

@[simp] theorem ForHead.seen_expr : seen v (ForHead.expr x) = .expr (seen v x) := rfl

@[simp] theorem ImportSpec.seen_named :
    seen v (ImportSpec.named m i j) = .named (m.seen v) (seen v i) (seen v j) := rfl

@[simp] theorem ImportSpec.seen_default :
    seen v (ImportSpec.default m i) = .default (m.seen v) (seen v i) := rfl

@[simp] theorem ImportSpec.seen_star :
    seen v (ImportSpec.star m i) = .star (m.seen v) (seen v i) := rfl

@[simp] theorem ExportSpec.seen_mk :
    seen v (ExportSpec.mk m i j) = ⟨m.seen v, seen v i, seen v j⟩ := rfl

@[simp] theorem Func.seen_mk : seen v (Func.mk m i ps b a g) =
    .mk (m.seen v) (seen v i) (seen v ps) (seen v b) a g := by simp [seen]

@[simp] theorem Block.seen_mk :
    seen v (Block.mk m ss) = .mk (m.seen v) (seen v ss) := by simp [seen]

@[simp] theorem Declarator.seen_mk :
    seen v (Declarator.mk m t x) = .mk (m.seen v) (seen v t) (seen v x) := by simp [seen]

@[simp] theorem VarDecl.seen_mk :
    seen v (VarDecl.mk m k ds) = .mk (m.seen v) k (seen v ds) := by simp [seen]

@[simp] theorem Catch.seen_mk :
    seen v (Catch.mk m x b) = .mk (m.seen v) (seen v x) (seen v b) := by simp [seen]

@[simp] theorem Case.seen_mk :
    seen v (Case.mk m x ss) = .mk (m.seen v) (seen v x) (seen v ss) := by simp [seen]

@[simp] theorem Expr.seen_hole : seen v Expr.hole = .hole := rfl

@[simp] theorem Expr.seen_ident : seen v (Expr.ident i) = .ident (seen v i) := rfl

@[simp] theorem Expr.seen_literal : seen v (Expr.literal l) = .literal (seen v l) := rfl

@[simp] theorem Expr.seen_template : seen v (Expr.template m tag qs es) =
    .template (m.seen v) (seen v tag) qs (seen v es) := by simp [seen]

@[simp] theorem Expr.seen_this : seen v (Expr.this m) = .this (m.seen v) := rfl

@[simp] theorem Expr.seen_super : seen v (Expr.super m) = .super (m.seen v) := rfl

@[simp] theorem Expr.seen_array :
    seen v (Expr.array m es) = .array (m.seen v) (seen v es) := by simp [seen]

@[simp] theorem Expr.seen_object :
    seen v (Expr.object m es) = .object (m.seen v) (seen v es) := by simp [seen]

@[simp] theorem Expr.seen_property :
    seen v (Expr.property m shape x y) = .property (m.seen v) shape (seen v x) (seen v y) := rfl

@[simp] theorem Expr.seen_spread : seen v (Expr.spread m x) = .spread (m.seen v) (seen v x) := rfl

@[simp] theorem Expr.seen_function :
    seen v (Expr.function m f) = .function (m.seen v) (seen v f) := rfl

@[simp] theorem Expr.seen_arrow : seen v (Expr.arrow m b ps body) =
    .arrow (m.seen v) b (seen v ps) (seen v body) := by simp [seen]

@[simp] theorem Expr.seen_unary :
    seen v (Expr.unary m op x) = .unary (m.seen v) op (seen v x) := rfl

@[simp] theorem Expr.seen_update :
    seen v (Expr.update m op b x) = .update (m.seen v) op b (seen v x) := rfl

@[simp] theorem Expr.seen_binary :
    seen v (Expr.binary m op x y) = .binary (m.seen v) op (seen v x) (seen v y) := rfl

@[simp] theorem Expr.seen_assign :
    seen v (Expr.assign m op x y) = .assign (m.seen v) op (seen v x) (seen v y) := rfl

@[simp] theorem Expr.seen_cond :
    seen v (Expr.cond m x y z) = .cond (m.seen v) (seen v x) (seen v y) (seen v z) := rfl

@[simp] theorem Expr.seen_call :
    seen v (Expr.call m x es o) = .call (m.seen v) (seen v x) (seen v es) o := by simp [seen]

@[simp] theorem Expr.seen_new :
    seen v (Expr.new m x es) = .new (m.seen v) (seen v x) (seen v es) := by simp [seen]

@[simp] theorem Expr.seen_member :
    seen v (Expr.member m x y c o) = .member (m.seen v) (seen v x) (seen v y) c o := rfl

@[simp] theorem Expr.seen_seq :
    seen v (Expr.seq m es) = .seq (m.seen v) (seen v es) := by simp [seen]

@[simp] theorem Expr.seen_await : seen v (Expr.await m x) = .await (m.seen v) (seen v x) := rfl

@[simp] theorem Expr.seen_yield :
    seen v (Expr.yield m d x) = .yield (m.seen v) d (seen v x) := by simp [seen]

@[simp] theorem Expr.seen_arrayPattern :
    seen v (Expr.arrayPattern m es) = .arrayPattern (m.seen v) (seen v es) := by simp [seen]

@[simp] theorem Expr.seen_objectPattern :
    seen v (Expr.objectPattern m es) = .objectPattern (m.seen v) (seen v es) := by simp [seen]

@[simp] theorem Expr.seen_assignPattern :
    seen v (Expr.assignPattern m x y) = .assignPattern (m.seen v) (seen v x) (seen v y) := rfl

@[simp] theorem Expr.seen_rest : seen v (Expr.rest m x) = .rest (m.seen v) (seen v x) := rfl

@[simp] theorem Stmt.seen_varDecl : seen v (Stmt.varDecl d) = .varDecl (seen v d) := rfl

@[simp] theorem Stmt.seen_funcDecl :
    seen v (Stmt.funcDecl m f) = .funcDecl (m.seen v) (seen v f) := rfl

@[simp] theorem Stmt.seen_expr : seen v (Stmt.expr m x) = .expr (m.seen v) (seen v x) := rfl

@[simp] theorem Stmt.seen_block : seen v (Stmt.block b) = .block (seen v b) := rfl

@[simp] theorem Stmt.seen_labeled :
    seen v (Stmt.labeled m i b) = .labeled (m.seen v) (seen v i) (seen v b) := rfl

@[simp] theorem Stmt.seen_ret : seen v (Stmt.ret m x) = .ret (m.seen v) (seen v x) := by simp [seen]

@[simp] theorem Stmt.seen_ifElse : seen v (Stmt.ifElse m x a b) =
    .ifElse (m.seen v) (seen v x) (seen v a) (seen v b) := by simp [seen]

@[simp] theorem Stmt.seen_forLoop : seen v (Stmt.forLoop m i x y b) =
    .forLoop (m.seen v) (seen v i) (seen v x) (seen v y) (seen v b) := by simp [seen]

@[simp] theorem Stmt.seen_forIn :
    seen v (Stmt.forIn m h x b o w) = .forIn (m.seen v) (seen v h) (seen v x) (seen v b) o w := rfl

@[simp] theorem Stmt.seen_whileLoop :
    seen v (Stmt.whileLoop m x b) = .whileLoop (m.seen v) (seen v x) (seen v b) := rfl

@[simp] theorem Stmt.seen_doWhile :
    seen v (Stmt.doWhile m b x) = .doWhile (m.seen v) (seen v b) (seen v x) := rfl

@[simp] theorem Stmt.seen_branch :
    seen v (Stmt.branch m k i) = .branch (m.seen v) k (seen v i) := rfl

@[simp] theorem Stmt.seen_throw : seen v (Stmt.throw m x) = .throw (m.seen v) (seen v x) := rfl

@[simp] theorem Stmt.seen_tryCatch : seen v (Stmt.tryCatch m b c d) =
    .tryCatch (m.seen v) (seen v b) (seen v c) (seen v d) := by simp [seen]

@[simp] theorem Stmt.seen_switch :
    seen v (Stmt.switch m x cs) = .switch (m.seen v) (seen v x) (seen v cs) := by simp [seen]

@[simp] theorem Stmt.seen_empty : seen v (Stmt.empty m) = .empty (m.seen v) := rfl

@[simp] theorem Stmt.seen_debugger : seen v (Stmt.debugger m) = .debugger (m.seen v) := rfl

@[simp] theorem Stmt.seen_imports :
    seen v (Stmt.imports m ss l) = .imports (m.seen v) (seen v ss) (seen v l) := rfl

@[simp] theorem Stmt.seen_exportDecl :
    seen v (Stmt.exportDecl m d s) = .exportDecl (m.seen v) d (seen v s) := rfl

@[simp] theorem Stmt.seen_exportValue :
    seen v (Stmt.exportValue m x) = .exportValue (m.seen v) (seen v x) := rfl

@[simp] theorem Stmt.seen_exportAll :
    seen v (Stmt.exportAll m i l) = .exportAll (m.seen v) (seen v i) (seen v l) := rfl

@[simp] theorem Stmt.seen_exportNames :
    seen v (Stmt.exportNames m ss l) = .exportNames (m.seen v) (seen v ss) (seen v l) := rfl

@[simp] theorem Stmt.seen_addLead (s : Stmt) (cs : List Comment) :
    seen v (s.addLead cs) = seen v s := by
  cases s with
  | varDecl d => cases d; rfl
  | block b => cases b; rfl
  | _ => rfl

theorem VarDecl.seen_withMark {v v' : Int → Int} {d d' : VarDecl} (hd : seen v d = seen v' d')
    (hm : m.seen v = m'.seen v') : seen v (d.withMark m) = seen v' (d'.withMark m') := by
  cases d
  cases d'
  simp_all [VarDecl.withMark]

end LabelHooks
