import LabelHooks.Syntax.Tree

/-!
Trees with other marks or other names. Two trees are the same up to spans and comments if they are
equal once every mark is replaced by a blank one.
-/

namespace LabelHooks
set_option autoImplicit true

/-- What becomes of the marks of a tree and of the names of its identifiers. -/
structure Marking where
  mark : Mark → Mark
  name : Text → Text

namespace Marking

instance : CoeFun Marking fun _ => Mark → Mark := ⟨mark⟩

@[coe] def ofMark (f : Mark → Mark) : Marking := ⟨f, id⟩

instance : Coe (Mark → Mark) Marking := ⟨ofMark⟩

@[simp] theorem mark_ofMark (f : Mark → Mark) : (ofMark f).mark = f := rfl

def comp (g f : Marking) : Marking := ⟨g.mark ∘ f.mark, g.name ∘ f.name⟩

end Marking

def Ident.marked (f : Marking) (i : Ident) : Ident := ⟨f i.mark, f.name i.name⟩

def Literal.marked (f : Marking) (l : Literal) : Literal := { l with mark := f l.mark }

def ImportSpec.marked (f : Marking) : ImportSpec → ImportSpec
  | .named k i j => .named (f k) (i.marked f) (j.marked f)
  | .default k i => .default (f k) (i.marked f)
  | .star k i => .star (f k) (i.marked f)

def ExportSpec.marked (f : Marking) (s : ExportSpec) : ExportSpec :=
  ⟨f s.mark, s.source.marked f, s.exported.marked f⟩

mutual

@[simp] def Expr.marked (f : Marking) : Expr → Expr
  | .hole => .hole
  | .ident i => .ident (i.marked f)
  | .literal l => .literal (l.marked f)
  | .template k tag quasis es => .template (f k) (Expr.marked? f tag) quasis (Expr.markedList f es)
  | .this k => .this (f k)
  | .super k => .super (f k)
  | .array k es => .array (f k) (Expr.markedList f es)
  | .object k es => .object (f k) (Expr.markedList f es)
  | .property k shape x y => .property (f k) shape (x.marked f) (y.marked f)
  | .spread k x => .spread (f k) (x.marked f)
  | .function k g => .function (f k) (g.marked f)
  | .arrow k isAsync ps body => .arrow (f k) isAsync (Expr.markedList f ps) (body.marked f)
  | .unary k op x => .unary (f k) op (x.marked f)
  | .update k op before x => .update (f k) op before (x.marked f)
  | .binary k op x y => .binary (f k) op (x.marked f) (y.marked f)
  | .assign k op x y => .assign (f k) op (x.marked f) (y.marked f)
  | .cond k x y z => .cond (f k) (x.marked f) (y.marked f) (z.marked f)
  | .call k c as optional => .call (f k) (c.marked f) (Expr.markedList f as) optional
  | .new k c as => .new (f k) (c.marked f) (Expr.markedList f as)
  | .member k x y computed optional => .member (f k) (x.marked f) (y.marked f) computed optional
  | .seq k es => .seq (f k) (Expr.markedList f es)
  | .await k x => .await (f k) (x.marked f)
  | .yield k delegate x => .yield (f k) delegate (Expr.marked? f x)
  | .arrayPattern k es => .arrayPattern (f k) (Expr.markedList f es)
  | .objectPattern k es => .objectPattern (f k) (Expr.markedList f es)
  | .assignPattern k x y => .assignPattern (f k) (x.marked f) (y.marked f)
  | .rest k x => .rest (f k) (x.marked f)

def Expr.marked? (f : Marking) : Option Expr → Option Expr
  | none => none
  | some e => some (e.marked f)

def Expr.markedList (f : Marking) : List Expr → List Expr
  | [] => []
  | e :: es => e.marked f :: Expr.markedList f es

@[simp] def Body.marked (f : Marking) : Body → Body
  | .block b => .block (b.marked f)
  | .expr x => .expr (x.marked f)

@[simp] def Func.marked (f : Marking) : Func → Func
  | .mk k name ps body isAsync generator =>
    .mk (f k) (name.map (Ident.marked f)) (Expr.markedList f ps) (body.marked f) isAsync generator

@[simp] def Block.marked (f : Marking) : Block → Block
  | .mk k list => .mk (f k) (Stmt.markedList f list)

def Block.marked? (f : Marking) : Option Block → Option Block
  | none => none
  | some b => some (b.marked f)

@[simp] def Declarator.marked (f : Marking) : Declarator → Declarator
  | .mk k target init => .mk (f k) (target.marked f) (Expr.marked? f init)

def Declarator.markedList (f : Marking) : List Declarator → List Declarator
  | [] => []
  | d :: ds => d.marked f :: Declarator.markedList f ds

@[simp] def VarDecl.marked (f : Marking) : VarDecl → VarDecl
  | .mk k kind ds => .mk (f k) kind (Declarator.markedList f ds)

@[simp] def ForHead.marked (f : Marking) : ForHead → ForHead
  | .decl d => .decl (d.marked f)
  | .expr x => .expr (x.marked f)

def ForHead.marked? (f : Marking) : Option ForHead → Option ForHead
  | none => none
  | some h => some (h.marked f)

@[simp] def Catch.marked (f : Marking) : Catch → Catch
  | .mk k param body => .mk (f k) (Expr.marked? f param) (body.marked f)

def Catch.marked? (f : Marking) : Option Catch → Option Catch
  | none => none
  | some c => some (c.marked f)

@[simp] def Case.marked (f : Marking) : Case → Case
  | .mk k test body => .mk (f k) (Expr.marked? f test) (Stmt.markedList f body)

def Case.markedList (f : Marking) : List Case → List Case
  | [] => []
  | c :: cs => c.marked f :: Case.markedList f cs

@[simp] def Stmt.marked (f : Marking) : Stmt → Stmt
  | .varDecl d => .varDecl (d.marked f)
  | .funcDecl k g => .funcDecl (f k) (g.marked f)
  | .expr k x => .expr (f k) (x.marked f)
  | .block b => .block (b.marked f)
  | .labeled k l body => .labeled (f k) (l.marked f) (body.marked f)
  | .ret k x => .ret (f k) (Expr.marked? f x)
  | .ifElse k test yes no => .ifElse (f k) (test.marked f) (yes.marked f) (Stmt.marked? f no)
  | .forLoop k init test post body =>
    .forLoop (f k) (ForHead.marked? f init) (Expr.marked? f test) (Expr.marked? f post)
      (body.marked f)
  | .forIn k left right body isOf isAwait =>
    .forIn (f k) (left.marked f) (right.marked f) (body.marked f) isOf isAwait
  | .whileLoop k test body => .whileLoop (f k) (test.marked f) (body.marked f)
  | .doWhile k body test => .doWhile (f k) (body.marked f) (test.marked f)
  | .branch k isBreak l => .branch (f k) isBreak (l.map (Ident.marked f))
  | .throw k x => .throw (f k) (x.marked f)
  | .tryCatch k b c d => .tryCatch (f k) (b.marked f) (Catch.marked? f c) (Block.marked? f d)
  | .switch k x cs => .switch (f k) (x.marked f) (Case.markedList f cs)
  | .empty k => .empty (f k)
  | .debugger k => .debugger (f k)
  | .imports k specs source => .imports (f k) (specs.map (ImportSpec.marked f)) (source.marked f)
  | .exportDecl k isDefault s => .exportDecl (f k) isDefault (s.marked f)
  | .exportValue k x => .exportValue (f k) (x.marked f)
  | .exportAll k name source => .exportAll (f k) (name.map (Ident.marked f)) (source.marked f)
  | .exportNames k specs source =>
    .exportNames (f k) (specs.map (ExportSpec.marked f)) (source.map (Literal.marked f))

def Stmt.marked? (f : Marking) : Option Stmt → Option Stmt
  | none => none
  | some s => some (s.marked f)

def Stmt.markedList (f : Marking) : List Stmt → List Stmt
  | [] => []
  | s :: ss => s.marked f :: Stmt.markedList f ss

end

@[simp] def Program.marked (f : Marking) (p : Program) : Program :=
  { p with mark := f p.mark, body := p.body.map (Stmt.marked f) }

def Mark.blank : Mark := .ofSpan .none

def Program.plain (p : Program) : Program :=
  { p.marked (.ofMark fun _ => .blank) with comments := [] }

section Collections

variable (f : Marking)

@[simp] theorem Expr.marked?_eq (e : Option Expr) : Expr.marked? f e = e.map (Expr.marked f) := by
  cases e <;> rfl

@[simp] theorem Expr.markedList_eq (es : List Expr) :
    Expr.markedList f es = es.map (Expr.marked f) := by
  induction es with
  | nil => rfl
  | cons e es ih => rw [Expr.markedList, ih, List.map_cons]

@[simp] theorem Block.marked?_eq (b : Option Block) :
    Block.marked? f b = b.map (Block.marked f) := by
  cases b <;> rfl

@[simp] theorem Declarator.markedList_eq (ds : List Declarator) :
    Declarator.markedList f ds = ds.map (Declarator.marked f) := by
  induction ds with
  | nil => rfl
  | cons d ds ih => rw [Declarator.markedList, ih, List.map_cons]

@[simp] theorem ForHead.marked?_eq (h : Option ForHead) :
    ForHead.marked? f h = h.map (ForHead.marked f) := by
  cases h <;> rfl

@[simp] theorem Catch.marked?_eq (c : Option Catch) :
    Catch.marked? f c = c.map (Catch.marked f) := by
  cases c <;> rfl

@[simp] theorem Case.markedList_eq (cs : List Case) :
    Case.markedList f cs = cs.map (Case.marked f) := by
  induction cs with
  | nil => rfl
  | cons c cs ih => rw [Case.markedList, ih, List.map_cons]

@[simp] theorem Stmt.marked?_eq (s : Option Stmt) : Stmt.marked? f s = s.map (Stmt.marked f) := by
  cases s <;> rfl

@[simp] theorem Stmt.markedList_eq (ss : List Stmt) :
    Stmt.markedList f ss = ss.map (Stmt.marked f) := by
  induction ss with
  | nil => rfl
  | cons s ss ih => rw [Stmt.markedList, ih, List.map_cons]

end Collections

section Composition

variable (g f : Marking)

@[simp] theorem Ident.marked_comp : Ident.marked g ∘ Ident.marked f = Ident.marked (g.comp f) := rfl

@[simp] theorem Literal.marked_comp :
    Literal.marked g ∘ Literal.marked f = Literal.marked (g.comp f) := rfl

@[simp] theorem ImportSpec.marked_comp :
    ImportSpec.marked g ∘ ImportSpec.marked f = ImportSpec.marked (g.comp f) := by
  funext s
  cases s <;> rfl

@[simp] theorem ExportSpec.marked_comp :
    ExportSpec.marked g ∘ ExportSpec.marked f = ExportSpec.marked (g.comp f) := rfl

/-- Marking twice is marking once. -/
def Fuses (marked : Marking → α → α) (a : α) : Prop :=
  marked g (marked f a) = marked (g.comp f) a

-- By induction over the tree: a node is marked alone, and what is below it fuses.
theorem Stmt.marked_marked (s : Stmt) : (s.marked f).marked g = s.marked (g.comp f) := by
  apply Stmt.marked.induct (Fuses g f Expr.marked) (Fuses g f Body.marked) (Fuses g f Block.marked)
    (Fuses g f Stmt.markedList) (Fuses g f Stmt.marked) (Fuses g f Case.markedList)
    (Fuses g f Case.marked) (Fuses g f Expr.marked?) (Fuses g f Block.marked?)
    (Fuses g f Catch.marked?) (Fuses g f Catch.marked) (Fuses g f ForHead.marked)
    (Fuses g f VarDecl.marked) (Fuses g f Declarator.markedList) (Fuses g f Declarator.marked)
    (Fuses g f ForHead.marked?) (Fuses g f Stmt.marked?) (Fuses g f Func.marked)
    (Fuses g f Expr.markedList)
  all_goals
    intros
    simp_all [Fuses, Marking.comp, Ident.marked, Literal.marked]

end Composition

theorem Stmt.map_plain_eq {f g : Mark → Mark} {ss ss' : List Stmt}
    (h : ss.map (Stmt.marked f) = ss'.map (Stmt.marked g)) :
    ss.map (Stmt.marked (.ofMark fun _ => .blank)) =
      ss'.map (Stmt.marked (.ofMark fun _ => .blank)) := by
  have hblank := congrArg (List.map (Stmt.marked (.ofMark fun _ => .blank))) h
  simp only [List.map_map, Function.comp_def, Stmt.marked_marked] at hblank
  exact hblank

end LabelHooks
