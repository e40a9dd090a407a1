import LabelHooks.Proofs.Targets

/-!
Comments attached to statements. A reader deals with the comments of its lexer from the first to
the last, and gives each to at most one statement: so what the statements of a tree hold, in the
order of a walk, is what the reader has dealt with so far, perhaps with comments left out.
-/

namespace LabelHooks
set_option autoImplicit true

/-- A comment that a statement holds, and where the statement starts. -/
structure Attachment where
  comment : Comment
  start : Position

def Mark.attached (m : Mark) : List Attachment := m.lead.map fun c => ⟨c, m.span.start⟩

@[simp] theorem Mark.attached_ofSpan (span : Span) : (Mark.ofSpan span).attached = [] := rfl

/-! What the statements outside the substitutions of templates hold, in the order of a walk. The
body of a function and the declaration in the head of a loop are statements too. -/

mutual

def Expr.attached : Expr → List Attachment
  | .hole | .ident _ | .literal _ | .this _ | .super _ => []
  | .template _ tag _ _ => Expr.attached? tag
  | .array _ es | .object _ es | .seq _ es | .arrayPattern _ es | .objectPattern _ es =>
    Expr.attachedList es
  | .spread _ x | .unary _ _ x | .update _ _ _ x | .await _ x | .rest _ x => x.attached
  | .property _ _ x y | .binary _ _ x y | .assign _ _ x y | .member _ x y _ _
  | .assignPattern _ x y => x.attached ++ y.attached
  | .function _ f => f.attached
  | .arrow _ _ ps body => Expr.attachedList ps ++ body.attached
  | .cond _ x y z => x.attached ++ (y.attached ++ z.attached)
  | .call _ c as _ | .new _ c as => c.attached ++ Expr.attachedList as
  | .yield _ _ x => Expr.attached? x

def Expr.attached? : Option Expr → List Attachment
  | none => []
  | some e => e.attached

def Expr.attachedList : List Expr → List Attachment
  | [] => []
  | e :: es => e.attached ++ Expr.attachedList es

def Body.attached : Body → List Attachment
  | .block b => b.attached
  | .expr e => e.attached

def Func.attached : Func → List Attachment
  | .mk _ _ ps body _ _ => Expr.attachedList ps ++ body.attached

def Block.attached : Block → List Attachment
  | .mk m list => m.attached ++ Stmt.attachedList list

def Block.attached? : Option Block → List Attachment
  | none => []
  | some b => b.attached

def Declarator.attachedList : List Declarator → List Attachment
  | [] => []
  | .mk _ target init :: ds =>
    target.attached ++ (Expr.attached? init ++ Declarator.attachedList ds)

def VarDecl.attached : VarDecl → List Attachment
  | .mk m _ ds => m.attached ++ Declarator.attachedList ds

def ForHead.attached : ForHead → List Attachment
  | .decl d => d.attached
  | .expr e => e.attached

def ForHead.attached? : Option ForHead → List Attachment
  | none => []
  | some h => h.attached

def Catch.attached : Catch → List Attachment
  | .mk _ param body => Expr.attached? param ++ body.attached

def Catch.attached? : Option Catch → List Attachment
  | none => []
  | some c => c.attached

def Case.attachedList : List Case → List Attachment
  | [] => []
  | .mk _ test body :: cs =>
    Expr.attached? test ++ (Stmt.attachedList body ++ Case.attachedList cs)

def Stmt.attached : Stmt → List Attachment
  | .varDecl d => d.attached
  | .funcDecl m f => m.attached ++ f.attached
  | .block b => b.attached
  | .labeled m _ s | .exportDecl m _ s => m.attached ++ s.attached
  | .expr m x | .throw m x | .exportValue m x => m.attached ++ x.attached
  | .ret m x => m.attached ++ Expr.attached? x
  | .ifElse m test yes no =>
    m.attached ++ (test.attached ++ (yes.attached ++ Stmt.attached? no))
  | .forLoop m init test post body =>
    m.attached ++ (ForHead.attached? init ++
      (Expr.attached? test ++ (Expr.attached? post ++ body.attached)))
  | .forIn m left right body _ _ =>
    m.attached ++ (left.attached ++ (right.attached ++ body.attached))
  | .whileLoop m test body => m.attached ++ (test.attached ++ body.attached)
  | .doWhile m body test => m.attached ++ (body.attached ++ test.attached)
  | .tryCatch m block handler finalizer =>
    m.attached ++ (block.attached ++ (Catch.attached? handler ++ Block.attached? finalizer))
  | .switch m disc cases => m.attached ++ (disc.attached ++ Case.attachedList cases)
  | .branch m _ _ | .empty m | .debugger m | .imports m _ _ | .exportAll m _ _
  | .exportNames m _ _ => m.attached

def Stmt.attached? : Option Stmt → List Attachment
  | none => []
  | some s => s.attached

def Stmt.attachedList : List Stmt → List Attachment
  | [] => []
  | s :: ss => s.attached ++ Stmt.attachedList ss

end

def Program.attached (p : Program) : List Attachment := Stmt.attachedList p.body

@[simp] theorem Expr.attachedList_append (es fs : List Expr) :
    attachedList (es ++ fs) = attachedList es ++ attachedList fs := by
  induction es with
  | nil => rfl
  | cons e es ih => rw [List.cons_append, attachedList, attachedList, ih, List.append_assoc]

@[simp] theorem Stmt.attachedList_append (ss ts : List Stmt) :
    attachedList (ss ++ ts) = attachedList ss ++ attachedList ts := by
  induction ss with
  | nil => rfl
  | cons s ss ih => rw [List.cons_append, attachedList, attachedList, ih, List.append_assoc]

@[simp] theorem Declarator.attachedList_append (ds es : List Declarator) :
    attachedList (ds ++ es) = attachedList ds ++ attachedList es := by
  induction ds with
  | nil => rfl
  | cons d ds ih =>
    cases d
    rw [List.cons_append, attachedList, attachedList, ih]
    simp only [List.append_assoc]

@[simp] theorem Case.attachedList_append (cs ds : List Case) :
    attachedList (cs ++ ds) = attachedList cs ++ attachedList ds := by
  induction cs with
  | nil => rfl
  | cons c cs ih =>
    cases c
    rw [List.cons_append, attachedList, attachedList, ih]
    simp only [List.append_assoc]

/-- Comments put before a statement without any are the first that it holds. -/
theorem Stmt.attached_addLead {s : Stmt} {span : Span} (h : s.mark = .ofSpan span)
    (cs : List Comment) :
    (s.addLead cs).attached = cs.map (⟨·, span.start⟩) ++ s.attached := by
  cases s with
  | varDecl d =>
    cases d
    cases h
    simp [addLead, withMark, VarDecl.withMark, mark, VarDecl.mark, attached, VarDecl.attached,
      Mark.attached]
  | block b =>
    cases b
    cases h
    simp [addLead, withMark, mark, Block.mark, attached, Block.attached, Mark.attached]
  | _ =>
    cases h
    simp [addLead, withMark, mark, attached, Mark.attached]

end LabelHooks
