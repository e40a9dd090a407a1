import LabelHooks.Grammar.Expression
import LabelHooks.Proofs.Parts

/-!
Well-formed parts. Every part of a tree has the children it cannot do without, each of a form that
its place allows: holes stand in arrays only, a rest is the last in its list, and what is assigned
to can be assigned to. The check is local; a tree is well-formed if all its parts are.
-/

namespace LabelHooks
set_option autoImplicit true

open Parse (isSimpleTarget)

namespace Expr

def isValue : Expr → Bool
  | .hole | .property _ _ _ _ | .spread _ _ | .rest _ _ => false
  | _ => true

@[simp] theorem isValue_ident (i : Ident) : (Expr.ident i).isValue = true := rfl

@[simp] theorem isValue_function (m : Mark) (f : Func) :
    (Expr.function m f).isValue = true := rfl

def isRest : Expr → Bool
  | .rest _ _ => true
  | _ => false

def isArgument : Expr → Bool
  | .spread _ _ => true
  | e => e.isValue

def isElement : Expr → Bool
  | .hole => true
  | e => e.isArgument

def isSlot : Expr → Bool
  | .hole => true
  | e => e.isValue

def isMember : Expr → Bool
  | .property _ _ _ _ | .spread _ _ => true
  | _ => false

def isField : Expr → Bool
  | .property _ shape _ _ => shape.kind = .init && !shape.method
  | _ => false

def isBinding : Expr → Bool
  | .ident _ | .arrayPattern _ _ | .objectPattern _ _ => true
  | _ => false

def restLast (form : Expr → Bool) (es : List Expr) : Bool :=
  es.dropLast.all form && es.getLast?.all fun e => form e || e.isRest

theorem restLast_of_all (h : ∀ e ∈ es, form e = true) : restLast form es = true := by
  rw [restLast, Bool.and_eq_true, List.all_eq_true]
  constructor
  · intro e he
    exact h e (List.dropLast_subset es he)
  · rw [Option.all_eq_true]
    intro e he
    rw [h e (List.mem_of_getLast? he), Bool.true_or]

theorem restLast_concat (hes : ∀ e ∈ es, form e = true) (he : form e = true ∨ e.isRest = true) :
    restLast form (es ++ [e]) = true := by
  simp only [restLast, List.dropLast_concat, List.getLast?_concat, Option.all_some,
    Bool.and_eq_true, List.all_eq_true, Bool.or_eq_true]
  exact ⟨hes, he⟩

theorem restLast_cons : restLast form (e :: es) = true ↔
      (form e = true ∨ (e.isRest = true ∧ es = [])) ∧ restLast form es = true := by
  cases es with
  | nil => simp [restLast]
  | cons e' es => simp [restLast, and_assoc]

theorem restLast_mono (h : ∀ e, form e = true → form' e = true) (hes : restLast form es = true) :
    restLast form' es = true := by
  induction es with
  | nil => rfl
  | cons e es ih =>
    rw [restLast_cons] at hes ⊢
    exact ⟨hes.1.imp_left (h e), ih hes.2⟩

theorem isSlot_of_isValue {e : Expr} (h : e.isValue = true) : e.isSlot = true := by
  cases e <;> first | exact h | rfl

theorem isValue_of_isBinding {e : Expr} (h : e.isBinding = true) : e.isValue = true := by
  cases e <;> first | rfl | cases h

end Expr

namespace Body

def wellFormed : Body → Bool
  | .block _ => true
  | .expr e => e.isValue

end Body

namespace Func

def wellFormed : Func → Bool
  | .mk _ _ params _ _ _ => Expr.restLast Expr.isValue params

end Func

namespace Expr

def wellFormed : Expr → Bool
  | .hole => false
  | .ident i => !i.name.isEmpty
  | .literal _ | .this _ | .super _ => true
  | .template _ tag quasis es =>
    tag.all isValue && quasis.length = es.length + 1 && es.all isValue
  | .array _ es => es.all isElement
  | .object _ members => members.all isMember
  | .property _ _ key value => key.isValue && value.isValue
  | .function _ f => f.wellFormed
  | .arrow _ _ params body => restLast isValue params && body.wellFormed
  | .spread _ x | .unary _ _ x | .await _ x | .rest _ x => x.isValue
  | .update _ _ _ x => isSimpleTarget x
  | .assign _ op left right => left.isValue && right.isValue && (op = .set || isSimpleTarget left)
  | .cond _ x y z => x.isValue && y.isValue && z.isValue
  | .call _ callee args _ | .new _ callee args => callee.isValue && args.all isArgument
  | .binary _ _ x y | .member _ x y _ _ | .assignPattern _ x y => x.isValue && y.isValue
  | .seq _ es => 2 ≤ es.length && es.all isValue
  | .yield _ _ x => x.all isValue
  | .arrayPattern _ es => restLast isSlot es
  | .objectPattern _ members => restLast isField members

end Expr

namespace Declarator

def wellFormed : Declarator → Bool
  | .mk _ target init => target.isBinding && init.all Expr.isValue

end Declarator

namespace VarDecl

def wellFormed : VarDecl → Bool
  | .mk _ _ decls => !decls.isEmpty && decls.all Declarator.wellFormed

def isSingle : VarDecl → Bool
  | .mk _ _ [.mk _ _ none] => true
  | _ => false

end VarDecl

namespace ForHead

def wellFormed : ForHead → Bool
  | .decl d => d.wellFormed
  | .expr e => e.isValue

end ForHead

namespace Catch

def wellFormed : Catch → Bool
  | .mk _ param _ => param.all Expr.isBinding

end Catch

namespace Case

def wellFormed : Case → Bool
  | .mk _ test _ => test.all Expr.isValue

end Case

namespace Stmt

/-- The statement has the children that it cannot do without. One without text, as it stands for a
statement that could not be read, is not well-formed. -/
def wellFormed : Stmt → Bool
  | .varDecl d => d.wellFormed
  | .funcDecl _ f => f.name?.isSome && f.wellFormed
  | .expr _ x | .throw _ x | .exportValue _ x | .whileLoop _ x _ | .doWhile _ _ x
  | .ifElse _ x _ _ => x.isValue
  | .ret _ x => x.all Expr.isValue
  | .forLoop _ init test post _ =>
    init.all ForHead.wellFormed && test.all Expr.isValue && post.all Expr.isValue
  | .forIn _ (.decl d) right _ _ _ => d.wellFormed && d.isSingle && right.isValue
  | .forIn _ (.expr left) right _ _ _ => left.isValue && right.isValue
  | .tryCatch _ _ handler finalizer =>
    handler.all Catch.wellFormed && (handler.isSome || finalizer.isSome)
  | .switch _ disc cases => disc.isValue && cases.all Case.wellFormed
  | .empty m => m.span.start.offset < m.span.stop.offset
  | .exportDecl _ _ decl =>
    match decl with
    | .varDecl _ | .funcDecl _ _ => true
    | _ => false
  | .block _ | .labeled _ _ _ | .branch _ _ _ | .debugger _ | .imports _ _ _ | .exportAll _ _ _
  | .exportNames _ _ _ => true

theorem wellFormed_withMark {s : Stmt} (h : m.span = s.mark.span) :
    (s.withMark m).wellFormed = s.wellFormed := by
  cases s with
  | varDecl d =>
    cases d
    rfl
  | block b =>
    cases b
    rfl
  | empty m' =>
    have hspan : m.span = m'.span := h
    simp only [withMark, wellFormed, hspan]
  | forIn _ left =>
    cases left <;> rfl
  | _ => rfl

end Stmt

namespace Part

def wellFormed : Part → Bool
  | .expr e => e.wellFormed
  | .stmt s => s.wellFormed

end Part
end LabelHooks
