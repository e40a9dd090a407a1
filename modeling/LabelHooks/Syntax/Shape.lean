import LabelHooks.Syntax.Tree

/-!
Shapes of expressions: precedence, the base of a member chain, anonymous functions; and the
nodes that stand for generated code, which take the span of what they replace.
-/

namespace LabelHooks

namespace Expr

def prec : Expr → Prec
  | .seq _ _ => .sequence
  | .assign _ _ _ _ | .arrow _ _ _ _ | .yield _ _ _ | .assignPattern _ _ _ => .assign
  | .cond _ _ _ _ => .conditional
  | .binary _ op _ _ => op.prec
  | .unary _ _ _ | .await _ _ => .prefixed
  | .update _ _ before _ => if before then .prefixed else .postfixed
  | .new _ _ args => if args.isEmpty then .new else .call
  | .call _ _ _ _ | .member _ _ _ _ _ => .call
  | .template _ tag _ _ => if tag.isSome then .call else .primary
  | _ => .primary

def isObject : Expr → Bool
  | .object _ _ | .objectPattern _ _ => true
  | _ => false

def rootIdent? : Expr → Option Ident
  | .ident i => some i
  | .member _ x _ _ _ => x.rootIdent?
  | _ => none

/-- Parameters and body of an arrow function or of a function expression without a name that is
no generator. -/
def anonymous? : Expr → Option (List Expr × Body)
  | .arrow _ _ params body => some (params, body)
  | .function _ (.mk _ none params body _ false) => some (params, .block body)
  | _ => none

def suspends : Expr → Bool
  | .arrow _ isAsync _ _ => isAsync
  | .function _ (.mk _ _ _ _ isAsync generator) => isAsync || generator
  | _ => false

end Expr

namespace Ident

def ofName (name : Text) (span : Span) : Ident := ⟨.ofSpan span, name⟩

end Ident

namespace Expr

def ofName (name : Text) (span : Span) : Expr := .ident (.ofName name span)

def extend (span : Span) (path : Option Expr) (part : Text) : Option Expr :=
  if part.isEmpty then path
  else match path with
    | none => some (.ofName part span)
    | some x => some (.member (.ofSpan span) x (.ofName part span) false false)

def ofPath? (path : Text) (span : Span) : Option Expr :=
  (Text.splitOn (byte '.') path).foldl (extend span) none

def callOf (callee : Expr) (args : List Expr) (span : Span) : Expr :=
  .call (.ofSpan span) callee args false

end Expr

namespace VarDecl

def const (target init : Expr) (mark : Mark) : VarDecl :=
  .mk mark .const [.mk (.ofSpan mark.span) target (some init)]

end VarDecl
end LabelHooks
