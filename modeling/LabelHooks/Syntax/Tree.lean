import LabelHooks.Source.Position
import LabelHooks.Syntax.Operator

/-!
Syntax trees. Patterns are expressions, because an assignment target is first read as an
expression and recognised as a pattern afterwards; every node carries a `Mark`.
-/

namespace LabelHooks

/-- Where a node stands, the comments before it, and the number that tells it from other nodes
of its tree; trees that were never numbered have no numbers. -/
structure Mark where
  span : Span
  lead : List Comment := []
  id : Option Nat := none
deriving DecidableEq, Repr

namespace Mark

def ofSpan (span : Span) : Mark := { span }

end Mark

structure Ident where
  mark : Mark
  name : Text
deriving DecidableEq, Repr

inductive LiteralKind where
  | number | string | regexp | true | false | null
deriving DecidableEq, Repr

def LiteralKind.token : LiteralKind → Token.Kind
  | .number => .number
  | .string => .string
  | .regexp => .regexp
  | .true => .trueKw
  | .false => .falseKw
  | .null => .nullKw

structure Literal where
  mark : Mark
  kind : LiteralKind
  raw : Text
deriving DecidableEq, Repr

inductive DeclKind where
  | var | let_ | const
deriving DecidableEq, Repr

inductive PropKind where
  | init | get | set
deriving DecidableEq, Repr

structure PropShape where
  kind : PropKind
  computed : Bool
  shorthand : Bool
  method : Bool
deriving DecidableEq, Repr

inductive ImportSpec where
  | named (mark : Mark) (imported binding : Ident)
  | default (mark : Mark) (binding : Ident)
  | star (mark : Mark) (binding : Ident)
deriving DecidableEq, Repr

structure ExportSpec where
  mark : Mark
  source : Ident
  exported : Ident
deriving DecidableEq, Repr

mutual

inductive Expr where
  /-- An element left out of an array, or the value of a property that could not be read. -/
  | hole
  | ident (i : Ident)
  | literal (l : Literal)
  /-- A template literal has one text more than it has expressions. -/
  | template (mark : Mark) (tag : Option Expr) (quasis : List Text) (exprs : List Expr)
  | this (mark : Mark)
  | super (mark : Mark)
  | array (mark : Mark) (elems : List Expr)
  | object (mark : Mark) (members : List Expr)
  | property (mark : Mark) (shape : PropShape) (key value : Expr)
  | spread (mark : Mark) (x : Expr)
  | function (mark : Mark) (func : Func)
  | arrow (mark : Mark) (isAsync : Bool) (params : List Expr) (body : Body)
  | unary (mark : Mark) (op : UnaryOp) (x : Expr)
  | update (mark : Mark) (op : UpdateOp) (before : Bool) (x : Expr)
  | binary (mark : Mark) (op : BinaryOp) (x y : Expr)
  | assign (mark : Mark) (op : AssignOp) (left right : Expr)
  | cond (mark : Mark) (test yes no : Expr)
  | call (mark : Mark) (callee : Expr) (args : List Expr) (optional : Bool)
  | new (mark : Mark) (callee : Expr) (args : List Expr)
  | member (mark : Mark) (x prop : Expr) (computed optional : Bool)
  | seq (mark : Mark) (list : List Expr)
  | await (mark : Mark) (x : Expr)
  | yield (mark : Mark) (delegate : Bool) (x : Option Expr)
  | arrayPattern (mark : Mark) (elems : List Expr)
  /-- The members of an object pattern are properties and at most one rest, the last. -/
  | objectPattern (mark : Mark) (members : List Expr)
  | assignPattern (mark : Mark) (left right : Expr)
  | rest (mark : Mark) (x : Expr)

inductive Body where
  | block (b : Block)
  | expr (e : Expr)

inductive Func where
  | mk (mark : Mark) (name : Option Ident) (params : List Expr) (body : Block)
    (isAsync generator : Bool)

inductive Block where
  | mk (mark : Mark) (list : List Stmt)

inductive Declarator where
  | mk (mark : Mark) (target : Expr) (init : Option Expr)

inductive VarDecl where
  | mk (mark : Mark) (kind : DeclKind) (decls : List Declarator)

inductive ForHead where
  | decl (d : VarDecl)
  | expr (e : Expr)

inductive Catch where
  | mk (mark : Mark) (param : Option Expr) (body : Block)

inductive Case where
  | mk (mark : Mark) (test : Option Expr) (body : List Stmt)

inductive Stmt where
  | varDecl (d : VarDecl)
  | funcDecl (mark : Mark) (func : Func)
  | expr (mark : Mark) (x : Expr)
  | block (b : Block)
  | labeled (mark : Mark) (label : Ident) (body : Stmt)
  | ret (mark : Mark) (x : Option Expr)
  | ifElse (mark : Mark) (test : Expr) (yes : Stmt) (no : Option Stmt)
  | forLoop (mark : Mark) (init : Option ForHead) (test post : Option Expr) (body : Stmt)
  | forIn (mark : Mark) (left : ForHead) (right : Expr) (body : Stmt) (isOf isAwait : Bool)
  | whileLoop (mark : Mark) (test : Expr) (body : Stmt)
  | doWhile (mark : Mark) (body : Stmt) (test : Expr)
  | branch (mark : Mark) (isBreak : Bool) (label : Option Ident)
  | throw (mark : Mark) (x : Expr)
  | tryCatch (mark : Mark) (block : Block) (handler : Option Catch) (finalizer : Option Block)
  | switch (mark : Mark) (disc : Expr) (cases : List Case)
  | empty (mark : Mark)
  | debugger (mark : Mark)
  | imports (mark : Mark) (specs : List ImportSpec) (source : Literal)
  | exportDecl (mark : Mark) (isDefault : Bool) (decl : Stmt)
  | exportValue (mark : Mark) (value : Expr)
  | exportAll (mark : Mark) (name : Option Ident) (source : Literal)
  | exportNames (mark : Mark) (specs : List ExportSpec) (source : Option Literal)

end

structure Program where
  mark : Mark
  body : List Stmt
  comments : List Comment

namespace ImportSpec

def mark : ImportSpec → Mark
  | .named m _ _ | .default m _ | .star m _ => m

def binding : ImportSpec → Ident
  | .named _ _ b | .default _ b | .star _ b => b

end ImportSpec

namespace VarDecl

def mark : VarDecl → Mark
  | .mk m _ _ => m

def withMark : VarDecl → Mark → VarDecl
  | .mk _ kind decls, m => .mk m kind decls

end VarDecl

namespace Block

def mark : Block → Mark
  | .mk m _ => m

def list : Block → List Stmt
  | .mk _ l => l

end Block

namespace Func

def mark : Func → Mark
  | .mk m _ _ _ _ _ => m

def name? : Func → Option Ident
  | .mk _ n _ _ _ _ => n

end Func

namespace Body

def mark? : Body → Option Mark
  | .block b => some b.mark
  | .expr _ => none

end Body

namespace Expr

def mark? : Expr → Option Mark
  | .hole => none
  | .ident i => some i.mark
  | .literal l => some l.mark
  | .template m _ _ _ | .this m | .super m | .array m _ | .object m _ | .property m _ _ _
  | .spread m _ | .function m _ | .arrow m _ _ _ | .unary m _ _ | .update m _ _ _
  | .binary m _ _ _ | .assign m _ _ _ | .cond m _ _ _ | .call m _ _ _ | .new m _ _
  | .member m _ _ _ _ | .seq m _ | .await m _ | .yield m _ _ | .arrayPattern m _
  | .objectPattern m _ | .assignPattern m _ _ | .rest m _ => some m

def span (e : Expr) : Span := (e.mark?.map Mark.span).getD .none

end Expr

namespace Stmt

def mark : Stmt → Mark
  | .varDecl d => d.mark
  | .block b => b.mark
  | .funcDecl m _ | .expr m _ | .labeled m _ _ | .ret m _ | .ifElse m _ _ _ | .forLoop m _ _ _ _
  | .forIn m _ _ _ _ _ | .whileLoop m _ _ | .doWhile m _ _ | .branch m _ _ | .throw m _
  | .tryCatch m _ _ _ | .switch m _ _ | .empty m | .debugger m | .imports m _ _
  | .exportDecl m _ _ | .exportValue m _ | .exportAll m _ _ | .exportNames m _ _ => m

def withMark (m : Mark) : Stmt → Stmt
  | .varDecl d => .varDecl (d.withMark m)
  | .block (.mk _ l) => .block (.mk m l)
  | .funcDecl _ f => .funcDecl m f
  | .expr _ x => .expr m x
  | .labeled _ l b => .labeled m l b
  | .ret _ x => .ret m x
  | .ifElse _ t y n => .ifElse m t y n
  | .forLoop _ i t p b => .forLoop m i t p b
  | .forIn _ l r b o a => .forIn m l r b o a
  | .whileLoop _ t b => .whileLoop m t b
  | .doWhile _ b t => .doWhile m b t
  | .branch _ b l => .branch m b l
  | .throw _ x => .throw m x
  | .tryCatch _ b h f => .tryCatch m b h f
  | .switch _ d c => .switch m d c
  | .empty _ => .empty m
  | .debugger _ => .debugger m
  | .imports _ s l => .imports m s l
  | .exportDecl _ d s => .exportDecl m d s
  | .exportValue _ v => .exportValue m v
  | .exportAll _ n s => .exportAll m n s
  | .exportNames _ s l => .exportNames m s l

def addLead (s : Stmt) (comments : List Comment) : Stmt :=
  s.withMark { s.mark with lead := s.mark.lead ++ comments }

def span (s : Stmt) : Span := s.mark.span

end Stmt
end LabelHooks
