import LabelHooks.Token.Kind

/-!
Operators and their precedence. The reader uses the levels of the binary operators as binding
powers; the printer compares levels to decide where parentheses are needed.
-/

namespace LabelHooks

abbrev Prec := Nat

namespace Prec

def lowest : Prec := 0
def sequence : Prec := 1
def assign : Prec := 2
def conditional : Prec := 3
def nullish : Prec := 4
def logicalOr : Prec := 5
def logicalAnd : Prec := 6
def bitOr : Prec := 7
def bitXor : Prec := 8
def bitAnd : Prec := 9
def equality : Prec := 10
def relational : Prec := 11
def shift : Prec := 12
def additive : Prec := 13
def multiplicative : Prec := 14
def exponent : Prec := 15
def prefixed : Prec := 16
def postfixed : Prec := 17
def new : Prec := 18
def call : Prec := 19
def primary : Prec := 20

end Prec

inductive UnaryOp where
  | not | tilde | plus | minus | typeof | void | delete
deriving DecidableEq, Repr

namespace UnaryOp

def kind : UnaryOp → Token.Kind
  | .not => .not
  | .tilde => .tilde
  | .plus => .plus
  | .minus => .minus
  | .typeof => .typeofKw
  | .void => .voidKw
  | .delete => .deleteKw

def ofKind? : Token.Kind → Option UnaryOp
  | .not => some .not
  | .tilde => some .tilde
  | .plus => some .plus
  | .minus => some .minus
  | .typeofKw => some .typeof
  | .voidKw => some .void
  | .deleteKw => some .delete
  | _ => none

def text (op : UnaryOp) : Text := op.kind.text

end UnaryOp

inductive UpdateOp where
  | inc | dec
deriving DecidableEq, Repr

namespace UpdateOp

def kind : UpdateOp → Token.Kind
  | .inc => .inc
  | .dec => .dec

def ofKind? : Token.Kind → Option UpdateOp
  | .inc => some .inc
  | .dec => some .dec
  | _ => none

def text (op : UpdateOp) : Text := op.kind.text

end UpdateOp

inductive BinaryOp where
  | nullish | lor | land | bitOr | bitXor | bitAnd | eq | ne | strictEq | strictNe | lt | gt | le
  | ge | instanceof | inside | shl | shr | ushr | add | sub | mul | div | mod | pow
deriving DecidableEq, Repr

namespace BinaryOp

def kind : BinaryOp → Token.Kind
  | .nullish => .nullish
  | .lor => .lor
  | .land => .land
  | .bitOr => .pipe
  | .bitXor => .caret
  | .bitAnd => .amp
  | .eq => .eq
  | .ne => .ne
  | .strictEq => .seq
  | .strictNe => .sne
  | .lt => .lt
  | .gt => .gt
  | .le => .le
  | .ge => .ge
  | .instanceof => .instanceofKw
  | .inside => .inKw
  | .shl => .shl
  | .shr => .shr
  | .ushr => .ushr
  | .add => .plus
  | .sub => .minus
  | .mul => .star
  | .div => .slash
  | .mod => .percent
  | .pow => .pow

def ofKind? : Token.Kind → Option BinaryOp
  | .nullish => some .nullish
  | .lor => some .lor
  | .land => some .land
  | .pipe => some .bitOr
  | .caret => some .bitXor
  | .amp => some .bitAnd
  | .eq => some .eq
  | .ne => some .ne
  | .seq => some .strictEq
  | .sne => some .strictNe
  | .lt => some .lt
  | .gt => some .gt
  | .le => some .le
  | .ge => some .ge
  | .instanceofKw => some .instanceof
  | .inKw => some .inside
  | .shl => some .shl
  | .shr => some .shr
  | .ushr => some .ushr
  | .plus => some .add
  | .minus => some .sub
  | .star => some .mul
  | .slash => some .div
  | .percent => some .mod
  | .pow => some .pow
  | _ => none

def text (op : BinaryOp) : Text := op.kind.text

def prec : BinaryOp → Prec
  | .nullish => .nullish
  | .lor => .logicalOr
  | .land => .logicalAnd
  | .bitOr => .bitOr
  | .bitXor => .bitXor
  | .bitAnd => .bitAnd
  | .eq | .ne | .strictEq | .strictNe => .equality
  | .lt | .gt | .le | .ge | .instanceof | .inside => .relational
  | .shl | .shr | .ushr => .shift
  | .add | .sub => .additive
  | .mul | .div | .mod => .multiplicative
  | .pow => .exponent

def isLogical (op : BinaryOp) : Bool := op = .lor || op = .land

end BinaryOp

inductive AssignOp where
  | set | add | sub | mul | div | mod | pow | shl | shr | ushr | bitAnd | bitOr | bitXor | land
  | lor | nullish
deriving DecidableEq, Repr

namespace AssignOp

def kind : AssignOp → Token.Kind
  | .set => .assign
  | .add => .addAssign
  | .sub => .subAssign
  | .mul => .mulAssign
  | .div => .divAssign
  | .mod => .modAssign
  | .pow => .powAssign
  | .shl => .shlAssign
  | .shr => .shrAssign
  | .ushr => .ushrAssign
  | .bitAnd => .andAssign
  | .bitOr => .orAssign
  | .bitXor => .xorAssign
  | .land => .landAssign
  | .lor => .lorAssign
  | .nullish => .nullishAssign

def ofKind? : Token.Kind → Option AssignOp
  | .assign => some .set
  | .addAssign => some .add
  | .subAssign => some .sub
  | .mulAssign => some .mul
  | .divAssign => some .div
  | .modAssign => some .mod
  | .powAssign => some .pow
  | .shlAssign => some .shl
  | .shrAssign => some .shr
  | .ushrAssign => some .ushr
  | .andAssign => some .bitAnd
  | .orAssign => some .bitOr
  | .xorAssign => some .bitXor
  | .landAssign => some .land
  | .lorAssign => some .lor
  | .nullishAssign => some .nullish
  | _ => none

def text (op : AssignOp) : Text := op.kind.text

def binary? : AssignOp → Option BinaryOp
  | .set => none
  | .add => some .add
  | .sub => some .sub
  | .mul => some .mul
  | .div => some .div
  | .mod => some .mod
  | .pow => some .pow
  | .shl => some .shl
  | .shr => some .shr
  | .ushr => some .ushr
  | .bitAnd => some .bitAnd
  | .bitOr => some .bitOr
  | .bitXor => some .bitXor
  | .land => some .land
  | .lor => some .lor
  | .nullish => some .nullish

end AssignOp

namespace Token.Kind

def prec (k : Token.Kind) : Prec := ((BinaryOp.ofKind? k).map BinaryOp.prec).getD .lowest

def binary? (k : Token.Kind) : Option Token.Kind :=
  (AssignOp.ofKind? k).bind fun op => op.binary?.map BinaryOp.kind

end Token.Kind
end LabelHooks
