import LabelHooks.Source.Position
import LabelHooks.Token.Kind
import LabelHooks.Text.Quoted

/-!
Tokens, and what can be wrong with a source text.
-/

namespace LabelHooks

structure Token where
  kind : Token.Kind
  literal : Text
  pos : Position
  /-- A line break separates the token from the one before it. -/
  newlineBefore : Bool
deriving DecidableEq, Repr

namespace Token

def blank : Token := ⟨.eof, [], .none, false⟩

def stop (t : Token) : Position :=
  { t.pos with
    column := t.pos.column + t.literal.length, offset := t.pos.offset + t.literal.length }

def isName (t : Token) : Bool := t.kind = .ident || t.kind.isKeyword

def describe (t : Token) : Text :=
  match t.kind with
  | .ident | .number | .string => t.kind.text ++ (" " : Text) ++ Text.quoted t.literal
  | k => k.text

end Token

inductive Cause where
  | unterminatedString
  | unterminatedTemplate
  | unterminatedRegexp
  | unterminatedComment
  | unexpectedByte (b : UInt8)
  | unexpectedToken (found : Token) (expected : Text)
  | unexpectedOperand (found : Token)
  | invalidTarget
  | invalidBinding
  | invalidArrowParams
  | unsupported (construct : Text)
  | loopDeclaration
deriving DecidableEq, Repr

namespace Cause

def isLexical : Cause → Bool
  | .unterminatedString | .unterminatedTemplate | .unterminatedRegexp | .unterminatedComment => true
  | .unexpectedByte _ => true
  | _ => false

def message : Cause → Text
  | .unterminatedString => "unterminated string literal"
  | .unterminatedTemplate => "unterminated template literal"
  | .unterminatedRegexp => "unterminated regular expression"
  | .unterminatedComment => "unterminated block comment"
  | .unexpectedByte b => ("unexpected character " : Text) ++ Text.quotedByte b
  | .unexpectedToken found expected =>
    ("unexpected token " : Text) ++ found.describe ++ (", expected " : Text) ++ expected
  | .unexpectedOperand found =>
    ("unexpected token " : Text) ++ found.describe ++ (" in expression" : Text)
  | .invalidTarget => "invalid assignment target"
  | .invalidBinding => "invalid binding pattern"
  | .invalidArrowParams => "invalid arrow function parameters"
  | .unsupported construct => construct ++ (" is not supported" : Text)
  | .loopDeclaration => "for-in/for-of declaration must have a single binding without initializer"

end Cause

structure Fault where
  pos : Position
  cause : Cause
deriving DecidableEq, Repr

namespace Fault

def message (f : Fault) : Text :=
  (if f.cause.isLexical then ("lexer" : Text) else "parse") ++ (" error at line " : Text) ++
    Text.ofInt f.pos.line ++ (", column " : Text) ++ Text.ofInt f.pos.column ++ (": " : Text) ++
    f.cause.message

def earliest? : List Fault → Option Fault
  | [] => none
  | f :: fs =>
    match earliest? fs with
    | some g => if g.pos.offset < f.pos.offset then some g else some f
    | none => some f

end Fault

inductive Crash where
  /-- An escape at the end of a literal reaches past the text. -/
  | overrun
  /-- A property without a value stands where a pattern is needed. -/
  | missingValue
  | exhausted
deriving DecidableEq, Repr

end LabelHooks
