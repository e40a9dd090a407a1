import LabelHooks.Text.Basic

/-!
Kinds of tokens: literals first, then delimiters, operators, assignment operators and reserved
words, so that each class is a range of codes.
-/

namespace LabelHooks.Token

inductive Kind where
  | eof | illegal | ident | number | string | template | regexp
  | lparen | rparen | lbracket | rbracket | lbrace | rbrace | semicolon | comma | dot | ellipsis
  | question | optChain | colon | arrow
  | plus | minus | star | slash | percent | pow | inc | dec | shl | shr | ushr | amp | pipe
  | caret | not | tilde | land | lor | nullish | eq | ne | seq | sne | lt | gt | le | ge
  | assign | addAssign | subAssign | mulAssign | divAssign | modAssign | powAssign | shlAssign
  | shrAssign | ushrAssign | andAssign | orAssign | xorAssign | landAssign | lorAssign
  | nullishAssign
  | awaitKw | breakKw | caseKw | catchKw | classKw | constKw | continueKw | debuggerKw
  | defaultKw | deleteKw | doKw | elseKw | exportKw | extendsKw | falseKw | finallyKw | forKw
  | functionKw | ifKw | importKw | inKw | instanceofKw | letKw | newKw | nullKw | returnKw
  | superKw | switchKw | thisKw | throwKw | trueKw | tryKw | typeofKw | varKw | voidKw | whileKw
  | yieldKw
deriving DecidableEq, Repr

namespace Kind

def name : Kind → String
  | .eof => "EOF"
  | .illegal => "ILLEGAL"
  | .ident => "IDENT"
  | .number => "NUMBER"
  | .string => "STRING"
  | .template => "TEMPLATE"
  | .regexp => "REGEXP"
  | .lparen => "("
  | .rparen => ")"
  | .lbracket => "["
  | .rbracket => "]"
  | .lbrace => "\x7b"
  | .rbrace => "\x7d"
  | .semicolon => ";"
  | .comma => ","
  | .dot => "."
  | .ellipsis => "..."
  | .question => "?"
  | .optChain => "?."
  | .colon => ":"
  | .arrow => "=>"
  | .plus => "+"
  | .minus => "-"
  | .star => "*"
  | .slash => "/"
  | .percent => "%"
  | .pow => "**"
  | .inc => "++"
  | .dec => "--"
  | .shl => "<<"
  | .shr => ">>"
  | .ushr => ">>>"
  | .amp => "&"
  | .pipe => "|"
  | .caret => "^"
  | .not => "!"
  | .tilde => "~"
  | .land => "&&"
  | .lor => "||"
  | .nullish => "??"
  | .eq => "=="
  | .ne => "!="
  | .seq => "==="
  | .sne => "!=="
  | .lt => "<"
  | .gt => ">"
  | .le => "<="
  | .ge => ">="
  | .assign => "="
  | .addAssign => "+="
  | .subAssign => "-="
  | .mulAssign => "*="
  | .divAssign => "/="
  | .modAssign => "%="
  | .powAssign => "**="
  | .shlAssign => "<<="
  | .shrAssign => ">>="
  | .ushrAssign => ">>>="
  | .andAssign => "&="
  | .orAssign => "|="
  | .xorAssign => "^="
  | .landAssign => "&&="
  | .lorAssign => "||="
  | .nullishAssign => "??="
  | .awaitKw => "await"
  | .breakKw => "break"
  | .caseKw => "case"
  | .catchKw => "catch"
  | .classKw => "class"
  | .constKw => "const"
  | .continueKw => "continue"
  | .debuggerKw => "debugger"
  | .defaultKw => "default"
  | .deleteKw => "delete"
  | .doKw => "do"
  | .elseKw => "else"
  | .exportKw => "export"
  | .extendsKw => "extends"
  | .falseKw => "false"
  | .finallyKw => "finally"
  | .forKw => "for"
  | .functionKw => "function"
  | .ifKw => "if"
  | .importKw => "import"
  | .inKw => "in"
  | .instanceofKw => "instanceof"
  | .letKw => "let"
  | .newKw => "new"
  | .nullKw => "null"
  | .returnKw => "return"
  | .superKw => "super"
  | .switchKw => "switch"
  | .thisKw => "this"
  | .throwKw => "throw"
  | .trueKw => "true"
  | .tryKw => "try"
  | .typeofKw => "typeof"
  | .varKw => "var"
  | .voidKw => "void"
  | .whileKw => "while"
  | .yieldKw => "yield"

def text (k : Kind) : Text := k.name

def literals : List Kind := [
  .eof, .illegal, .ident, .number, .string, .template, .regexp]

def delimiters : List Kind := [
  .lparen, .rparen, .lbracket, .rbracket, .lbrace, .rbrace, .semicolon, .comma, .dot, .ellipsis,
  .question, .optChain, .colon, .arrow]

def operators : List Kind := [
  .plus, .minus, .star, .slash, .percent, .pow, .inc, .dec, .shl, .shr, .ushr, .amp, .pipe,
  .caret, .not, .tilde, .land, .lor, .nullish, .eq, .ne, .seq, .sne, .lt, .gt, .le, .ge]

def assignments : List Kind := [
  .assign, .addAssign, .subAssign, .mulAssign, .divAssign, .modAssign, .powAssign, .shlAssign,
  .shrAssign, .ushrAssign, .andAssign, .orAssign, .xorAssign, .landAssign, .lorAssign,
  .nullishAssign]

def keywords : List Kind := [
  .awaitKw, .breakKw, .caseKw, .catchKw, .classKw, .constKw, .continueKw, .debuggerKw,
  .defaultKw, .deleteKw, .doKw, .elseKw, .exportKw, .extendsKw, .falseKw, .finallyKw, .forKw,
  .functionKw, .ifKw, .importKw, .inKw, .instanceofKw, .letKw, .newKw, .nullKw, .returnKw,
  .superKw, .switchKw, .thisKw, .throwKw, .trueKw, .tryKw, .typeofKw, .varKw, .voidKw, .whileKw,
  .yieldKw]

def punctuators : List Kind := delimiters ++ operators ++ assignments

def all : List Kind := literals ++ punctuators ++ keywords

def ofCode? (n : Nat) : Option Kind := all[n]?

def isKeyword (k : Kind) : Bool :=
  Kind.awaitKw.ctorIdx ≤ k.ctorIdx && k.ctorIdx ≤ Kind.yieldKw.ctorIdx

def isOperator (k : Kind) : Bool := Kind.plus.ctorIdx ≤ k.ctorIdx && k.ctorIdx ≤ Kind.ge.ctorIdx

def isAssignment (k : Kind) : Bool :=
  Kind.assign.ctorIdx ≤ k.ctorIdx && k.ctorIdx ≤ Kind.nullishAssign.ctorIdx

def ofWord (word : Text) : Kind := (keywords.find? fun k => k.text == word).getD .ident

end Kind
end LabelHooks.Token
