import LabelHooks.Token.Basic
import LabelHooks.Token.Lexeme

/-!
The lexer: a cursor over the bytes still to read, the comments and faults met so far, and the
kind of the last token, which decides whether a slash divides or opens a regular expression.
-/

namespace LabelHooks

structure Cursor where
  rest : Text
  pos : Position
  beyond : Bool
deriving DecidableEq, Repr

namespace Cursor

def onto (rest : Text) (p : Position) : Position :=
  if rest.head? = some Text.newline then ⟨p.line + 1, 0, p.offset⟩
  else { p with column := p.column + 1 }

def ofText (t : Text) (p : Position) : Cursor :=
  ⟨t, onto t { p with column := p.column - 1 }, false⟩

def advance (c : Cursor) : Cursor :=
  match c.rest with
  | [] => { c with pos := onto [] { c.pos with offset := c.pos.offset + 1 }, beyond := true }
  | _ :: t => { c with rest := t, pos := onto t { c.pos with offset := c.pos.offset + 1 } }

def advanceBy : Nat → Cursor → Cursor
  | 0, c => c
  | n + 1, c => advanceBy n c.advance

end Cursor

structure Lexer where
  cursor : Cursor
  base : Int
  prev : Token.Kind
  comments : List Comment
  faults : List Fault

namespace Lexer

def ofFragment (t : Text) (p : Position) : Lexer := ⟨.ofText t p, p.offset, .eof, [], []⟩

def ofText (t : Text) : Lexer := ofFragment t .first

def fail (l : Lexer) (p : Position) (cause : Cause) : Lexer :=
  { l with faults := l.faults ++ [⟨p, cause⟩] }

def take (l : Lexer) (n : Nat) : Except Crash (Text × Lexer) :=
  let cursor := l.cursor.advanceBy n
  if cursor.beyond then .error .overrun
  else .ok (l.cursor.rest.take n, { l with cursor })

def atStart (l : Lexer) : Bool := l.cursor.pos.offset = l.base

def comment (l : Lexer) (kind : CommentKind) (n : Nat) : Lexer :=
  let cursor := l.cursor.advanceBy n
  { l with
    cursor
    comments := l.comments ++ [⟨kind, l.cursor.rest.take n, ⟨l.cursor.pos, cursor.pos⟩⟩] }

def blockComment (l : Lexer) (t : Text) : Lexer × Bool :=
  let (n, closed) := Lexeme.blockComment t
  let found := l.comment .block (n + 2)
  let found := if closed then found else found.fail l.cursor.pos .unterminatedComment
  (found, (t.take n).contains Text.newline)

def skipTrivia : Nat → Lexer → Bool → Lexer × Bool
  | 0, l, newline => (l, newline)
  | fuel + 1, l, newline =>
    match l.cursor.rest with
    | 0x2F :: 0x2F :: t => skipTrivia fuel (l.comment .line (2 + Lexeme.lineComment t)) newline
    | 0x2F :: 0x2A :: t =>
      let (l', broken) := l.blockComment t
      skipTrivia fuel l' (newline || broken)
    | b :: t =>
      if b = Text.newline then skipTrivia fuel { l with cursor := l.cursor.advance } true
      else if Lexeme.isSpace b then skipTrivia fuel { l with cursor := l.cursor.advance } newline
      else if l.atStart && b = 0xEF && t.head? = some 0xBB then
        skipTrivia fuel { l with cursor := l.cursor.advanceBy 3 } newline
      else if l.atStart && b = byte '#' && t.head? = some (byte '!') then
        skipTrivia fuel (l.comment .line (1 + Lexeme.lineComment t)) newline
      else (l, newline)
    | [] => (l, newline)

def endsOperand : Token.Kind → Bool
  | .ident | .number | .string | .template | .regexp | .rparen | .rbracket | .rbrace | .thisKw
  | .superKw | .nullKw | .trueKw | .falseKw | .inc | .dec => true
  | _ => false

def closing (l : Lexer) (cause : Cause) (closed : Bool) : Lexer :=
  if closed then l else l.fail l.cursor.pos cause

def scan (l : Lexer) : Except Crash (Token.Kind × Text × Lexer) :=
  match l.cursor.rest with
  | [] => .ok (.eof, [], l)
  | b :: t =>
    if Lexeme.isIdentStart b then do
      let (word, l') ← l.take (Lexeme.ident (b :: t))
      return (.ofWord word, word, l')
    else if Text.isDigit b || (b = byte '.' && t.head?.any Text.isDigit) then do
      let (digits, l') ← l.take (Lexeme.number (b :: t))
      return (.number, digits, l')
    else if b = byte '\'' || b = byte '"' then do
      let (n, closed) := Lexeme.quoted b t
      let (raw, l') ← (l.closing .unterminatedString closed).take (n + 1)
      return (.string, raw, l')
    else if b = byte '\x60' then do
      let (n, closed) := Lexeme.template t
      let (raw, l') ← (l.closing .unterminatedTemplate closed).take (n + 1)
      return (.template, raw, l')
    else if b = byte '/' && !endsOperand l.prev then do
      let (n, closed) := Lexeme.regexp false t
      let flags := Lexeme.ident (t.drop n)
      let (raw, l') ← (l.closing .unterminatedRegexp closed).take (n + 1 + flags)
      return (.regexp, raw, l')
    else match Lexeme.punctuator (b :: t) with
      | some (kind, n) => do
        let (raw, l') ← l.take n
        return (kind, raw, l')
      | none => do
        let (_, l') ← (l.fail l.cursor.pos (.unexpectedByte b)).take 1
        return (.illegal, Text.ofCode b.toNat, l')

def next (l : Lexer) : Except Crash (Token × Lexer) := do
  let (l, newline) := l.skipTrivia (l.cursor.rest.length + 1) false
  let (kind, literal, l') ← l.scan
  let prev := if kind = .eof then l.prev else kind
  return (⟨kind, literal, l.cursor.pos, newline⟩, { l' with prev })

def allFrom : Nat → Lexer → Except Crash (List Token × Lexer)
  | 0, _ => .error .exhausted
  | fuel + 1, l => do
    let (token, l) ← l.next
    if token.kind = .eof then return ([token], l)
    let (tokens, l) ← allFrom fuel l
    return (token :: tokens, l)

def all (t : Text) : Except Crash (List Token × Lexer) := allFrom (t.length + 1) (.ofText t)

end Lexer

structure Substitution where
  source : Text
  pos : Position
deriving DecidableEq, Repr

structure TemplateParts where
  quasis : List Text
  substitutions : List Substitution
deriving DecidableEq, Repr

namespace TemplateParts

/-- Bytes of template text before the next substitution or closing backtick, and whether it is a
substitution that follows. -/
def quasi : Text → Nat × Option Bool
  | [] => (0, none)
  | [0x5C] => (2, none)
  | 0x5C :: _ :: t => ((quasi t).1 + 2, (quasi t).2)
  | 0x24 :: 0x7B :: _ => (0, some true)
  | b :: t => if b = byte '\x60' then (0, some false) else ((quasi t).1 + 1, (quasi t).2)

def split : Nat → Cursor → Except Crash TemplateParts
  | 0, _ => .error .exhausted
  | fuel + 1, c =>
    let (n, next) := quasi c.rest
    match next with
    | none => if c.beyond then .error .overrun else .ok ⟨[c.rest], []⟩
    | some false => if c.beyond then .error .overrun else .ok ⟨[c.rest.take n], []⟩
    | some true => do
      let opened := c.advanceBy (n + 2)
      let m := (Lexeme.substitution opened.rest).1
      let closed := opened.advanceBy m
      let parts ← split fuel closed
      return ⟨c.rest.take n :: parts.quasis,
        ⟨opened.rest.take (m - 1), opened.pos⟩ :: parts.substitutions⟩

def ofRaw (raw : Text) (p : Position) : Except Crash TemplateParts :=
  split (raw.length + 1) (Cursor.ofText raw p).advance

end TemplateParts
end LabelHooks
