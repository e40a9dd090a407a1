import LabelHooks.Token.Kind

/-!
How far the lexeme at the start of a text extends. Each function gives a number of bytes; those
that can fail to find an end also say whether they found it. An escape character that is the
last byte counts for two bytes, one more than the text has.
-/

namespace LabelHooks.Lexeme

open Text (isDigit isHexDigit isLower isUpper)

def isIdentStart (b : UInt8) : Bool :=
  isLower b || isUpper b || b = byte '_' || b = byte '$' || 0x80 ≤ b

def isIdentPart (b : UInt8) : Bool := isIdentStart b || isDigit b

def isSpace (b : UInt8) : Bool :=
  b = byte ' ' || b = byte '\t' || b = byte '\r' || b = 0x0C || b = 0x0B

def run (p : UInt8 → Bool) (t : Text) : Nat := (t.takeWhile p).length

def ident (t : Text) : Nat := run isIdentPart t

def suffixN (t : Text) : Nat := if t.head? = some (byte 'n') then 1 else 0

def isDigitOrSeparator (b : UInt8) : Bool := isDigit b || b = byte '_'

def isRadix (b : UInt8) : Bool :=
  [byte 'x', byte 'X', byte 'o', byte 'O', byte 'b', byte 'B'].contains b

def startsWithDigit (t : Text) : Bool := t.head?.any isDigit

def fraction (digits : Nat) : Text → Nat
  | 0x2E :: t => if startsWithDigit t || digits = 0 then 1 + run isDigitOrSeparator t else 0
  | _ => 0

def exponent (t : Text) : Nat :=
  if t.head? = some (byte 'e') || t.head? = some (byte 'E') then
    let sign := if t.tail.head? = some (byte '+') || t.tail.head? = some (byte '-') then 1 else 0
    1 + sign + run isDigit (t.tail.drop sign)
  else 0

def decimal (t : Text) : Nat :=
  let whole := run isDigitOrSeparator t
  let point := whole + fraction whole (t.drop whole)
  let power := point + exponent (t.drop point)
  power + suffixN (t.drop power)

def prefixed (t : Text) : Nat :=
  let digits := 2 + run (fun b => isHexDigit b || b = byte '_') (t.drop 2)
  digits + suffixN (t.drop digits)

/-- A number: decimal, or hexadecimal, octal or binary with its mark, perhaps with the suffix of a
big integer. -/
def number : Text → Nat
  | 0x30 :: r :: t => if isRadix r then prefixed (0x30 :: r :: t) else decimal (0x30 :: r :: t)
  | t => decimal t

def more (n : Nat) (r : Nat × Bool) : Nat × Bool := (n + r.1, r.2)

def quoted (quote : UInt8) : Text → Nat × Bool
  | [] => (0, false)
  | [0x5C] => (2, false)
  | 0x5C :: 0x0D :: 0x0A :: t => more 3 (quoted quote t)
  | 0x5C :: _ :: t => more 2 (quoted quote t)
  | b :: t =>
    if b = quote then (1, true) else if b = Text.newline then (0, false)
    else more 1 (quoted quote t)

example : quoted (byte '"') "a\\\"b\" + c" = (5, true) := by cbv

inductive Frame where
  | template
  /-- A substitution with this many more braces to close after the next one. -/
  | braces (depth : Nat)
  | string (quote : UInt8)
deriving DecidableEq, Repr

def frames : List Frame → Text → Nat × Bool
  | [], _ => (0, true)
  | _ :: _, [] => (0, false)
  | .template :: _, [0x5C] => (2, false)
  | .template :: fs, 0x5C :: _ :: t => more 2 (frames (.template :: fs) t)
  | .template :: fs, 0x24 :: 0x7B :: t => more 2 (frames (.braces 0 :: .template :: fs) t)
  | .template :: fs, b :: t =>
    if b = byte '\x60' then more 1 (frames fs t) else more 1 (frames (.template :: fs) t)
  | .string _ :: _, [0x5C] => (2, false)
  | .string quote :: fs, 0x5C :: 0x0D :: 0x0A :: t => more 3 (frames (.string quote :: fs) t)
  | .string quote :: fs, 0x5C :: _ :: t => more 2 (frames (.string quote :: fs) t)
  | .string quote :: fs, b :: t =>
    if b = quote then more 1 (frames fs t)
    else if b = Text.newline then (0, false)
    else more 1 (frames (.string quote :: fs) t)
  | .braces depth :: fs, b :: t =>
    if b = byte '\'' || b = byte '"' then more 1 (frames (.string b :: .braces depth :: fs) t)
    else if b = byte '\x60' then more 1 (frames (.template :: .braces depth :: fs) t)
    else if b = 0x7B then more 1 (frames (.braces (depth + 1) :: fs) t)
    else if b = 0x7D then
      match depth with
      | 0 => more 1 (frames fs t)
      | depth + 1 => more 1 (frames (.braces depth :: fs) t)
    else more 1 (frames (.braces depth :: fs) t)

example : frames [.template] "a$\x7b'\x7d'\x7d\x60;" = (8, true) := by cbv

def template (t : Text) : Nat × Bool := frames [.template] t

def substitution (t : Text) : Nat × Bool := frames [.braces 0] t

def regexp (inClass : Bool) : Text → Nat × Bool
  | [] => (0, false)
  | [0x5C] => (2, false)
  | 0x5C :: _ :: t => more 2 (regexp inClass t)
  | b :: t =>
    if b = Text.newline then (0, false)
    else if b = byte '/' && !inClass then (1, true)
    else if b = byte '[' then more 1 (regexp true t)
    else if b = byte ']' then more 1 (regexp false t)
    else more 1 (regexp inClass t)

example : regexp false "[/]/g" = (4, true) := by cbv

def lineComment (t : Text) : Nat := run (· ≠ Text.newline) t

def blockComment : Text → Nat × Bool
  | [] => (0, false)
  | 0x2A :: 0x2F :: _ => (2, true)
  | _ :: t => more 1 (blockComment t)

def fits (t : Text) (k : Token.Kind) : Bool :=
  k ≠ .optChain || !(startsWithDigit (t.drop 2))

def punctuatorOf (t : Text) (n : Nat) : Option Token.Kind :=
  if t.length < n then none
  else Token.Kind.punctuators.find? fun k => k.text == t.take n && fits t k

def punctuator (t : Text) : Option (Token.Kind × Nat) :=
  [4, 3, 2, 1].findSome? fun n => (punctuatorOf t n).map (·, n)

end LabelHooks.Lexeme
