import LabelHooks.Yaml.Value

/-!
Writing YAML in block form, indented by two. A string is written without quotes when it reads back
as the same string, also for readers that know more words and numbers in base sixty.
-/

namespace LabelHooks.Yaml

private def oldWords : List Text :=
  ["y", "Y", "yes", "Yes", "YES", "on", "On", "ON", "n", "N", "no", "No", "NO", "off", "Off", "OFF"]

private def sexagesimalTail : Nat → Text → Bool
  | 0, _ => false
  | fuel + 1, t =>
    match t with
    | [] => true
    | b :: rest =>
      if b = byte '.' then rest.all fun c => Text.isDigit c || c = byte '_'
      else if b = byte ':' then
        match rest with
        | x :: y :: more =>
          if !Text.isDigit x then false
          else if x ≤ byte '5' && Text.isDigit y then sexagesimalTail fuel more
          else sexagesimalTail fuel (y :: more)
        | [x] => Text.isDigit x
        | [] => false
      else false

def isSexagesimal (t : Text) : Bool :=
  let t := match t with
    | b :: rest => if b = byte '+' || b = byte '-' then rest else t
    | [] => t
  match t with
  | b :: _ =>
    Text.isDigit b &&
      let tail := t.dropWhile fun c => Text.isDigit c || c = byte '_'
      tail.head? = some (byte ':') && sexagesimalTail (t.length + 1) tail
  | [] => false

private def isSpace (n : Nat) : Bool := n = 0x20

private def isBlankCode (n : Nat) : Bool := n = 0x20 || n = 9

private def isBreak (n : Nat) : Bool :=
  n = 0x0A || n = 0x0D || n = 0x85 || n = 0x2028 || n = 0x2029

private def isShown (n : Nat) : Bool :=
  n = 0x0A || (0x20 ≤ n && n ≤ 0x7E) ||
    (0xA0 ≤ n && n ≤ 0xFFFD && n ≠ 0xFEFF && !(0xD800 ≤ n && n ≤ 0xDFFF))

private def codes (t : Text) : List Nat := t.runes.map (·.code)

private def startMarks : List Nat := ("#,[]\x7b\x7d&*!|>'\"%@\x60" : Text).map UInt8.toNat

/-- What may not stand without quotes in a block: a mark at the start, a colon before a blank, or
a hash after one. -/
private def hasMarks : Nat → List Nat → Bool
  | _, [] => false
  | before, c :: rest =>
    let blankNext := match rest with
      | [] => true
      | n :: _ => isBlankCode n
    (if before = 0 then
      startMarks.contains c || ((c = 0x3F || c = 0x3A || c = 0x2D) && blankNext)
    else (c = 0x3A && blankNext) || (c = 0x23 && (isBlankCode before || isBreak before))) ||
      hasMarks c rest

private def hasPair (p q : Nat → Bool) (l : List Nat) : Bool :=
  (l.zip (l.drop 1)).any fun (a, b) => p a && q b

private structure Shape where
  plain : Bool
  single : Bool
  block : Bool

private def shape (t : Text) : Shape :=
  let l := codes t
  let first := l.head?
  let last := l.getLast?
  let edge := fun n => isSpace n || isBreak n
  let special := l.any fun n => n ≠ 9 && !isShown n
  let spaceBreak := hasPair isSpace isBreak l
  let breakSpace := hasPair isBreak isSpace l
  let document := Text.hasPrefix "---" t || Text.hasPrefix "..." t
  let single := !breakSpace && !spaceBreak && !special && !l.contains 9
  { plain := single && !first.any edge && !last.any edge && !l.any isBreak && !document &&
      !hasMarks 0 l
    single
    block := !t.isEmpty && !last.any isSpace && !spaceBreak && !special }

private def upperHex (width n : Nat) : Text :=
  (Text.hex width n).map fun b => if Text.isLower b then b - 0x20 else b

private def escaped (n : Nat) : Text :=
  if n = 0x22 then "\\\""
  else if n = 0x5C then "\\\\"
  else if isShown n && !isBreak n then Text.ofCode n
  else if n = 0 then "\\0"
  else if n = 7 then "\\a"
  else if n = 8 then "\\b"
  else if n = 9 then "\\t"
  else if n = 0x0A then "\\n"
  else if n = 0x0B then "\\v"
  else if n = 0x0C then "\\f"
  else if n = 0x0D then "\\r"
  else if n = 0x1B then "\\e"
  else if n = 0x85 then "\\N"
  else if n = 0x2028 then "\\L"
  else if n = 0x2029 then "\\P"
  else if n ≤ 0xFF then ("\\x" : Text) ++ upperHex 2 n
  else if n ≤ 0xFFFF then ("\\u" : Text) ++ upperHex 4 n
  else ("\\U" : Text) ++ upperHex 8 n

private def doubleQuoted (t : Text) : Text :=
  ("\"" : Text) ++ (codes t).flatMap escaped ++ ("\"" : Text)

private def singleQuoted (t : Text) : Text :=
  ("'" : Text) ++ Text.replace "'" "''" t ++ ("'" : Text)

private def literal (indent : Nat) (t : Text) : Text :=
  let hint : Text := match t.head? with
    | some b => if b = byte ' ' || b = byte '\n' then "2" else []
    | none => []
  let chomp : Text :=
    if !Text.hasSuffix "\n" t then "-"
    else if t.length = 1 || Text.hasSuffix "\n\n" t then "+" else []
  let lines := Text.splitOn Text.newline (Text.dropSuffix "\n" t)
  ("|" : Text) ++ hint ++ chomp ++ lines.flatMap fun l =>
    if l.isEmpty then ("\n" : Text) else ("\n" : Text) ++ Text.spaces indent ++ l

private def base64Digit (n : Nat) : UInt8 :=
  if n < 26 then (65 + n).toUInt8
  else if n < 52 then (71 + n).toUInt8
  else if n < 62 then (n - 4).toUInt8
  else if n = 62 then byte '+' else byte '/'

private def base64 : Text → Text
  | [] => []
  | [a] =>
    [base64Digit (a.toNat / 4), base64Digit (a.toNat % 4 * 16), byte '=', byte '=']
  | [a, b] =>
    [base64Digit (a.toNat / 4), base64Digit (a.toNat % 4 * 16 + b.toNat / 16),
      base64Digit (b.toNat % 16 * 4), byte '=']
  | a :: b :: c :: rest =>
    base64Digit (a.toNat / 4) :: base64Digit (a.toNat % 4 * 16 + b.toNat / 16) ::
      base64Digit (b.toNat % 16 * 4 + c.toNat / 64) :: base64Digit (c.toNat % 64) :: base64 rest

def scalar (indent : Nat) (t : Text) : Text :=
  if !Text.isUtf8 t then ("!!binary " : Text) ++ base64 t
  else
    let s := shape t
    if Text.contains "\n" t then
      if s.block then literal indent t else doubleQuoted t
    else if (resolve t).isString && !isSexagesimal t && !oldWords.contains t then
      if s.plain then t else if s.single then singleQuoted t else doubleQuoted t
    else doubleQuoted t

private def inline? (indent : Nat) : Yaml → Option Text
  | .null => some "null"
  | .bool b => some (if b then "true" else "false")
  | .int i => some (Text.ofInt i)
  | .float negative x => some ((if negative then ("-" : Text) else []) ++ x.shortest)
  | .nonfinite name | .timestamp name => some name
  | .string t => some (scalar indent t)
  | .list [] => some "[]"
  | .map [] => some "\x7b\x7d"
  | _ => none

mutual

/-- The lines of a value that does not stand on the line of its key; the first line lacks its
indentation. -/
private def blockLines (indent : Nat) : Yaml → Text
  | .list items => listItems indent items
  | .map members => mapMembers indent members
  | v => (inline? indent v).getD []

private def listItems (indent : Nat) : List Yaml → Text
  | [] => []
  | v :: vs =>
    ("- " : Text) ++ blockLines (indent + 2) v ++
      match vs with
      | [] => []
      | _ :: _ => ("\n" : Text) ++ Text.spaces indent ++ listItems indent vs

private def mapMembers (indent : Nat) : List (Text × Yaml) → Text
  | [] => []
  | (k, v) :: ms =>
    scalar (indent + 2) k ++ (":" : Text) ++
      (match inline? (indent + 2) v with
        | some t => (" " : Text) ++ t
        | none => ("\n" : Text) ++ Text.spaces (indent + 2) ++ blockLines (indent + 2) v) ++
      match ms with
      | [] => []
      | _ :: _ => ("\n" : Text) ++ Text.spaces indent ++ mapMembers indent ms

end

def document (v : Yaml) : Text := blockLines 0 v ++ ("\n" : Text)

end LabelHooks.Yaml
