import LabelHooks.Json.Value

/-!
Reading JSON. Bytes that are not UTF-8 and halves of surrogate pairs are read as the replacement
character.
-/

namespace LabelHooks.Json

def maxDepth : Nat := 10000

private def isSpace (b : UInt8) : Bool :=
  b = byte ' ' || b = byte '\t' || b = byte '\n' || b = byte '\r'

private def skip (t : Text) : Text := t.dropWhile isSpace

private def hexValue? (b : UInt8) : Option Nat :=
  if Text.isDigit b then some (b.toNat - 48)
  else if byte 'a' ≤ b && b ≤ byte 'f' then some (b.toNat - 87)
  else if byte 'A' ≤ b && b ≤ byte 'F' then some (b.toNat - 55)
  else none

private def unit? : Text → Option (Nat × Text)
  | a :: b :: c :: d :: rest => do
    let n := (← hexValue? a) * 4096 + (← hexValue? b) * 256 + (← hexValue? c) * 16 + (← hexValue? d)
    return (n, rest)
  | _ => none

private def codePoint (n : Nat) (rest : Text) : Nat × Text :=
  if 0xD800 ≤ n && n < 0xDC00 then
    match rest with
    | b :: c :: more =>
      if b = byte '\\' && c = byte 'u' then
        match unit? more with
        | some (low, after) =>
          if 0xDC00 ≤ low && low < 0xE000 then
            (0x10000 + (n - 0xD800) * 0x400 + (low - 0xDC00), after)
          else (0xFFFD, rest)
        | none => (0xFFFD, rest)
      else (0xFFFD, rest)
    | _ => (0xFFFD, rest)
  else if 0xDC00 ≤ n && n < 0xE000 then (0xFFFD, rest)
  else (n, rest)

private def simpleEscape? (b : UInt8) : Option UInt8 :=
  if b = byte '"' || b = byte '\\' || b = byte '/' then some b
  else if b = byte 'b' then some 8
  else if b = byte 'f' then some 12
  else if b = byte 'n' then some 10
  else if b = byte 'r' then some 13
  else if b = byte 't' then some 9
  else none

private def stringRest? : Nat → Text → Option (Text × Text)
  | 0, _ => none
  | fuel + 1, t =>
    match t with
    | [] => none
    | b :: rest =>
      if b = byte '"' then some ([], rest)
      else if b < 0x20 then none
      else if b = byte '\\' then
        match rest with
        | [] => none
        | e :: more =>
          if e = byte 'u' then do
            let (n, after) ← unit? more
            let (code, after) := codePoint n after
            let (s, after) ← stringRest? fuel after
            return (Text.ofCode code ++ s, after)
          else do
            let c ← simpleEscape? e
            let (s, after) ← stringRest? fuel more
            return (c :: s, after)
      else
        let r := Text.rune t
        do
          let (s, after) ← stringRest? fuel (t.drop r.size)
          return (Text.ofCode r.code ++ s, after)

private def string? (t : Text) : Option (Text × Text) :=
  match t with
  | b :: rest => if b = byte '"' then stringRest? (rest.length + 1) rest else none
  | [] => none

private def digits (t : Text) : Text × Text := t.span Text.isDigit

private def fraction? (t : Text) : Option (Text × Text) :=
  match t with
  | b :: rest =>
    if b = byte '.' then
      match digits rest with
      | ([], _) => none
      | (ds, after) => some (b :: ds, after)
    else some ([], t)
  | [] => some ([], [])

private def exponent? (t : Text) : Option (Text × Text) :=
  match t with
  | b :: rest =>
    if b = byte 'e' || b = byte 'E' then
      let (sign, rest) := match rest with
        | c :: more => if c = byte '+' || c = byte '-' then ([c], more) else ([], rest)
        | [] => ([], [])
      match digits rest with
      | ([], _) => none
      | (ds, after) => some (b :: sign ++ ds, after)
    else some ([], t)
  | [] => some ([], [])

private def number? (t : Text) : Option (Text × Text) := do
  let (sign, rest) := match t with
    | b :: more => if b = byte '-' then ([b], more) else ([], t)
    | [] => ([], [])
  let (whole, rest) ← match digits rest with
    | ([], _) => none
    | (d :: ds, after) => if d = byte '0' then some ([d], ds ++ after) else some (d :: ds, after)
  let (frac, rest) ← fraction? rest
  let (exp, rest) ← exponent? rest
  return (sign ++ whole ++ frac ++ exp, rest)

private def word? (w : String) (v : Json) (t : Text) : Option (Json × Text) :=
  if Text.hasPrefix w t then some (v, t.drop (w : Text).length) else none

mutual

/-- A value at the start of a text, with at most `depth` levels of nesting. The fuel bounds the
number of values and separators. -/
private def value? : (fuel depth : Nat) → Text → Option (Json × Text)
  | 0, _, _ => none
  | fuel + 1, depth, t =>
    match skip t with
    | [] => none
    | b :: rest =>
      if b = byte '\x7b' then
        match depth with
        | 0 => none
        | d + 1 =>
          match skip rest with
          | c :: more =>
            if c = byte '\x7d' then some (.object [], more)
            else (members? fuel d (c :: more)).map fun (ms, after) => (.object ms, after)
          | [] => none
      else if b = byte '[' then
        match depth with
        | 0 => none
        | d + 1 =>
          match skip rest with
          | c :: more =>
            if c = byte ']' then some (.array [], more)
            else (items? fuel d (c :: more)).map fun (is, after) => (.array is, after)
          | [] => none
      else if b = byte '"' then (string? (b :: rest)).map fun (s, after) => (.string s, after)
      else if b = byte 't' then word? "true" (.bool true) (b :: rest)
      else if b = byte 'f' then word? "false" (.bool false) (b :: rest)
      else if b = byte 'n' then word? "null" .null (b :: rest)
      else (number? (b :: rest)).map fun (n, after) => (.number n, after)

private def items? : (fuel depth : Nat) → Text → Option (List Json × Text)
  | 0, _, _ => none
  | fuel + 1, depth, t => do
    let (v, rest) ← value? fuel depth t
    match skip rest with
    | b :: more =>
      if b = byte ',' then do
        let (vs, after) ← items? fuel depth more
        return (v :: vs, after)
      else if b = byte ']' then some ([v], more)
      else none
    | [] => none

private def members? : (fuel depth : Nat) → Text → Option (List (Text × Json) × Text)
  | 0, _, _ => none
  | fuel + 1, depth, t => do
    let (key, rest) ← string? (skip t)
    match skip rest with
    | b :: more =>
      if b = byte ':' then do
        let (v, rest) ← value? fuel depth more
        match skip rest with
        | c :: more =>
          if c = byte ',' then do
            let (ms, after) ← members? fuel depth more
            return ((key, v) :: ms, after)
          else if c = byte '\x7d' then some ([(key, v)], more)
          else none
        | [] => none
      else none
    | [] => none

end

def parse? (t : Text) : Option Json :=
  match value? (2 * t.length + 2) maxDepth t with
  | some (v, rest) => if (skip rest).isEmpty then some v else none
  | none => none

end LabelHooks.Json
