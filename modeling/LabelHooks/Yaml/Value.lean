import LabelHooks.Decimal.Shortest
import LabelHooks.Text.Integer
import LabelHooks.Text.Utf8

/-!
YAML values, and what a scalar without quotes stands for.
-/

namespace LabelHooks

inductive Yaml where
  | null
  | bool (b : Bool)
  | int (i : Int)
  | float (negative : Bool) (x : Binary)
  | nonfinite (name : Text)
  | timestamp (t : Text)
  | string (t : Text)
  | list (items : List Yaml)
  | map (members : List (Text × Yaml))

namespace Yaml

private def digitsOnly (t : Text) : Bool := !t.isEmpty && t.all Text.isDigit

def natOf? (base : Nat) (t : Text) : Option Nat :=
  if t.isEmpty then none
  else t.foldlM (fun n b => (Text.digitValue? b).bind fun d =>
    if d < base then some (n * base + d) else none) 0

def splitBase (t : Text) : Nat × Text :=
  match t with
  | 0x30 :: b :: rest =>
    if b = byte 'x' || b = byte 'X' then (16, rest)
    else if b = byte 'b' || b = byte 'B' then (2, rest)
    else if b = byte 'o' || b = byte 'O' then (8, rest)
    else (8, b :: rest)
  | _ => (10, t)

private def splitSign (t : Text) : Bool × Bool × Text :=
  match t with
  | b :: rest =>
    if b = byte '-' then (true, true, rest)
    else if b = byte '+' then (true, false, rest)
    else (false, false, t)
  | [] => (false, false, t)

private def int? (t : Text) : Option Int :=
  let (signed, negative, digits) := splitSign t
  let (base, digits) := splitBase digits
  (natOf? base digits).bind fun n =>
    if negative then if n ≤ Word.half then some (-(n : Int)) else none
    else if n < Word.half || (!signed && n < Word.count) then some n
    else none

private def float? (t : Text) : Option (Bool × Binary) :=
  let (_, negative, rest) := splitSign t
  let (whole, rest) := rest.span Text.isDigit
  let (fraction, rest, pointed) := match rest with
    | 0x2E :: more => let (f, r) := more.span Text.isDigit; (f, r, true)
    | _ => ([], rest, false)
  if whole.isEmpty && (fraction.isEmpty || !pointed) then none
  else
    let exponent? : Option Int := match rest with
      | [] => some 0
      | e :: more =>
        if e = byte 'e' || e = byte 'E' then
          let (_, neg, ds) := splitSign more
          if digitsOnly ds then (natOf? 10 ds).map fun n => if neg then -(n : Int) else n else none
        else none
    exponent?.bind fun e =>
      let n := (natOf? 10 (whole ++ fraction)).getD 0
      let scale := e - fraction.length
      let size := (Text.ofNat n).length + scale
      if n = 0 || size < -330 then some (negative, ⟨0, 0⟩)
      else if size > 310 then none
      else
        let x := if scale ≥ 0 then Binary.ofRatio (n * Nat.pow 10 scale.toNat) 1
          else Binary.ofRatio n (Nat.pow 10 (-scale).toNat)
        if x.exponent > 971 then none else some (negative, x)

private def shortNumber (t : Text) : Option (Nat × Text) :=
  match t with
  | a :: b :: rest =>
    if !Text.isDigit a then none
    else if Text.isDigit b then some ((a.toNat - 48) * 10 + (b.toNat - 48), rest)
    else some (a.toNat - 48, b :: rest)
  | [a] => if Text.isDigit a then some (a.toNat - 48, []) else none
  | [] => none

private def daysIn (year month : Nat) : Nat :=
  if month = 2 then
    if year % 4 = 0 && (year % 100 ≠ 0 || year % 400 = 0) then 29 else 28
  else if month = 4 || month = 6 || month = 9 || month = 11 then 30
  else 31

private def date? (t : Text) : Option Text := do
  let year ← if digitsOnly (t.take 4) && (t.take 4).length = 4 then natOf? 10 (t.take 4) else none
  let rest ← if (t.drop 4).head? = some (byte '-') then some (t.drop 5) else none
  let (month, rest) ← shortNumber rest
  let rest ← if rest.head? = some (byte '-') then some (rest.drop 1) else none
  let (day, rest) ← shortNumber rest
  if 1 ≤ month && month ≤ 12 && 1 ≤ day && day ≤ daysIn year month then some rest else none

private def clock? (t : Text) : Option Text := do
  let (hour, rest) ← shortNumber t
  let rest ← if rest.head? = some (byte ':') then some (rest.drop 1) else none
  let (minute, rest) ← shortNumber rest
  let rest ← if rest.head? = some (byte ':') then some (rest.drop 1) else none
  let (second, rest) ← shortNumber rest
  if hour < 24 && minute < 60 && second < 60 then
    match rest with
    | p :: d :: more =>
      if (p = byte '.' || p = byte ',') && Text.isDigit d then some (more.dropWhile Text.isDigit)
      else some rest
    | _ => some rest
  else none

private def isZone (t : Text) : Bool :=
  match t with
  | [z] => z = byte 'Z'
  | [s, a, b, c, d, e] =>
    (s = byte '+' || s = byte '-') && c = byte ':' && digitsOnly [a, b, d, e] &&
      (natOf? 10 [a, b]).any (· ≤ 24) && (natOf? 10 [d, e]).any (· ≤ 60)
  | _ => false

def isTimestamp (t : Text) : Bool :=
  match date? t with
  | none => false
  | some [] => true
  | some (b :: rest) =>
    if b = byte 'T' || b = byte 't' then (clock? rest).any isZone
    else if b = byte ' ' then (clock? rest).any List.isEmpty
    else false

private def words : List (Text × Yaml) :=
  [("", .null), ("~", .null), ("null", .null), ("Null", .null), ("NULL", .null),
    ("true", .bool true), ("True", .bool true), ("TRUE", .bool true),
    ("false", .bool false), ("False", .bool false), ("FALSE", .bool false),
    (".nan", .nonfinite "NaN"), (".NaN", .nonfinite "NaN"), (".NAN", .nonfinite "NaN"),
    (".inf", .nonfinite "+Inf"), (".Inf", .nonfinite "+Inf"), (".INF", .nonfinite "+Inf"),
    ("+.inf", .nonfinite "+Inf"), ("+.Inf", .nonfinite "+Inf"), ("+.INF", .nonfinite "+Inf"),
    ("-.inf", .nonfinite "-Inf"), ("-.Inf", .nonfinite "-Inf"), ("-.INF", .nonfinite "-Inf")]

private def number (t : Text) : Yaml :=
  let plain := t.filter (· ≠ byte '_')
  match int? plain with
  | some i => .int i
  | none => match float? plain with
    | some (negative, x) => .float negative x
    | none => .string t

def resolve (t : Text) : Yaml :=
  match words.lookup t with
  | some v => v
  | none => match t with
    | [] => .null
    | b :: _ =>
      if b = byte '.' then match float? t with
        | some (negative, x) => .float negative x
        | none => .string t
      else if Text.isDigit b || b = byte '+' || b = byte '-' then
        if isTimestamp t then .timestamp t else number t
      else .string t

def isString : Yaml → Bool
  | .string _ => true
  | _ => false

end Yaml
end LabelHooks
