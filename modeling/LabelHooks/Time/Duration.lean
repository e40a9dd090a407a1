import LabelHooks.Decimal.Binary
import LabelHooks.Text.Quoted

/-!
Lengths of time in whole nanoseconds, as a signed 64-bit number holds them, and their text:
`1h2m3.5s`, `100ms`, `0s`.
-/

namespace LabelHooks

abbrev Duration := Int

namespace Duration

def microsecond : Int := 1000
def millisecond : Int := 1000000
def second : Int := 1000000000
def minute : Int := 60 * second
def hour : Int := 60 * minute

def largest : Int := 9223372036854775807
def smallest : Int := -9223372036854775808

private def withFraction (whole frac digits : Nat) : Text :=
  let shown := Text.ofNat frac
  let padded := List.replicate (digits - shown.length) (byte '0') ++ shown
  let kept := Text.trimRight (· = byte '0') padded
  Text.ofNat whole ++ if kept.isEmpty then [] else byte '.' :: kept

private def magnitude (n : Nat) : Text :=
  if n < 1000 then Text.ofNat n ++ ("ns" : Text)
  else if n < 1000000 then withFraction (n / 1000) (n % 1000) 3 ++ ("µs" : Text)
  else if n < 1000000000 then withFraction (n / 1000000) (n % 1000000) 6 ++ ("ms" : Text)
  else
    let seconds := n / 1000000000
    let part := withFraction (seconds % 60) (n % 1000000000) 9 ++ ("s" : Text)
    if seconds < 60 then part
    else
      let part := Text.ofNat (seconds / 60 % 60) ++ ("m" : Text) ++ part
      if seconds < 3600 then part else Text.ofNat (seconds / 3600) ++ ("h" : Text) ++ part

/-- The unit is the largest in which the length is at least one; from a minute on all units down
to seconds are given. -/
def text (d : Duration) : Text :=
  if d = 0 then "0s"
  else if d < 0 then byte '-' :: magnitude d.natAbs
  else magnitude d.natAbs

inductive ReadError where
  | invalid (t : Text)
  | missingUnit (t : Text)
  | unknownUnit (unit t : Text)
deriving DecidableEq, Repr

namespace ReadError

private def quote (t : Text) : Text :=
  byte '"' :: (t.flatMap fun b =>
    if b = byte '"' || b = byte '\\' then [byte '\\', b]
    else if b ≥ 0x80 || b < 0x20 then ("\\x" : Text) ++ Text.hex 2 b.toNat
    else [b]) ++ [byte '"']

def message : ReadError → Text
  | .invalid t => ("time: invalid duration " : Text) ++ quote t
  | .missingUnit t => ("time: missing unit in duration " : Text) ++ quote t
  | .unknownUnit u t =>
    ("time: unknown unit " : Text) ++ quote u ++ (" in duration " : Text) ++ quote t

end ReadError

private def unit? (u : Text) : Option Nat :=
  if u = ("ns" : Text) then some 1
  else if u = ("us" : Text) || u = ("µs" : Text) || u = ("μs" : Text) then some 1000
  else if u = ("ms" : Text) then some 1000000
  else if u = ("s" : Text) then some 1000000000
  else if u = ("m" : Text) then some 60000000000
  else if u = ("h" : Text) then some 3600000000000
  else none

private def digitsValue (digits : Text) : Nat := digits.foldl (fun n b => n * 10 + (b.toNat - 48)) 0

private def bound : Nat := 9223372036854775808

private def fractionDigits (digits : Text) : Nat × Nat :=
  let step := fun (acc : Nat × Nat × Bool) (b : UInt8) =>
    let (value, scale, full) := acc
    if full || value > (bound - 1) / 10 then (value, scale, true)
    else
      let next := value * 10 + (b.toNat - 48)
      if next > bound then (value, scale, true) else (next, scale * 10, false)
  let (value, scale, _) := digits.foldl step (0, 1, false)
  (value, scale)

private def readParts (whole : Text) : Nat → Nat → Text → Except ReadError Nat
  | _, total, [] => .ok total
  | 0, _, _ => .error (.invalid whole)
  | fuel + 1, total, t =>
    let (digits, rest) := t.span Text.isDigit
    let value := digitsValue digits
    if value > bound then .error (.invalid whole)
    else
      let (pointed, fraction, rest) := match rest with
        | b :: more =>
          if b = byte '.' then
            let (f, after) := more.span Text.isDigit
            (true, f, after)
          else (false, [], rest)
        | [] => (false, [], [])
      if digits.isEmpty && fraction.isEmpty then .error (.invalid whole)
      else
        let (name, after) := rest.span fun b => b ≠ byte '.' && !Text.isDigit b
        if name.isEmpty then .error (.missingUnit whole)
        else match unit? name with
          | none => .error (.unknownUnit name whole)
          | some u =>
            if value > bound / u then .error (.invalid whole)
            else
              let scaled := value * u
              let (f, scale) := if pointed then fractionDigits fraction else (0, 1)
              let scaled := scaled + ((Binary.ofNat f).mul (.ofRatio u scale)).floor
              if scaled > bound || total + scaled > bound then .error (.invalid whole)
              else readParts whole fuel (total + scaled) after

def read (t : Text) : Except ReadError Duration :=
  let (negative, rest) := match t with
    | b :: more =>
      if b = byte '-' then (true, more) else if b = byte '+' then (false, more) else (false, t)
    | [] => (false, [])
  if rest = ("0" : Text) then .ok 0
  else if rest.isEmpty then .error (.invalid t)
  else match readParts t rest.length 0 rest with
    | .error e => .error e
    | .ok n =>
      if negative then .ok (-(n : Int))
      else if n ≥ bound then .error (.invalid t)
      else .ok n

end Duration
end LabelHooks
