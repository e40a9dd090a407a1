import LabelHooks.Text.Quoted

/-!
Whole numbers of 64 bits with a sign, in the notation of source code: a base may be given by
`0x`, `0o`, `0b` or a leading zero, and single underscores may stand between digits.
-/

namespace LabelHooks

def Word.count : Nat := 18446744073709551616

def Word.half : Nat := 9223372036854775808

inductive IntegerFault where
  | malformed | tooLarge
deriving DecidableEq, Repr

namespace IntegerFault

def message : IntegerFault → Text
  | .malformed => "invalid syntax"
  | .tooLarge => "value out of range"

end IntegerFault

namespace Text

def digitValue? (b : UInt8) : Option Nat :=
  if isDigit b then some (b.toNat - 48)
  else if isLower b then some (b.toNat - 87)
  else if isUpper b then some (b.toNat - 55)
  else none

private def digits (base : Nat) : Nat → Text → Except IntegerFault Nat
  | n, [] => .ok n
  | n, b :: bs =>
    if b = byte '_' then digits base n bs
    else match digitValue? b with
      | none => .error .malformed
      | some d =>
        if d ≥ base then .error .malformed
        else if n * base + d ≥ Word.count then .error .tooLarge
        else digits base (n * base + d) bs

private def separated : Bool → Text → Bool
  | digitBefore, [] => digitBefore
  | digitBefore, b :: bs =>
    if b = byte '_' then digitBefore && separated false bs else separated true bs

private def natural (t : Text) : Except IntegerFault Nat :=
  let (base, rest, counts) := match t with
    | 0x30 :: b :: c :: rest =>
      if b = byte 'x' || b = byte 'X' then (16, c :: rest, true)
      else if b = byte 'b' || b = byte 'B' then (2, c :: rest, true)
      else if b = byte 'o' || b = byte 'O' then (8, c :: rest, true)
      else (8, b :: c :: rest, true)
    | [0x30, b] => (8, [b], true)
    | _ => (10, t, false)
  if rest.isEmpty then .error .malformed
  else match digits base 0 rest with
    | .error e => .error e
    | .ok n => if separated counts rest then .ok n else .error .malformed

def readInt (t : Text) : Except IntegerFault Int :=
  let (negative, rest) := match t with
    | b :: more =>
      if b = byte '-' then (true, more) else if b = byte '+' then (false, more) else (false, t)
    | [] => (false, t)
  match natural rest with
  | .error e => .error e
  | .ok n =>
    if negative then if n ≤ Word.half then .ok (-(n : Int)) else .error .tooLarge
    else if n < Word.half then .ok n
    else .error .tooLarge

def readBool? (t : Text) : Option Bool :=
  let yes : List Text := ["1", "t", "T", "TRUE", "true", "True"]
  let no : List Text := ["0", "f", "F", "FALSE", "false", "False"]
  if yes.elem t then some true else if no.elem t then some false else none

end Text
end LabelHooks
