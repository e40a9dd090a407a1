import LabelHooks.Decimal.Binary
import LabelHooks.Text.Basic

/-!
Decimal texts of binary numbers: with a fixed number of places, or with the fewest digits that
read back.
-/

namespace LabelHooks.Binary

private def pointed (digits : Text) (places : Nat) : Text :=
  let padded := List.replicate (places + 1 - digits.length) (byte '0') ++ digits
  padded.take (padded.length - places) ++
    if places = 0 then [] else byte '.' :: padded.drop (padded.length - places)

def fixed (x : Binary) (places : Nat) : Text :=
  let (n, d) := x.ratio
  pointed (Text.ofNat (roundDiv (n * Nat.pow 10 places) d)) places

/-- A decimal `c / 10 ^ places`, where the number of places may be negative, reads back as the
binary number: it lies no further than half-way to a neighbour, and on a half-way point only if
the significand is even. -/
private def readsBack (x : Binary) (c : Nat) (places : Int) : Bool :=
  let (n, d) := x.ratio
  let (cn, cd) :=
    if places ≥ 0 then (c, Nat.pow 10 places.toNat) else (c * Nat.pow 10 (-places).toNat, 1)
  let even := x.significand % 2 = 0
  let below := if x.significand = Nat.pow 2 52 then 4 * x.significand - 1 else 4 * x.significand - 2
  let above := 4 * x.significand + 2
  let value := 4 * x.significand
  let left := cn * d * value
  let low := below * n * cd
  let high := above * n * cd
  if even then low ≤ left && left ≤ high else low < left && left < high

private def candidate? (x : Binary) (places : Int) : Option Nat :=
  let (n, d) := x.ratio
  let (n, d) :=
    if places ≥ 0 then (n * Nat.pow 10 places.toNat, d) else (n, d * Nat.pow 10 (-places).toNat)
  let low := n / d
  let nearest := roundDiv n d
  let other := if nearest = low then low + 1 else low
  if nearest > 0 && readsBack x nearest places then some nearest
  else if other > 0 && readsBack x other places then some other
  else none

private def wholeDigits (x : Binary) : Int :=
  let (n, d) := x.ratio
  if n ≥ d then (Text.ofNat (n / d)).length
  else
    let k := (Text.ofNat (d / n)).length
    if n * Nat.pow 10 (k - 1) ≥ d then 2 - (k : Int) else 1 - (k : Int)

def shortest (x : Binary) : Text :=
  if x.significand = 0 then "0"
  else
    let start := wholeDigits x
    let tries := (List.range' 1 17).findSome? fun (count : Nat) =>
      let places := (count : Int) - start
      (candidate? x places).map fun c => (c, places)
    match tries with
    | none => Text.ofNat x.floor
    | some (c, places) =>
      if places ≤ 0 then Text.ofNat (c * Nat.pow 10 (-places).toNat)
      else
        let t := pointed (Text.ofNat c) places.toNat
        let t := Text.trimRight (· = byte '0') t
        Text.trimRight (· = byte '.') t

end LabelHooks.Binary
