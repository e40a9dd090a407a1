/-!
Numbers with 53 significant bits, and arithmetic that rounds to the nearest of them, a tie to the
even one. Exponents have no bounds.
-/

namespace LabelHooks

structure Binary where
  significand : Nat
  exponent : Int
deriving DecidableEq, Repr

namespace Binary

def roundDiv (num den : Nat) : Nat :=
  let q := num / den
  let r := num % den
  if 2 * r > den || (2 * r = den && q % 2 = 1) then q + 1 else q

private def scaled (num den : Nat) (e : Int) : Nat × Nat :=
  if e ≥ 0 then (num, den * Nat.pow 2 e.toNat) else (num * Nat.pow 2 (-e).toNat, den)

def ofRatio (num den : Nat) : Binary :=
  if num = 0 || den = 0 then ⟨0, 0⟩
  else
    let guess : Int := (Nat.log2 num : Int) - Nat.log2 den - 52
    let (n, d) := scaled num den guess
    let e := if n / d < Nat.pow 2 52 then guess - 1 else guess
    let (n, d) := scaled num den e
    ⟨roundDiv n d, e⟩

def ofNat (n : Nat) : Binary := ofRatio n 1

def ratio (x : Binary) : Nat × Nat :=
  if x.exponent ≥ 0 then (x.significand * Nat.pow 2 x.exponent.toNat, 1)
  else (x.significand, Nat.pow 2 (-x.exponent).toNat)

def add (x y : Binary) : Binary :=
  let (a, b) := x.ratio
  let (c, d) := y.ratio
  ofRatio (a * d + c * b) (b * d)

def mul (x y : Binary) : Binary :=
  let (a, b) := x.ratio
  let (c, d) := y.ratio
  ofRatio (a * c) (b * d)

def div (x y : Binary) : Binary :=
  let (a, b) := x.ratio
  let (c, d) := y.ratio
  ofRatio (a * d) (b * c)

def floor (x : Binary) : Nat := x.ratio.1 / x.ratio.2

end Binary
end LabelHooks
