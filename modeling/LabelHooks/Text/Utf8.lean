import LabelHooks.Text.Basic

/-!
Code points of a text. A byte that starts no well-formed UTF-8 sequence decodes, alone, to
U+FFFD, so every non-empty text splits into runes that cover it.
-/

namespace LabelHooks

structure Rune where
  code : Nat
  size : Nat
deriving DecidableEq, Repr

namespace Rune

def invalid : Rune := ⟨0xFFFD, 1⟩

def isValid (r : Rune) : Bool := r != invalid

end Rune

namespace Text

def isContinuation (b : UInt8) : Bool := 0x80 ≤ b && b ≤ 0xBF

private def low (b : UInt8) (bits : Nat) : Nat := b.toNat % Nat.pow 2 bits

def rune : Text → Rune
  | [] => ⟨0xFFFD, 0⟩
  | a :: rest =>
    if a < 0x80 then ⟨a.toNat, 1⟩
    else match rest with
      | [] => Rune.invalid
      | b :: rest =>
        if !isContinuation b then Rune.invalid
        else if 0xC2 ≤ a && a ≤ 0xDF then ⟨low a 5 * 64 + low b 6, 2⟩
        else match rest with
          | [] => Rune.invalid
          | c :: rest =>
            if !isContinuation c then Rune.invalid
            else if 0xE0 ≤ a && a ≤ 0xEF && (a != 0xE0 || 0xA0 ≤ b) && (a != 0xED || b ≤ 0x9F) then
              ⟨low a 4 * 4096 + low b 6 * 64 + low c 6, 3⟩
            else match rest with
              | [] => Rune.invalid
              | d :: _ =>
                if isContinuation d && 0xF0 ≤ a && a ≤ 0xF4 && (a != 0xF0 || 0x90 ≤ b) &&
                    (a != 0xF4 || b ≤ 0x8F) then
                  ⟨low a 3 * 262144 + low b 6 * 4096 + low c 6 * 64 + low d 6, 4⟩
                else Rune.invalid

def runesFrom : Nat → Text → List Rune
  | _, [] => []
  | skip + 1, _ :: bs => runesFrom skip bs
  | 0, b :: bs =>
    let r := rune (b :: bs)
    r :: runesFrom (r.size - 1) bs

def runes (t : Text) : List Rune := runesFrom 0 t

def isUtf8 (t : Text) : Bool := t.runes.all Rune.isValid

def ofCode (n : Nat) : Text :=
  if n < 0x80 then [n.toUInt8]
  else if n < 0x800 then [(0xC0 + n / 64).toUInt8, (0x80 + n % 64).toUInt8]
  else if n > 0x10FFFF || (0xD800 ≤ n && n < 0xE000) then [0xEF, 0xBF, 0xBD]
  else if n < 0x10000 then
    [(0xE0 + n / 4096).toUInt8, (0x80 + n / 64 % 64).toUInt8, (0x80 + n % 64).toUInt8]
  else
    [(0xF0 + n / 262144).toUInt8, (0x80 + n / 4096 % 64).toUInt8, (0x80 + n / 64 % 64).toUInt8,
      (0x80 + n % 64).toUInt8]

def mapCodes (f : Nat → Nat) (t : Text) : Text := t.runes.flatMap fun r => ofCode (f r.code)

end Text
end LabelHooks
