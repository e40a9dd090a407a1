import LabelHooks.Text.Quoted

/-!
Variable-length quantities: each number is a run of base64 digits, low digits first, with five
bits a digit and a sixth to say that more follow; the lowest bit of the whole is the sign.
Numbers are 64-bit words.
-/

namespace LabelHooks.Vlq

inductive VlqError where
  | invalidDigit (b : UInt8)
  | truncated (segment : Text)
deriving DecidableEq, Repr

def digits : Text := "ABCDEFGHIJKLMNOPQRSTUVWXYZabcdefghijklmnopqrstuvwxyz0123456789+/"

abbrev Word := BitVec 64

def signed (w : Word) : Word :=
  let magnitude := w.sshiftRight 1
  if w.getLsbD 0 then -magnitude else magnitude

def decodeFrom (segment : Text) (w : Word) (shift : Nat) : Text → Except VlqError (List Word)
  | [] => if shift = 0 then .ok [] else .error (.truncated segment)
  | b :: bs =>
    match digits.idxOf? b with
    | none => .error (.invalidDigit b)
    | some d =>
      let w := w ||| BitVec.ofNat 64 (d % 32) <<< shift
      if d ≥ 32 then decodeFrom segment w (shift + 5) bs
      else (decodeFrom segment 0 0 bs).map (signed w :: ·)

def decode (segment : Text) : Except VlqError (List Word) := decodeFrom segment 0 0 segment

end LabelHooks.Vlq
