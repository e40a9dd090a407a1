import LabelHooks.Text.Printable

/-!
Quoted text for messages: printable code points stand for themselves, everything else is
escaped, so that the quoted form of any byte sequence is one printable line.
-/

namespace LabelHooks.Text

private def named (n : Nat) : Option Char :=
  match n with
  | 7 => some 'a'
  | 8 => some 'b'
  | 9 => some 't'
  | 10 => some 'n'
  | 11 => some 'v'
  | 12 => some 'f'
  | 13 => some 'r'
  | _ => none

private def escaped (c : Char) (digits : Text) : Text := byte '\\' :: byte c :: digits

def quotedRune (mark : UInt8) (b : UInt8) (r : Rune) : Text :=
  if !r.isValid then escaped 'x' (hex 2 b.toNat)
  else if r.code = mark.toNat || r.code = (byte '\\').toNat then byte '\\' :: ofCode r.code
  else if isPrintable r.code then ofCode r.code
  else match named r.code with
    | some c => escaped c []
    | none =>
      if r.code < 0x20 || r.code = 0x7F then escaped 'x' (hex 2 r.code)
      else if r.code < 0x10000 then escaped 'u' (hex 4 r.code)
      else escaped 'U' (hex 8 r.code)

private def quotedFrom (mark : UInt8) : Nat → Text → Text
  | _, [] => []
  | skip + 1, _ :: bs => quotedFrom mark skip bs
  | 0, b :: bs =>
    let r := rune (b :: bs)
    quotedRune mark b r ++ quotedFrom mark (r.size - 1) bs

def quoted (t : Text) : Text := byte '"' :: quotedFrom (byte '"') 0 t ++ [byte '"']

def quotedByte (b : UInt8) : Text :=
  byte '\'' :: quotedRune (byte '\'') b ⟨b.toNat, 0⟩ ++ [byte '\'']

end LabelHooks.Text
