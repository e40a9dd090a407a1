/-!
Text as a list of bytes. Source code, names and printed output are all `Text`: nothing here
assumes that the bytes are well-formed UTF-8, and lengths and offsets count bytes.
-/

namespace LabelHooks

abbrev Text := List UInt8

abbrev byte (c : Char) : UInt8 := c.toUInt8

namespace Text

def ofString (s : String) : Text := s.toUTF8.data.toList

instance : Coe String Text := ⟨ofString⟩

def newline : UInt8 := byte '\n'

def ofNat (n : Nat) : Text := (Nat.toDigits 10 n).map Char.toUInt8

def ofInt : Int → Text
  | .ofNat n => ofNat n
  | .negSucc n => byte '-' :: ofNat (n + 1)

def le : Text → Text → Bool
  | [], _ => true
  | _ :: _, [] => false
  | a :: as, b :: bs => if a < b then true else if b < a then false else le as bs

def insertSorted (t : Text) : List Text → List Text
  | [] => [t]
  | u :: us => if le t u then t :: u :: us else u :: insertSorted t us

def sort (names : List Text) : List Text := names.foldr insertSorted []

def trimLeft (p : UInt8 → Bool) (t : Text) : Text := t.dropWhile p

def trimRight (p : UInt8 → Bool) (t : Text) : Text := (t.reverse.dropWhile p).reverse

def splitOn (sep : UInt8) : Text → List Text
  | [] => [[]]
  | b :: bs =>
    if b = sep then [] :: splitOn sep bs
    else match splitOn sep bs with
      | [] => [[b]]
      | first :: more => (b :: first) :: more

def join (sep : Text) : List Text → Text
  | [] => []
  | [t] => t
  | t :: ts => t ++ sep ++ join sep ts

def hasPrefix (start t : Text) : Bool := start.isPrefixOf t

def hasSuffix (stop t : Text) : Bool := stop.isSuffixOf t

def dropPrefix (start t : Text) : Text := if hasPrefix start t then t.drop start.length else t

def dropSuffix (stop t : Text) : Text :=
  if hasSuffix stop t then t.take (t.length - stop.length) else t

def find? (needle : Text) : Text → Option Nat
  | [] => if needle.isEmpty then some 0 else none
  | b :: bs => if hasPrefix needle (b :: bs) then some 0 else (find? needle bs).map (· + 1)

def contains (needle t : Text) : Bool := (find? needle t).isSome

/-- Replace every occurrence of `old`, from the left and without overlap; an empty `old` is never
replaced. -/
def replaceFrom (old new : Text) : Nat → Text → Text
  | _, [] => []
  | skip + 1, _ :: bs => replaceFrom old new skip bs
  | 0, b :: bs =>
    if !old.isEmpty && hasPrefix old (b :: bs) then new ++ replaceFrom old new (old.length - 1) bs
    else b :: replaceFrom old new 0 bs

def replace (old new t : Text) : Text := replaceFrom old new 0 t

def isDigit (b : UInt8) : Bool := byte '0' ≤ b && b ≤ byte '9'

def isLower (b : UInt8) : Bool := byte 'a' ≤ b && b ≤ byte 'z'

def isUpper (b : UInt8) : Bool := byte 'A' ≤ b && b ≤ byte 'Z'

def isHexDigit (b : UInt8) : Bool :=
  isDigit b || (byte 'a' ≤ b && b ≤ byte 'f') || (byte 'A' ≤ b && b ≤ byte 'F')

def spaces (n : Nat) : Text := List.replicate n (byte ' ')

def hex (width n : Nat) : Text :=
  let digits := (Nat.toDigits 16 n).map Char.toUInt8
  List.replicate (width - digits.length) (byte '0') ++ digits

end Text
end LabelHooks
