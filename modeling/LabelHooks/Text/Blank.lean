import LabelHooks.Text.Utf8

/-!
White space: the code points that Unicode calls white space, and trimming and splitting at them.
-/

namespace LabelHooks.Text

def isBlank (n : Nat) : Bool :=
  (9 ≤ n && n ≤ 13) || n = 0x20 || n = 0x85 || n = 0xA0 || n = 0x1680 ||
    (0x2000 ≤ n && n ≤ 0x200A) || n = 0x2028 || n = 0x2029 || n = 0x202F || n = 0x205F || n = 0x3000

def chunksFrom : Nat → Text → List (Rune × Text)
  | _, [] => []
  | skip + 1, _ :: bs => chunksFrom skip bs
  | 0, b :: bs =>
    let r := rune (b :: bs)
    (r, (b :: bs).take r.size) :: chunksFrom (r.size - 1) bs

def chunks (t : Text) : List (Rune × Text) := chunksFrom 0 t

def blankChunk (c : Rune × Text) : Bool := isBlank c.1.code

def trim (t : Text) : Text :=
  ((t.chunks.dropWhile blankChunk).reverse.dropWhile blankChunk).reverse.flatMap (·.2)

private def wordsFrom (word : Text) : List (Rune × Text) → List Text
  | [] => if word.isEmpty then [] else [word]
  | c :: cs =>
    if blankChunk c then
      if word.isEmpty then wordsFrom [] cs else word :: wordsFrom [] cs
    else wordsFrom (word ++ c.2) cs

def words (t : Text) : List Text := wordsFrom [] t.chunks

end LabelHooks.Text
