import LabelHooks.Text.Basic

/-!
Pieces of markdown.
-/

namespace LabelHooks.Markdown

def header (level : Int) (t : Text) : Text :=
  List.replicate (min 6 (max 1 level)).toNat (byte '#') ++ (" " : Text) ++ t

def keyValue (key value : Text) : Text :=
  ("- **" : Text) ++ key ++ (":** " : Text) ++ value

def codeBlock (language code : Text) : Text :=
  let fence : Text := "\x60\x60\x60"
  fence ++ language ++ ("\n" : Text) ++ code ++
    (if Text.hasSuffix "\n" code then [] else ("\n" : Text)) ++ fence

end LabelHooks.Markdown
