import LabelHooks.Text.Width

/-!
Styles of text on a screen. Elsewhere a styled text has no colours but the same layout.
-/

namespace LabelHooks

inductive Style where
  | header1 | header2 | muted | success | warning | error | filePath | green | red | gray
deriving DecidableEq, Repr

namespace Style

def codes : Style → Text
  | .header1 => "1;38;5;75"
  | .header2 => "1"
  | .muted | .gray => "38;5;145"
  | .success | .green => "38;5;114"
  | .warning => "38;5;221"
  | .error => "1;38;5;174"
  | .filePath => "38;5;75"
  | .red => "38;5;174"

private def escape : Text := [0x1B, byte '[']

private def line (s : Style) (screen : Bool) (t : Text) : Text :=
  if screen then escape ++ s.codes ++ ("m" : Text) ++ t ++ escape ++ ("0m" : Text) else t

/-- Style a text line by line. A tab becomes four spaces, and shorter lines are filled up to the
width of the longest. -/
def render (s : Style) (screen : Bool) (t : Text) : Text :=
  let t := Text.replace "\r\n" "\n" (Text.replace "\t" (Text.spaces 4) t)
  match Text.splitOn Text.newline t with
  | [one] => s.line screen one
  | lines =>
    let widest := (lines.map Text.width).foldl max 0
    Text.join [Text.newline]
      (lines.map fun l => s.line screen l ++ Text.spaces (widest - Text.width l))

end Style
end LabelHooks
