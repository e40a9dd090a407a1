import LabelHooks.Report.Markdown
import LabelHooks.Report.Mode
import LabelHooks.Report.Style

/-!
Lines of output. Each function gives a text that ends its line; warnings and errors are meant for
the diagnostic stream.
-/

namespace LabelHooks

structure Renderer where
  mode : OutputMode := .auto
  screen : Bool := false
deriving DecidableEq, Repr

namespace Renderer

def effectiveMode (r : Renderer) : OutputMode := r.mode.effective r.screen

def line (t : Text) : Text := t ++ ("\n" : Text)

def styled (r : Renderer) (s : Style) (t : Text) : Text := s.render r.screen t

def header (r : Renderer) (level : Int) (t : Text) : Text :=
  line <|
    if r.effectiveMode = .markdown then Markdown.header level t
    else r.styled (if level ≤ 1 then .header1 else .header2) t

def success (r : Renderer) (t : Text) : Text :=
  line (r.styled .green "✓" ++ (" " : Text) ++ r.styled .success t)

def warning (r : Renderer) (t : Text) : Text :=
  line (r.styled .warning (("warning: " : Text) ++ t))

def error (r : Renderer) (t : Text) : Text := line (r.styled .error (("error: " : Text) ++ t))

def muted (r : Renderer) (t : Text) : Text := line (r.styled .muted t)

private def icon (r : Renderer) (status : Text) : Text :=
  if status = ("success" : Text) then r.styled .green "✓"
  else if status = ("failed" : Text) then r.styled .red "✗"
  else r.styled .gray "-"

def statusLine (r : Renderer) (name status detail : Text) : Text :=
  line (("  " : Text) ++ r.icon status ++ (" " : Text) ++ name ++
    if detail.isEmpty then [] else (" " : Text) ++ r.styled .muted detail)

end Renderer
end LabelHooks
