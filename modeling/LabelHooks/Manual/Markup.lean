import LabelHooks.Report.Grid
import LabelHooks.Report.Markdown
import LabelHooks.Text.Blank
import LabelHooks.Text.Quoted

/-!
The parts of a page of the manual. Each part ends with an empty line.
-/

namespace LabelHooks.Manual

private def ended (t : Text) : Text := t ++ ("\n\n" : Text)

def frontmatter (title description : Text) : Text :=
  ended (("---\ntitle: " : Text) ++ Text.quoted title ++ ("\ndescription: " : Text) ++
    Text.quoted description ++ ("\n---" : Text))

def marker : Text := ended "<!-- Code generated by scripts/gendocs. DO NOT EDIT. -->"

def heading (level : Int) (t : Text) : Text := ended (Markdown.header level t)

def paragraph (t : Text) : Text := ended (Text.trim t)

def code (language t : Text) : Text := ended (Markdown.codeBlock language t)

def bullets (items : List Text) : Text :=
  (items.flatMap fun i => ("- " : Text) ++ i ++ ("\n" : Text)) ++ ("\n" : Text)

def table (header : List Text) (rows : List (List Text)) : Text :=
  ended (Grid.markdown ⟨header, rows.map fun r => r.map Cell.text⟩)

def inlineCode (t : Text) : Text := ("\x60" : Text) ++ t ++ ("\x60" : Text)

def oneLine (t : Text) : Text := Text.join " " (Text.words t)

private def isIndent (b : UInt8) : Bool := b = byte ' ' || b = byte '\t'

private def indent (line : Text) : Nat := (line.takeWhile isIndent).length

def unindented (t : Text) : Text :=
  let lines := Text.splitOn Text.newline t
  let indents := (lines.filter fun l => !(Text.trim l).isEmpty).map indent
  let shared := indents.min?.getD 0
  Text.trim (Text.join "\n" (lines.map fun l =>
    if l.length ≥ shared then l.drop shared else Text.trimLeft isIndent l))

end LabelHooks.Manual
