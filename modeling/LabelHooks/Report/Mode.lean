import LabelHooks.Text.Blank
import LabelHooks.Text.Case

/-!
Forms of output: for people at a screen, for documents, for machines, or whichever of the first two
fits.
-/

namespace LabelHooks

inductive OutputMode where
  | auto | text | markdown | json
deriving DecidableEq, Repr

namespace OutputMode

def all : List OutputMode := [.auto, .text, .markdown, .json]

def name : OutputMode → Text
  | .auto => "auto"
  | .text => "text"
  | .markdown => "markdown"
  | .json => "json"

def ofName (t : Text) : OutputMode :=
  (all.find? (·.name = Text.toLower (Text.trim t))).getD .auto

def isName (t : Text) : Bool :=
  t.isEmpty || all.any fun m => Text.spells m.name t

def effective (m : OutputMode) (screen : Bool) : OutputMode :=
  if m = .auto then if screen then .text else .markdown else m

end OutputMode
end LabelHooks
