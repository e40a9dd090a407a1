import LabelHooks.Path.Basic
import LabelHooks.Text.Case

/-!
Keys of settings. A key is a dotted path; the environment variable of a key is its upper-case form
behind the name of the program, with two underscores for each dot.
-/

namespace LabelHooks.Config

def envStart : Text := "LABELSUGAR_"

def envName (key : Text) : Text := envStart ++ Text.toUpper (Text.replace "." "__" key)

def envKey (name : Text) : Text :=
  Text.replace "__" "." (Text.toLower (Text.dropPrefix envStart name))

def resolve (path base : Text) : Text :=
  if path.isEmpty || Path.isAbs path then path else Path.join [base, path]

end LabelHooks.Config
