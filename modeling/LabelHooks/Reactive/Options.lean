import LabelHooks.Text.Quoted
import LabelHooks.Token.Kind

/-!
What the pass is told: the two labels, the functions that the desugared code calls, and whether
mutations of properties are left alone.
-/

namespace LabelHooks

structure Options where
  stateLabel : Text
  watchLabel : Text
  stateFactory : Text
  effectFactory : Text
  memoFactory : Text
  ignoreMembers : Bool
deriving DecidableEq, Repr

inductive OptionError where
  | labelRequired (field : Text)
  | invalidLabel (field value : Text)
  | sameLabels (value : Text)
  | invalidFactory (field value : Text)
deriving DecidableEq, Repr

namespace OptionError

def message : OptionError → Text
  | .labelRequired field => field ++ (" is required" : Text)
  | .invalidLabel field value =>
    field ++ (" " : Text) ++ Text.quoted value ++ (" is not a valid label" : Text)
  | .sameLabels value =>
    ("state label and watch label must differ, both are " : Text) ++ Text.quoted value
  | .invalidFactory field value =>
    field ++ (" " : Text) ++ Text.quoted value ++ (" must be an identifier or a dotted path" : Text)

end OptionError

inductive LabelRole where
  | state | watch | unmatched
deriving DecidableEq, Repr

namespace Options

def default : Options :=
  { stateLabel := "ref"
    watchLabel := "watch"
    stateFactory := "React.useState"
    effectFactory := "React.useEffect"
    memoFactory := "React.useMemo"
    ignoreMembers := true }

def empty : Options := ⟨[], [], [], [], [], false⟩

private def orElse (value fallback : Text) : Text := if value.isEmpty then fallback else value

def withDefaults (o : Options) : Options :=
  { o with
    stateLabel := orElse o.stateLabel default.stateLabel
    watchLabel := orElse o.watchLabel default.watchLabel
    stateFactory := orElse o.stateFactory default.stateFactory
    effectFactory := orElse o.effectFactory default.effectFactory
    memoFactory := orElse o.memoFactory default.memoFactory }

def isNameStart (b : UInt8) : Bool :=
  Text.isLower b || Text.isUpper b || b = byte '_' || b = byte '$'

/-- A non-empty word of ASCII letters, digits, underscores and dollar signs that starts with no
digit. -/
def isWord : Text → Bool
  | [] => false
  | b :: bs => isNameStart b && bs.all fun c => isNameStart c || Text.isDigit c

def isPath (t : Text) : Bool := (Text.splitOn (byte '.') t).all isWord

def checkLabel (field value : Text) : Except OptionError Unit :=
  if value.isEmpty then .error (.labelRequired field)
  else if isWord value && !(Token.Kind.ofWord value).isKeyword then .ok ()
  else .error (.invalidLabel field value)

def checkFactory (field value : Text) : Except OptionError Unit :=
  if isPath value then .ok () else .error (.invalidFactory field value)

def validate (o : Options) : Except OptionError Unit := do
  checkLabel "state label" o.stateLabel
  checkLabel "watch label" o.watchLabel
  if o.stateLabel = o.watchLabel then throw (.sameLabels o.stateLabel)
  checkFactory "state factory" o.stateFactory
  checkFactory "effect factory" o.effectFactory
  checkFactory "memo factory" o.memoFactory

def complete (o : Options) : Except OptionError Options := do
  let filled := o.withDefaults
  filled.validate
  return filled

def classify (o : Options) (label : Text) : LabelRole :=
  if label = o.stateLabel then .state
  else if label = o.watchLabel then .watch
  else .unmatched

end Options
end LabelHooks
