import LabelHooks.Command.Catalog
import LabelHooks.Text.Case

/-!
Which command a line of words means, and which arguments are left for it.
-/

namespace LabelHooks

inductive UsageError where
  | flags (e : FlagError)
  /-- A word is no command; commands that may be meant are suggested. -/
  | unknownCommand (word path : Text) (suggestions : List Text)
  | unknownArgument (word path : Text)
  | wrongCount (wanted received : Nat)
  | tooFew (wanted received : Nat)
deriving DecidableEq, Repr

namespace UsageError

private def suggested (names : List Text) : Text :=
  if names.isEmpty then []
  else ("\n\nDid you mean this?\n" : Text) ++
    names.flatMap fun n => ("\t" : Text) ++ n ++ ("\n" : Text)

def message : UsageError → Text
  | .flags e => e.message
  | .unknownCommand w p s =>
    ("unknown command " : Text) ++ Text.quoted w ++ (" for " : Text) ++ Text.quoted p ++ suggested s
  | .unknownArgument w p =>
    ("invalid argument " : Text) ++ Text.quoted w ++ (" for " : Text) ++ Text.quoted p
  | .wrongCount n m =>
    ("accepts " : Text) ++ Text.ofNat n ++ (" arg(s), received " : Text) ++ Text.ofNat m
  | .tooFew n m =>
    ("requires at least " : Text) ++ Text.ofNat n ++ (" arg(s), only received " : Text) ++
      Text.ofNat m

end UsageError

namespace Command

/-- A word that is a flag and whose value is the next word. Flags that are not known are taken for
such. -/
private def takesNext (flags : List Flag) (word : Text) : Bool :=
  if word.any (· = byte '=') then false
  else if Text.hasPrefix "--" word then
    !flags.any fun f => f.name = word.drop 2 && f.standsAlone
  else match word with
    | [d, c] => d = byte '-' && !flags.any fun f => f.short = some c && f.standsAlone
    | _ => false

private def isDashed (word : Text) : Bool := Text.hasPrefix "-" word

/-- The words that are neither flags nor their values. A flag that needs a value ends them when
nothing but its value follows. -/
def operandsAmong (flags : List Flag) : List Text → List Text
  | [] => []
  | w :: ws =>
    if w = ("--" : Text) then []
    else if takesNext flags w then
      match ws with
      | _ :: v :: rest => operandsAmong flags (v :: rest)
      | _ => []
    else if w.isEmpty || isDashed w then operandsAmong flags ws
    else w :: operandsAmong flags ws

def dropOperand (flags : List Flag) (x : Text) : List Text → List Text
  | [] => []
  | w :: ws =>
    if w = ("--" : Text) then w :: ws
    else if takesNext flags w then
      match ws with
      | [] => [w]
      | v :: rest => w :: v :: dropOperand flags x rest
    else if w = x then ws
    else w :: dropOperand flags x ws

private def locateFrom (top : Command) : Nat → Command → List Text → Command × List Text
  | 0, c, words => (c, words)
  | n + 1, c, words =>
    let flags := declaredFlags top c
    match operandsAmong flags words with
    | [] => (c, words)
    | w :: _ => match child? top c w with
      | none => (c, words)
      | some d => locateFrom top n d (dropOperand flags w words)

private def nextRow (a : UInt8) (left : Nat) : List Nat → Text → List Nat
  | diagonal :: up :: row, b :: bs =>
    let v := if a = b then diagonal else 1 + min (min left up) diagonal
    v :: nextRow a v (up :: row) bs
  | _, _ => []

def editDistance (s t : Text) : Nat :=
  let first := List.range (t.length + 1)
  let last := s.foldl (fun row a =>
    let start := row.headD 0 + 1
    start :: nextRow a start row t) first
  last.getLastD 0

def suggestions (top c : Command) (word : Text) : List Text :=
  let word := Text.toLower word
  (((children top c).filter (· ≠ .help)).map name).filter fun n =>
    editDistance word n ≤ 2 || Text.hasPrefix word n

/-- The command that words mean, and the words left for it. Only at the top is a word that is no
command an error here. -/
def locate (top : Command) (words : List Text) : Except UsageError (Command × List Text) :=
  let (c, rest) := locateFrom top words.length top words
  match operandsAmong (declaredFlags top c) rest with
  | w :: _ =>
    if c = top && !(children top c).isEmpty then
      .error (.unknownCommand w (path top c) (suggestions top c w))
    else .ok (c, rest)
  | [] => .ok (c, rest)

def checkArguments (top c : Command) (args : List Text) : Except UsageError Unit :=
  match c.arity, args with
  | .any, _ | .none, [] | .one, [_] => .ok ()
  | .none, w :: _ => .error (.unknownCommand w (path top c) [])
  | .one, _ => .error (.wrongCount 1 args.length)
  | .oneOf words, [w] => if words.elem w then .ok () else .error (.unknownArgument w (path top c))
  | .oneOf _, _ => .error (.wrongCount 1 args.length)

end Command
end LabelHooks
