import LabelHooks.Text.Blank
import LabelHooks.Text.Case

/-!
How lines of input become snippets and commands. A snippet ends with a blank line, with a line that
ends in two semicolons, or with the input; a line that starts with a dot is a command unless a
snippet has been started.
-/

namespace LabelHooks.Repl

def lineLimit : Nat := 65536

def terminator : Text := ";;"

inductive Event where
  | command (word : Text)
  | snippet (source : Text)
deriving DecidableEq, Repr

private def short : List Text → List Text
  | [] => []
  | l :: ls => if l.length ≥ lineLimit then [] else l :: short ls

def lines (input : Text) : List Text :=
  let all := Text.splitOn Text.newline input
  let all := if all.getLast? = some [] then all.dropLast else all
  (short all).map (Text.dropSuffix "\r")

def flush (pending : Text) : List Event :=
  if (Text.trim pending).isEmpty then [] else [.snippet pending]

def commandWord (trimmed : Text) : Text := Text.toLower ((Text.words trimmed).headD [])

def isQuit (word : Text) : Bool := word = (".quit" : Text) || word = (".exit" : Text)

def withoutTerminator (line : Text) : Text :=
  Text.dropSuffix terminator (Text.trimRight (fun b => b = byte ' ' || b = byte '\t') line)

def lineOf (line : Text) : Text := line ++ [Text.newline]

def eventsFrom (pending : Text) : List Text → List Event
  | [] => flush pending
  | line :: rest =>
    let trimmed := Text.trim line
    if pending.isEmpty && Text.hasPrefix "." trimmed then
      let word := commandWord trimmed
      if isQuit word then [] else .command word :: eventsFrom [] rest
    else if trimmed.isEmpty then flush pending ++ eventsFrom [] rest
    else if Text.hasSuffix terminator trimmed then
      flush (pending ++ lineOf (withoutTerminator line)) ++ eventsFrom [] rest
    else eventsFrom (pending ++ lineOf line) rest

def events (input : Text) : List Event := eventsFrom [] (lines input)

end LabelHooks.Repl
