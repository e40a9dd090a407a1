import LabelHooks.Command.Locate
import LabelHooks.Report.Mode
import LabelHooks.Text.Blank

/-!
Completion of a command line that is being typed: what may stand in place of its last word.
-/

namespace LabelHooks

structure Candidate where
  word : Text
  meaning : Text := []
deriving DecidableEq, Repr

structure Completion where
  candidates : List Candidate := []
  files : Bool
  problem : Option Text := none
deriving DecidableEq, Repr

namespace Completion

def request : Text := "__complete"

def plainRequest : Text := "__completeNoDesc"

private inductive Goal where
  | word (args : List Text) (partial_ : Text)
  | value (f : Flag) (args : List Text)
  | unknownFlag (name : Text) (args : List Text) (partial_ : Text)

private def findFlag? (flags : List Flag) (name : Text) : Option Flag :=
  match name with
  | [c] => flags.find? (·.short = some c)
  | _ => flags.find? (·.name = name)

private def lastOf (t : Text) : Text := t.drop (t.length - 1)

private def hasEquals (t : Text) : Bool := t.any (· = byte '=')

private def flagIn (word : Text) : Text :=
  if Text.hasPrefix "--" word then word.drop 2 else lastOf word

private def isFlagWord (w : Text) : Bool :=
  if Text.hasPrefix "--" w then w.length ≥ 3 else w.length ≥ 2 && Text.hasPrefix "-" w

private def goal (flags : List Flag) (args : List Text) (word : Text) : Goal :=
  if Text.hasPrefix "-" word then
    if !hasEquals word then .word args word
    else
      let name := flagIn (word.takeWhile (· ≠ byte '='))
      match findFlag? flags name with
      | some f => .value f args
      | none => .unknownFlag name args word
  else match args.getLast? with
    | none => .word args word
    | some before =>
      if isFlagWord before && !hasEquals before then
        match findFlag? flags (flagIn before) with
        | none => .unknownFlag (flagIn before) args word
        | some f => if f.standsAlone then .word args word else .value f args.dropLast
      else .word args word

private def isEnded (flags : List Flag) (args : List Text) (read : Arguments) : Bool :=
  match Arguments.read flags (args ++ [("--" : Text)]) with
  | .ok more => more.rest.length > read.rest.length
  | .error _ => false

private def flagCandidates (word : Text) (f : Flag) : List Candidate :=
  let long := ("--" : Text) ++ f.name
  let short := match f.short with
    | some c => [[byte '-', c]]
    | none => []
  ((long :: short).filter (Text.hasPrefix word)).map (⟨·, f.usage⟩)

private def growable (f : Flag) : Bool :=
  match f.default with
  | .list _ => true
  | _ => false

private def flagNames (top c : Command) (read : Arguments) (word : Text) : List Candidate :=
  let free := fun (f : Flag) => (read.get? f.name).isNone || growable f
  let inherited := Command.sortFlags (Command.inheritedFlags top c)
  let own := Command.sortFlags (Command.localFlags top c ++ c.commonFlags)
  ((inherited ++ own).filter free).flatMap (flagCandidates word)

private def childNames (top c : Command) (word : Text) : List Candidate :=
  ((Command.sortedChildren top c).filter fun d => Text.hasPrefix word d.name).map
    fun d => ⟨d.name, d.short⟩

private def values (f : Flag) : Option (List Text) :=
  if f.name = ("output" : Text) then some (OutputMode.all.map OutputMode.name)
  else if f.name = ("format" : Text) then some ["table", "markdown", "json", "yaml"]
  else none

private def ofValue (f : Flag) : Completion :=
  match values f with
  | some l => { candidates := l.map (⟨·, []⟩), files := false }
  | none => { files := true }

private def ofWord (top c : Command) (args : List Text) (word : Text) : Completion :=
  let kids := if args.isEmpty then childNames top c word else []
  let parental := args.isEmpty && !(Command.children top c).isEmpty
  match c.arity with
  | .oneOf words =>
    if args.isEmpty then
      { candidates := kids ++ (words.filter (Text.hasPrefix word)).map (⟨·, []⟩), files := false }
    else { candidates := kids, files := !parental }
  | _ =>
    if c = .help then
      match Command.locate top args with
      | .ok (d, _) => { candidates := kids ++ childNames top d word, files := false }
      | .error _ => { candidates := kids, files := false }
    else { candidates := kids, files := !parental }

private def listed (args : List Text) : Text :=
  ("[" : Text) ++ Text.join " " args ++ ("]" : Text)

private def failed (problem : Text) : Completion := { files := true, problem := some problem }

private def unsupported (c : Command) (name : Text) : Completion :=
  failed (("Subcommand '" : Text) ++ c.name ++ ("' does not support flag '" : Text) ++ name ++
    ("'" : Text))

def complete (top : Command) (args : List Text) (word : Text) : Completion :=
  match Command.locate top args with
  | .error _ => failed (("unable to find a command for arguments: " : Text) ++ listed args)
  | .ok (c, args) =>
    let flags := Command.flags top c
    let g := goal flags args word
    let args := match g with
      | .word a _ | .value _ a | .unknownFlag _ a _ => a
    match Arguments.read flags args with
    | .error e => failed (("Error while parsing flags from args " : Text) ++ listed args ++
        (": " : Text) ++ e.message)
    | .ok read =>
      let ended := isEnded flags args read
      let asked := read.isOn "help" || read.isOn "version"
      let atWord (word : Text) : Completion :=
        if asked then { files := false }
        else if Text.hasPrefix "-" word && !hasEquals word && !ended then
          { candidates := flagNames top c read word, files := false }
        else ofWord top c read.rest word
      match g with
      | .unknownFlag name _ w => if ended then atWord w else unsupported c name
      | .value f _ => if asked || ended then { files := !asked } else ofValue f
      | .word _ w => atWord w

/-- Candidates on lines of their own, with or without meanings, and the code that tells whether
files may be offered. -/
def text (c : Completion) (meanings : Bool) : Text :=
  (c.candidates.flatMap fun d =>
    let line := if meanings then d.word ++ ("\t" : Text) ++ d.meaning else d.word
    Text.trim (line.takeWhile (· ≠ Text.newline)) ++ ("\n" : Text)) ++
    (if c.files then (":0\n" : Text) else (":4\n" : Text))

def note (c : Completion) : Text :=
  ("Completion ended with directive: " : Text) ++
    (if c.files then ("ShellCompDirectiveDefault" : Text)
      else ("ShellCompDirectiveNoFileComp" : Text)) ++
    ("\n" : Text)

end Completion
end LabelHooks
