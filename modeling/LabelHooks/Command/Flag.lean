import LabelHooks.Command.FieldList
import LabelHooks.Text.Integer
import LabelHooks.Time.Duration

/-!
Flags of a command line: what they are called, what values they take, and how words are read as
flags and other arguments.
-/

namespace LabelHooks

inductive FlagValue where
  | bool (b : Bool)
  | int (i : Int)
  | text (t : Text)
  | list (items : List Text)
  | duration (d : Duration)
deriving DecidableEq, Repr

namespace FlagValue

def shown : FlagValue → Text
  | .bool b => if b then "true" else "false"
  | .int i => Text.ofInt i
  | .text t => t
  | .list l => ("[" : Text) ++ Text.join "," l ++ ("]" : Text)
  | .duration d => d.text

def isZero : FlagValue → Bool
  | .bool b => !b
  | .int i => i = 0
  | .text t => t.isEmpty
  | .list l => l.isEmpty
  | .duration d => d = 0

def isBool : FlagValue → Bool
  | .bool _ => true
  | _ => false

def kindName : FlagValue → Text
  | .bool _ => []
  | .int _ => "int"
  | .text _ => "string"
  | .list _ => "strings"
  | .duration _ => "duration"

end FlagValue

structure Flag where
  name : Text
  short : Option UInt8 := none
  /-- The value when the flag is left out; it also says what values the flag takes. -/
  default : FlagValue := .text []
  usage : Text
deriving DecidableEq, Repr

inductive FlagError where
  | badForm (word : Text)
  | unknown (name : Text)
  | unknownShort (short : UInt8) (cluster : Text)
  | needsValue (name : Text)
  | needsShortValue (short : UInt8) (cluster : Text)
  | badValue (value flag cause : Text)
  | help
deriving DecidableEq, Repr

namespace FlagError

def message : FlagError → Text
  | .badForm w => ("bad flag syntax: " : Text) ++ w
  | .unknown n => ("unknown flag: --" : Text) ++ n
  | .unknownShort s c =>
    ("unknown shorthand flag: " : Text) ++ Text.quotedByte s ++ (" in -" : Text) ++ c
  | .needsValue n => ("flag needs an argument: --" : Text) ++ n
  | .needsShortValue s c =>
    ("flag needs an argument: " : Text) ++ Text.quotedByte s ++ (" in -" : Text) ++ c
  | .badValue v f cause =>
    ("invalid argument " : Text) ++ Text.quoted v ++ (" for " : Text) ++ Text.quoted f ++
      (" flag: " : Text) ++ cause
  | .help => "pflag: help requested"

end FlagError

namespace Flag

def title (f : Flag) : Text :=
  match f.short with
  | some s => ("-" : Text) ++ [s] ++ (", --" : Text) ++ f.name
  | none => ("--" : Text) ++ f.name

def standsAlone (f : Flag) : Bool := f.default.isBool

private def failed (function value cause : Text) : Text :=
  ("strconv." : Text) ++ function ++ (": parsing " : Text) ++ Text.quoted value ++ (": " : Text) ++
    cause

private def readValue (f : Flag) (v : Text) : Except Text FlagValue :=
  match f.default with
  | .text _ => .ok (.text v)
  | .bool _ => match Text.readBool? v with
    | some b => .ok (.bool b)
    | none => .error (failed "ParseBool" v IntegerFault.malformed.message)
  | .int _ => match Text.readInt v with
    | .ok i => .ok (.int i)
    | .error e => .error (failed "ParseInt" v e.message)
  | .duration _ => match Duration.read v with
    | .ok d => .ok (.duration d)
    | .error e => .error e.message
  | .list _ => match FieldList.read v with
    | .ok l => .ok (.list l)
    | .error e => .error e.message

end Flag

/-- Words after reading: flags that were set, in the order in which each was first set, and the
other arguments. -/
structure Arguments where
  set : List (Text × FlagValue) := []
  rest : List Text := []
deriving DecidableEq, Repr

namespace Arguments

def get? (a : Arguments) (name : Text) : Option FlagValue := a.set.lookup name

def text (a : Arguments) (name fallback : Text) : Text :=
  match a.get? name with
  | some (.text t) => t
  | _ => fallback

def isOn (a : Arguments) (name : Text) : Bool := a.get? name = some (.bool true)

def int (a : Arguments) (name : Text) (fallback : Int) : Int :=
  match a.get? name with
  | some (.int i) => i
  | _ => fallback

private def put (a : Arguments) (name : Text) (v : FlagValue) : Arguments :=
  match a.get? name, v with
  | none, _ => { a with set := a.set ++ [(name, v)] }
  | some (.list old), .list new => replace (.list (old ++ new))
  | some _, _ => replace v
where
  replace (v : FlagValue) : Arguments :=
    { a with set := a.set.map fun (n, old) => if n = name then (n, v) else (n, old) }

private def assign (a : Arguments) (f : Flag) (v : Text) : Except FlagError Arguments :=
  match f.readValue v with
  | .error cause => .error (.badValue v f.title cause)
  | .ok x => .ok (a.put f.name x)

/-- What a word asks for: it is complete, or the next word is the value of a flag, which if missing
is an error. -/
private inductive Demand where
  | done (a : Arguments)
  | value (a : Arguments) (f : Flag) (missing : FlagError)

private def long (flags : List Flag) (a : Arguments) (word : Text) : Except FlagError Demand :=
  let body := word.drop 2
  let (name, value) := body.span (· ≠ byte '=')
  if name.isEmpty || body.head? = some (byte '-') then .error (.badForm word)
  else match flags.find? (·.name = name) with
    | none => .error (if name = ("help" : Text) then .help else .unknown name)
    | some f =>
      if !value.isEmpty then (a.assign f (value.drop 1)).map .done
      else if f.standsAlone then (a.assign f "true").map .done
      else .ok (.value a f (.needsValue name))

private def cluster (flags : List Flag) (a : Arguments) : Text → Except FlagError Demand
  | [] => .ok (.done a)
  | c :: rest =>
    match flags.find? (·.short = some c) with
    | none => .error (if c = byte 'h' then .help else .unknownShort c (c :: rest))
    | some f =>
      if rest.length > 1 && rest.head? = some (byte '=') then (a.assign f (rest.drop 1)).map .done
      else if f.standsAlone then
        match a.assign f "true" with
        | .error e => .error e
        | .ok a => cluster flags a rest
      else if !rest.isEmpty then (a.assign f rest).map .done
      else .ok (.value a f (.needsShortValue c [c]))

private def isFlag (word : Text) : Bool := word.length > 1 && word.head? = some (byte '-')

private def ofWord (flags : List Flag) (a : Arguments) (word : Text) : Except FlagError Demand :=
  if !isFlag word then .ok (.done { a with rest := a.rest ++ [word] })
  else if Text.hasPrefix "--" word then long flags a word
  else if Text.hasPrefix "-test." word then .ok (.done a)
  else cluster flags a (word.drop 1)

private def readFrom (flags : List Flag) (a : Arguments) :
    List Text → Except FlagError Arguments
  | [] => .ok a
  | word :: words =>
    if word = ("--" : Text) then .ok { a with rest := a.rest ++ words }
    else match ofWord flags a word with
      | .error e => .error e
      | .ok (.done a) => readFrom flags a words
      | .ok (.value a f missing) =>
        match words with
        | [] => .error missing
        | v :: words =>
          match a.assign f v with
          | .error e => .error e
          | .ok a => readFrom flags a words

def read (flags : List Flag) (words : List Text) : Except FlagError Arguments :=
  readFrom flags {} words

end Arguments
end LabelHooks
