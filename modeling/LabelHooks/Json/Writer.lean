import LabelHooks.Json.Value

/-!
Writing JSON. Angle brackets, ampersands and the two line separators are escaped, so that a
document can stand inside a script; bytes that are not UTF-8 are written as the replacement
character.
-/

namespace LabelHooks.Json

def unit (n : Nat) : Text := ("\\u" : Text) ++ Text.hex 4 n

def escapedCode (code : Nat) : Text :=
  if code = 0x22 then "\\\""
  else if code = 0x5C then "\\\\"
  else if code = 8 then "\\b"
  else if code = 9 then "\\t"
  else if code = 10 then "\\n"
  else if code = 12 then "\\f"
  else if code = 13 then "\\r"
  else if code < 0x20 || code = 0x3C || code = 0x3E || code = 0x26 || code = 0x2028
      || code = 0x2029 then unit code
  else Text.ofCode code

def escapedRune (r : Rune) : Text :=
  if r.code = 0xFFFD && r.size = 1 then unit 0xFFFD else escapedCode r.code

def quoted (t : Text) : Text :=
  byte '"' :: (Text.runes t).flatMap escapedRune ++ [byte '"']

mutual

def compact : Json → Text
  | .null => "null"
  | .bool true => "true"
  | .bool false => "false"
  | .number t => t
  | .string t => quoted t
  | .array items => ("[" : Text) ++ Text.join "," (compactItems items) ++ ("]" : Text)
  | .object members => ("\x7b" : Text) ++ Text.join "," (compactMembers members) ++ ("\x7d" : Text)

def compactItems : List Json → List Text
  | [] => []
  | v :: vs => compact v :: compactItems vs

def compactMembers : List (Text × Json) → List Text
  | [] => []
  | (k, v) :: ms => (quoted k ++ (":" : Text) ++ compact v) :: compactMembers ms

end

private def laidOut (depth : Nat) (opening closing : Text) (items : List Text) : Text :=
  if items.isEmpty then opening ++ closing
  else
    let gap := byte '\n' :: Text.spaces (2 * (depth + 1))
    opening ++ gap ++ Text.join (byte ',' :: gap) items ++ byte '\n' :: Text.spaces (2 * depth) ++
      closing

mutual

/-- A document whose members and items stand on lines of their own, indented by two spaces for
each level. -/
def prettyAt (depth : Nat) : Json → Text
  | .null => "null"
  | .bool true => "true"
  | .bool false => "false"
  | .number t => t
  | .string t => quoted t
  | .array items => laidOut depth "[" "]" (prettyItems (depth + 1) items)
  | .object members => laidOut depth "\x7b" "\x7d" (prettyMembers (depth + 1) members)

private def prettyItems (depth : Nat) : List Json → List Text
  | [] => []
  | v :: vs => prettyAt depth v :: prettyItems depth vs

private def prettyMembers (depth : Nat) : List (Text × Json) → List Text
  | [] => []
  | (k, v) :: ms => (quoted k ++ (": " : Text) ++ prettyAt depth v) :: prettyMembers depth ms

end

def pretty (v : Json) : Text := prettyAt 0 v ++ ("\n" : Text)

end LabelHooks.Json
