import LabelHooks.Text.Basic

/-!
Lists given as one text: fields with commas between them. A field in double quotes may hold commas
and line ends, and a quote in it is written twice. A line end outside quotes ends the list.
-/

namespace LabelHooks

inductive ListFault where
  | nothing
  | bareQuote (start line column : Nat)
  | strayQuote (start line column : Nat)
deriving DecidableEq, Repr

namespace ListFault

private def located (start line column : Nat) (what : Text) : Text :=
  (if start = line then [] else ("record on line " : Text) ++ Text.ofNat start ++ ("; " : Text)) ++
    ("parse error on line " : Text) ++ Text.ofNat line ++ (", column " : Text) ++
    Text.ofNat column ++ (": " : Text) ++ what

def message : ListFault → Text
  | .nothing => "EOF"
  | .bareQuote s l c => located s l c "bare \" in non-quoted field"
  | .strayQuote s l c => located s l c "extraneous or missing \" in quoted-field"

end ListFault

namespace FieldList

private inductive Place where
  | fresh | plain | quoted | closing
deriving DecidableEq

private def quote : UInt8 := byte '"'

/-- Read fields from a place at a line and column; the current field and the finished ones are
kept in reverse. -/
private def fields (start : Nat) :
    Place → Nat → Nat → Text → List Text → Text → Except ListFault (List Text)
  | .quoted, line, column, _, _, [] => .error (.strayQuote start line column)
  | _, _, _, field, done, [] => .ok (field.reverse :: done).reverse
  | .quoted, line, column, field, done, b :: bs =>
    if b = quote then fields start .closing line (column + 1) field done bs
    else if b = Text.newline && !bs.isEmpty then
      fields start .quoted (line + 1) 1 (b :: field) done bs
    else fields start .quoted line (column + 1) (b :: field) done bs
  | place, line, column, field, done, b :: bs =>
    if b = byte ',' then fields start .fresh line (column + 1) [] (field.reverse :: done) bs
    else if b = Text.newline then .ok (field.reverse :: done).reverse
    else if b = quote then
      match place with
      | .fresh => fields start .quoted line (column + 1) field done bs
      | .closing => fields start .quoted line (column + 1) (b :: field) done bs
      | _ => .error (.bareQuote start line column)
    else if place = .closing then .error (.strayQuote start line (column - 1))
    else fields start .plain line (column + 1) (b :: field) done bs

def read (t : Text) : Except ListFault (List Text) :=
  if t.isEmpty then .ok []
  else
    let t := Text.dropSuffix "\r" (Text.replace "\r\n" "\n" t)
    let rest := t.dropWhile (· = Text.newline)
    if rest.isEmpty then .error .nothing
    else
      let line := t.length - rest.length + 1
      fields line .fresh line 1 [] [] rest

end FieldList
end LabelHooks
