import LabelHooks.Text.Utf8

/-!
Columns that count UTF-16 units, as byte offsets into a line.
-/

namespace LabelHooks

structure Columns where
  rest : Text
  units : Nat := 0
  bytes : Nat := 0
deriving DecidableEq, Repr

namespace Columns

def ofLine (line : Text) : Columns := { rest := line }

def advanceFrom : Nat → Columns → Int → Columns
  | 0, c, _ => c
  | fuel + 1, c, column =>
    if c.rest.isEmpty || column ≤ c.units then c
    else
      let r := Text.rune c.rest
      advanceFrom fuel
        { rest := c.rest.drop r.size
          units := c.units + if r.code ≥ 0x10000 then 2 else 1
          bytes := c.bytes + r.size } column

def advance (c : Columns) (column : Int) : Columns := advanceFrom c.rest.length c column

end Columns
end LabelHooks
