import LabelHooks.Text.Width

/-!
Tables, drawn with lines for a screen or as markdown. A column of numbers is aligned to the right.
-/

namespace LabelHooks

inductive Cell where
  | text (t : Text)
  | number (n : Int)
deriving DecidableEq, Repr

namespace Cell

def shown : Cell → Text
  | .text t => Text.replace "\r\n" "\n" (Text.replace "\t" (Text.spaces 4) t)
  | .number n => Text.ofInt n

def isNumber : Cell → Bool
  | .text _ => false
  | .number _ => true

end Cell

structure Grid where
  header : List Text
  rows : List (List Cell)
deriving DecidableEq, Repr

namespace Grid

def columns (g : Grid) : Nat := (g.rows.map List.length).foldl max g.header.length

private def numeric (g : Grid) : List Bool :=
  (List.range g.columns).map fun i => g.rows.all fun r => (r[i]?.map Cell.isNumber).getD true

private def texts (g : Grid) (r : List Cell) : List Text :=
  (List.range g.columns).map fun i => (r[i]?.map Cell.shown).getD []

private def headerTexts (g : Grid) : List Text := g.texts (g.header.map .text)

private def lines (t : Text) : List Text := Text.splitOn Text.newline t

private def widest (t : Text) : Nat := ((lines t).map Text.width).foldl max 0

private def aligned (right : Bool) (width : Nat) (t : Text) : Text :=
  if right then Text.padLeft width t else Text.padRight width t

private def row (columns : List (Bool × Nat)) (cells : List Text) : List Text :=
  let split := cells.map lines
  let height := (split.map List.length).foldl max 1
  (List.range height).map fun i =>
    ("│" : Text) ++ Text.join "│" ((columns.zip split).map fun ((right, width), ls) =>
      (" " : Text) ++ aligned right width (ls.getD i []) ++ (" " : Text)) ++ ("│" : Text)

private def rule (widths : List Nat) (left middle right : Text) : Text :=
  left ++ Text.join middle (widths.map fun w => (List.replicate (w + 2) ("─" : Text)).flatten) ++
    right

def boxed (g : Grid) : Text :=
  let header := g.headerTexts.map fun h => h.map fun b => if Text.isLower b then b - 0x20 else b
  let rows := g.rows.map g.texts
  let widths := (List.range g.columns).map fun i =>
    ((header :: rows).map fun r => widest (r.getD i [])).foldl max 0
  let columns := g.numeric.zip widths
  Text.join [Text.newline] <|
    [rule widths "┌" "┬" "┐"] ++ row columns header ++ [rule widths "├" "┼" "┤"] ++
      rows.flatMap (row columns) ++ [rule widths "└" "┴" "┘"]

def markdown (g : Grid) : Text :=
  let escaped := fun t => Text.replace "\n" "<br/>" (Text.replace "|" "\\|" t)
  let line := fun (cells : List Text) =>
    ("|" : Text) ++ cells.flatMap fun c => (" " : Text) ++ escaped c ++ (" |" : Text)
  let marks := g.numeric.flatMap fun right => if right then (" ---:|" : Text) else (" --- |" : Text)
  if g.columns = 0 then []
  else Text.join [Text.newline] <|
    [line g.headerTexts, ("|" : Text) ++ marks] ++ g.rows.map fun r => line (g.texts r)

end Grid
end LabelHooks
