import LabelHooks.Text.Basic

/-!
Identifiers that were renamed before the source text was read: the byte offset of each with the
name it had.
-/

namespace LabelHooks

abbrev Renames := List (Int × Text)

namespace Renames

def insert (r : Renames) (offset : Int) (name : Text) : Renames :=
  match r with
  | [] => [(offset, name)]
  | (o, n) :: rest =>
    if offset < o then (offset, name) :: (o, n) :: rest
    else if offset = o then (offset, name) :: rest
    else (o, n) :: insert rest offset name

def find? (r : Renames) (offset : Int) : Option Text := r.lookup offset

end Renames
end LabelHooks
