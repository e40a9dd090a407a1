import LabelHooks.Text.Utf8

/-!
JSON documents. An object keeps its members in order, repeated keys included.
-/

namespace LabelHooks

inductive Json where
  | null
  | bool (b : Bool)
  | number (t : Text)
  | string (t : Text)
  | array (items : List Json)
  | object (members : List (Text × Json))

namespace Json

def nat (n : Nat) : Json := .number (Text.ofNat n)

def int (i : Int) : Json := .number (Text.ofInt i)

end Json
end LabelHooks
