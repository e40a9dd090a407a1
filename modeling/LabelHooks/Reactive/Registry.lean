import LabelHooks.Scope.Table

/-!
The reactive names that state labels declared so far, and which of them a use refers to.
-/

namespace LabelHooks

structure Reactive where
  ident : Ident
  modifier : Ident
  scope : ScopeId
deriving DecidableEq, Repr

namespace Reactive

def name (b : Reactive) : Text := b.ident.name

end Reactive

abbrev Registry := List Reactive

namespace Registry

def better (t : Table) (name : Text) (use : ScopeId) (best : Option Reactive)
    (b : Reactive) : Option Reactive :=
  if b.name = name && t.encloses b.scope use then
    match best with
    | none => some b
    | some c => if t.depth b.scope ≥ t.depth c.scope then some b else best
  else best

def lookup? (r : Registry) (t : Table) (name : Text) (use : ScopeId) : Option Reactive :=
  r.foldl (better t name use) none

/-- Walking outward along scopes, the scope of `b` comes before any ordinary declaration of its
name. -/
def reaches (t : Table) (b : Reactive) : List ScopeId → Bool
  | [] => false
  | s :: ss =>
    if s = b.scope then true
    else if (t.own? s b.name).any (·.kind.isOrdinary) then false
    else reaches t b ss

def resolves (t : Table) (use : ScopeId) (b : Reactive) : Bool := reaches t b (t.chain use)

def reactive? (r : Registry) (t : Table) (name : Text) (use : ScopeId) : Option Reactive :=
  (r.lookup? t name use).filter (resolves t use)

end Registry
end LabelHooks
