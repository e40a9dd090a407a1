import LabelHooks.Scope.Table
import LabelHooks.Syntax.Shape
import LabelHooks.Text.Case

/-!
Names for modifiers: `_setCount`, `_setCount2`, `_setCount3`, … for the state name `count`. The
first that nothing else in the program uses is taken.
-/

namespace LabelHooks.Modifier

def stem (name : Text) : Text :=
  Text.trimRight Text.isDigit (Text.trimLeft (· = byte '_') name)

def stemFor (name : Text) : Text := stem (("set" : Text) ++ Text.capitalize name)

def candidate (stem : Text) (i : Nat) : Text :=
  byte '_' :: stem ++ if i > 1 then Text.ofNat i else []

/-- A name collides with an earlier modifier, a binding visible from `s`, or a name declared,
referenced or used as a label anywhere. -/
def isUsed (taken : List Text) (t : Table) (s : ScopeId) (name : Text) : Bool :=
  taken.contains name || t.hasBinding s name || t.isDeclared name || t.hasReference name ||
    t.hasLabel name

def known (taken : List Text) (t : Table) : Nat :=
  taken.length + t.declared.length + t.references.length + t.labels.length +
    t.scopes.foldr (fun s n => s.declared.length + n) 0

def fresh (taken : List Text) (t : Table) (s : ScopeId) (name : Text) : Text :=
  let start := stemFor name
  let numbers := List.range' 1 (known taken t + 1)
  ((numbers.map (candidate start)).find? fun c => !isUsed taken t s c).getD (candidate start 1)

structure Allocation where
  ident : Ident
  taken : List Text
  table : Table

def allocate (taken : List Text) (t : Table) (s : ScopeId) (name : Text) (span : Span) :
    Allocation :=
  let ident := Ident.ofName (fresh taken t s name) span
  ⟨ident, taken ++ [ident.name], t.declare s ident.name .generated (some ident)⟩

end LabelHooks.Modifier
