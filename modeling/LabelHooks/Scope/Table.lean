import LabelHooks.Syntax.Outline

/-!
The scope table of a program: a forest of scopes, the names each of them declares, the nodes
that open them, and the names and labels used anywhere. A scope is known by its place in the
list of scopes, which only grows.
-/

namespace LabelHooks

inductive ScopeKind where
  | program | function | block | catch_ | for_
deriving DecidableEq, Repr

namespace ScopeKind

def all : List ScopeKind := [.program, .function, .block, .catch_, .for_]

def name : ScopeKind → Text
  | .program => "program"
  | .function => "function"
  | .block => "block"
  | .catch_ => "catch"
  | .for_ => "for"

end ScopeKind

/-- How a name is declared. The name of a function expression is local to it; a state label
declares a reactive name, and its modifier is generated. -/
inductive BindingKind where
  | var | let_ | const | param | function | import_ | catch_ | local_ | reactive | generated
deriving DecidableEq, Repr

namespace BindingKind

def all : List BindingKind :=
  [.var, .let_, .const, .param, .function, .import_, .catch_, .local_, .reactive, .generated]

def name : BindingKind → Text
  | .var => "var"
  | .let_ => "let"
  | .const => "const"
  | .param => "param"
  | .function => "function"
  | .import_ => "import"
  | .catch_ => "catch"
  | .local_ => "local"
  | .reactive => "reactive"
  | .generated => "generated"

def isOrdinary (k : BindingKind) : Bool := k ≠ .reactive && k ≠ .generated

end BindingKind

abbrev ScopeId := Nat

structure Declaration where
  name : Text
  kind : BindingKind
  ident : Option Ident
deriving DecidableEq, Repr

structure Scope where
  kind : ScopeKind
  node : Option Node
  parent : Option ScopeId
  declared : List Declaration
deriving DecidableEq, Repr

namespace Scope

def own? (s : Scope) (name : Text) : Option Declaration := s.declared.find? (·.name = name)

def declare (s : Scope) (d : Declaration) : Scope :=
  { s with declared := s.declared.filter (·.name ≠ d.name) ++ [d] }

def remove (s : Scope) (name : Text) : Scope :=
  { s with declared := s.declared.filter (·.name ≠ name) }

def removeKind (s : Scope) (kind : BindingKind) : Scope :=
  { s with declared := s.declared.filter (·.kind ≠ kind) }

def names (s : Scope) : List Text := Text.sort (s.declared.map (·.name))

end Scope

structure Table where
  scopes : List Scope
  /-- The scope opened by a node, by the number of the node. -/
  owners : List (Nat × ScopeId)
  references : List Text
  labels : List Text
  declared : List Text
deriving DecidableEq, Repr

namespace Table

def root : ScopeId := 0

def put (names : List Text) (name : Text) : List Text :=
  if names.contains name then names else names ++ [name]

def ofProgram (p : Program) : Table :=
  { scopes := [⟨.program, some ⟨.program, p.mark, []⟩, none, []⟩]
    owners := p.mark.id.toList.map (·, root)
    references := [], labels := [], declared := [] }

def parent? (t : Table) (s : ScopeId) : Option ScopeId := t.scopes[s]?.bind (·.parent)

def chainFrom (t : Table) : Nat → ScopeId → List ScopeId
  | 0, _ => []
  | fuel + 1, s =>
    s :: match t.parent? s with
      | none => []
      | some p => t.chainFrom fuel p

/-- A scope and its ancestors, innermost first. A chain without repetition is no longer than the
list of scopes. -/
def chain (t : Table) (s : ScopeId) : List ScopeId := t.chainFrom t.scopes.length s

def own? (t : Table) (s : ScopeId) (name : Text) : Option Declaration :=
  t.scopes[s]?.bind (·.own? name)

def lookup? (t : Table) (s : ScopeId) (name : Text) : Option (ScopeId × Declaration) :=
  (t.chain s).findSome? fun c => (t.own? c name).map (c, ·)

def hasBinding (t : Table) (s : ScopeId) (name : Text) : Bool := (t.lookup? s name).isSome

def encloses (t : Table) (s other : ScopeId) : Bool := (t.chain other).contains s

def depth (t : Table) (s : ScopeId) : Nat := (t.chain s).length - 1

def functionScope (t : Table) (s : ScopeId) : ScopeId :=
  ((t.chain s).find? fun c =>
    match t.scopes[c]? with
    | some sc => sc.kind = .function || sc.parent.isNone
    | none => true).getD s

def update (t : Table) (s : ScopeId) (f : Scope → Scope) : Table :=
  { t with scopes := t.scopes.modify s f }

def child (t : Table) (s : ScopeId) (kind : ScopeKind) (node : Option Node) : ScopeId × Table :=
  (t.scopes.length, { t with scopes := t.scopes ++ [⟨kind, node, some s, []⟩] })

def declare (t : Table) (s : ScopeId) (name : Text) (kind : BindingKind) (ident : Option Ident) :
    Table :=
  { t.update s (·.declare ⟨name, kind, ident⟩) with declared := put t.declared name }

def remove (t : Table) (s : ScopeId) (name : Text) : Table := t.update s (·.remove name)

def removeKind (t : Table) (s : ScopeId) (kind : BindingKind) : Table :=
  t.update s (·.removeKind kind)

def names (t : Table) (s : ScopeId) : List Text := (t.scopes[s]?.map Scope.names).getD []

def scopeOf? (t : Table) (m : Mark) : Option ScopeId := m.id.bind fun i => t.owners.lookup i

def disown (t : Table) (i : Nat) : Table :=
  { t with owners := t.owners.filter (·.1 ≠ i) }

def bind (t : Table) (m : Mark) (s : ScopeId) : Table :=
  match m.id with
  | none => t
  | some i => { t with owners := (i, s) :: (t.disown i).owners }

def rebind (t : Table) (old : Mark) (replacement : Node) : Option ScopeId × Table :=
  match old.id, t.scopeOf? old with
  | some i, some s =>
    (some s, ((t.disown i).bind replacement.mark s).update s
      fun sc => { sc with node := some replacement })
  | _, _ => (none, t)

mutual

def outermostIn (t : Table) : Outline → List ScopeId
  | .mk n inner =>
    match t.scopeOf? n.mark with
    | some s => [s]
    | none => t.outermostInList inner

def outermostInList (t : Table) : List Outline → List ScopeId
  | [] => []
  | o :: os => t.outermostIn o ++ t.outermostInList os

end

def outermost (t : Table) (parts : List Outline) : List ScopeId := t.outermostInList parts

/-- Make every outermost scope of the given parts that is a child of `source` a child of
`target`. -/
def reparent (t : Table) (parts : List Outline) (source target : ScopeId) : Table :=
  (t.outermost parts).foldl
    (fun t s => t.update s fun sc =>
      if sc.parent = some source then { sc with parent := some target } else sc) t

def hasReference (t : Table) (name : Text) : Bool := t.references.contains name

def addReference (t : Table) (name : Text) : Table :=
  { t with references := put t.references name }

def hasLabel (t : Table) (name : Text) : Bool := t.labels.contains name

def addLabel (t : Table) (name : Text) : Table := { t with labels := put t.labels name }

def isDeclared (t : Table) (name : Text) : Bool := t.declared.contains name

def referenceNames (t : Table) : List Text := Text.sort t.references

end Table
end LabelHooks
