import LabelHooks.Proofs.Effects
import LabelHooks.Proofs.Rejection

/-!
The scoping rules. Every node that opens a scope owns one inside the scope of the nearest such node
around it. It declares the names that are bound right there and, if it is a function or the program,
those of the `var` declarations and imports that stand in no function inside. The discriminant of a
switch stands outside its scope.
-/

namespace LabelHooks
set_option autoImplicit true

namespace Sites

inductive Layer where
  /-- A `var` declaration or an import. -/
  | hoist
  | scope (k : ScopeKind)

def layered (around : List Layer) : Sites → List (List Layer × Site)
  | .nil => []
  | .site x rest => (around, x) :: rest.layered around
  | .hoist inner rest => inner.layered (.hoist :: around) ++ rest.layered around
  | .scope k _ inner rest => inner.layered (.scope k :: around) ++ rest.layered around

/-- A site that declares in the scope around the layers: as `own` where there are none, and as `far`
where it is hoisted and no function is between. -/
def Reaches (own far : Bool) (around : List Layer) : Prop :=
  around = [] ∧ own = true ∨ around.head? = some .hoist ∧ .scope .function ∉ around ∧ far = true

/-- The name is bound by one of the sites in a scope: right there or, if the scope collects hoisted
names, in a hoisted declaration that is not in a function inside. -/
def Owns (collects : Bool) (xs : Sites) (name : Text) : Prop :=
  ∃ a : List Layer × Site, a ∈ xs.layered [] ∧ (∃ kind i, a.2 = .bind kind i ∧ i.name = name) ∧
    Reaches true collects a.1

/-- A node that opens a scope, with the nearest such node around it and the sites in its scope. -/
structure Opening where
  outer : Node
  kind : ScopeKind
  node : Node
  inner : Sites

def openings (outer : Node) : Sites → List Opening
  | .nil => []
  | .site _ rest => rest.openings outer
  | .hoist inner rest => inner.openings outer ++ rest.openings outer
  | .scope kind node inner rest =>
    ⟨outer, kind, node, inner⟩ :: (inner.openings node ++ rest.openings outer)

def shared (outer : Node) : Sites → List (Node × Mark)
  | .nil => []
  | .site (.share m) rest => (outer, m) :: rest.shared outer
  | .site _ rest => rest.shared outer
  | .hoist inner rest => inner.shared outer ++ rest.shared outer
  | .scope _ n inner rest => inner.shared n ++ rest.shared outer

theorem layered_eq (xs : Sites) (around : List Layer) :
    xs.layered around = (xs.layered []).map fun a => (a.1 ++ around, a.2) := by
  induction xs generalizing around with
  | nil => rfl
  | site x rest ih => rw [layered, layered, ih around, List.map_cons, List.nil_append]
  | hoist inner rest ihi ih =>
    rw [layered, layered, ihi (.hoist :: around), ihi [.hoist], ih around]
    simp
  | scope k n inner rest ihi ih =>
    rw [layered, layered, ihi (.scope k :: around), ihi [.scope k], ih around]
    simp

theorem reaches_hoist : Reaches own far (around ++ [.hoist]) ↔ Reaches far far around := by
  cases around <;> simp [Reaches]

theorem reaches_scope :
    Reaches own far (around ++ [.scope k]) ↔ k ≠ .function ∧ Reaches false far around := by
  cases around <;> simp [Reaches]; tauto

theorem mem_decls (xs : Sites) (own far : Bool) : d ∈ xs.decls own far ↔
    ∃ a : List Layer × Site, a ∈ xs.layered [] ∧ a.2.decl? = some d ∧ Reaches own far a.1 := by
  induction xs generalizing own with
  | nil => simp [decls, layered]
  | site x rest ih =>
    rw [decls, layered, List.mem_append, List.exists_mem_cons_iff, ih]
    cases own <;> simp [Reaches]
  | hoist inner rest ihi ih =>
    simp only [decls, layered, List.mem_append, or_and_right, exists_or, ihi, ih,
      inner.layered_eq [.hoist], List.mem_map, exists_exists_and_eq_and, reaches_hoist]
  | scope k n inner rest ihi ih =>
    simp only [decls, layered, List.mem_append, or_and_right, exists_or, ih,
      inner.layered_eq [.scope k], List.mem_map, exists_exists_and_eq_and, reaches_scope]
    refine or_congr_left ?_
    by_cases hk : k = .function
    · simp [hk]
    · simp [hk, ihi]

theorem owns_iff (collects : Bool) (xs : Sites) (x : Text) :
    xs.Owns collects x ↔ x ∈ (xs.decls true collects).map (·.name) := by
  simp only [Owns, List.mem_map, mem_decls]
  constructor
  · rintro ⟨⟨l, y⟩, ha, ⟨kind, i, rfl, rfl⟩, hr⟩
    exact ⟨_, ⟨(l, .bind kind i), ha, rfl, hr⟩, rfl⟩
  · rintro ⟨d, ⟨⟨l, y⟩, ha, hd, hr⟩, rfl⟩
    refine ⟨(l, y), ha, ?_, hr⟩
    cases y with
    | bind kind i =>
      cases hd
      exact ⟨kind, i, rfl, rfl⟩
    | _ => cases hd

/-- The node owns a scope of its kind, inside that of the node around it, and the scope declares the
names bound in it. -/
def Opening.Ruled (t : Table) (a : Opening) : Prop :=
  ∃ c sc, t.scopeOf? a.node.mark = some c ∧ t.scopes[c]? = some sc ∧ sc.kind = a.kind ∧
    sc.node = some a.node ∧ sc.parent = t.scopeOf? a.outer.mark ∧
    ∀ x, x ∈ sc.declared.map (·.name) ↔ a.inner.Owns (decide (a.kind = .function)) x

theorem Placed.ruled {xs : Sites} (h : xs.Placed (fun _ sc inner => Exact sc inner) t s)
    (ho : t.scopeOf? o.mark = some s) : (∀ a ∈ xs.openings o, a.Ruled t) ∧
      ∀ a ∈ xs.shared o, t.scopeOf? a.2 = t.scopeOf? a.1.mark := by
  induction xs generalizing s o with
  | nil => exact ⟨List.forall_mem_nil _, List.forall_mem_nil _⟩
  | site x rest ih =>
    obtain ⟨hrest, hshared⟩ := ih h.2 ho
    refine ⟨hrest, ?_⟩
    cases x with
    | share m => exact List.forall_mem_cons.2 ⟨h.1.trans ho.symm, hshared⟩
    | _ => exact hshared
  | hoist inner rest ihi ih =>
    simp only [openings, shared, List.forall_mem_append]
    obtain ⟨hinner, hishared⟩ := ihi h.1 ho
    obtain ⟨hrest, hshared⟩ := ih h.2 ho
    exact ⟨⟨hinner, hrest⟩, hishared, hshared⟩
  | scope k n inner rest ihi ih =>
    simp only [openings, shared, List.forall_mem_cons, List.forall_mem_append]
    obtain ⟨⟨c, sc, hopen, hexact, hin⟩, h⟩ := h
    obtain ⟨hinner, hishared⟩ := ihi hin hopen.owner
    obtain ⟨hrest, hshared⟩ := ih h ho
    refine ⟨⟨⟨c, sc, hopen.owner, hopen.scope, hopen.kind, hopen.node, hopen.parent.trans ho.symm,
      fun x => ?_⟩, hinner, hrest⟩, hishared, hshared⟩
    rw [hexact.sameNames x, owns_iff, hopen.kind]
    rfl

end Sites

namespace Program

/-- The node of the program itself. -/
def node (p : Program) : Node := ⟨.program, p.mark, []⟩

/-- The table of a program keeps to the scoping rules: its outermost scope collects all that is
hoisted, every other node that opens a scope is ruled, and the bodies of functions and catch clauses
share the scope of their owner. -/
theorem analyze_ruled (p : Program) :
    let q := p.numbered.1
    (∃ sc, q.analyze.scopeOf? q.mark = some Table.root ∧ q.analyze.scopes[Table.root]? = some sc ∧
      sc.kind = .program ∧ sc.node = some q.node ∧ sc.parent = none ∧
      ∀ x, x ∈ sc.declared.map (·.name) ↔ q.sites.Owns true x) ∧
    (∀ a ∈ q.sites.openings q.node, a.Ruled q.analyze) ∧
    ∀ a ∈ q.sites.shared q.node, q.analyze.scopeOf? a.2 = q.analyze.scopeOf? a.1.mark := by
  intro q
  have h := p.distinct_numbered.1.analysed
  obtain ⟨sc, hsc, hkind, hnode, hparent, hnames⟩ := h.root
  refine ⟨⟨sc, h.owner, hsc, hkind, hnode, hparent, fun x => ?_⟩, h.placed.ruled h.owner⟩
  rw [hnames x, Sites.owns_iff]

/-- The catch clause of a statement in a function. -/
theorem analyze_ruled_catch :
    ∃ p, parse ("function f(x) \x7b try \x7b\x7d catch (e) \x7b var y; let z; \x7d \x7d" : Text) =
        .ok p ∧
      ∃ a : Sites.Opening, a ∈ p.numbered.1.sites.openings p.numbered.1.node ∧ a.kind = .catch_ ∧
        a.outer.kind = .function ∧ a.Ruled p.numbered.1.analyze := by
  obtain ⟨p, hp, h⟩ := Text.exists_of_reads
    "function f(x) \x7b try \x7b\x7d catch (e) \x7b var y; let z; \x7d \x7d"
    (fun p => (p.numbered.1.sites.openings p.numbered.1.node).any fun a =>
      a.kind = .catch_ && a.outer.kind = .function) (by decide +kernel)
  obtain ⟨a, ha, hkinds⟩ := List.any_eq_true.1 h
  obtain ⟨hkind, houter⟩ := Bool.and_eq_true_iff.1 hkinds
  exact ⟨p, hp, a, ha, of_decide_eq_true hkind, of_decide_eq_true houter,
    (analyze_ruled p).2.1 a ha⟩

def discriminants (p : Program) : List Expr :=
  p.body.filterMap fun
    | .switch _ disc _ => some disc
    | _ => none

/-- The arrow is in the switch, and its scope stands right in that of the program. -/
theorem analyze_discriminant :
    ∃ p, parse ("switch (() => 1) \x7b\x7d" : Text) = .ok p ∧
      p.discriminants.map (fun e => e.nodes.map (·.kind)) = [[.arrowFunc, .literal]] ∧
      ∃ a : Sites.Opening, a ∈ p.numbered.1.sites.openings p.numbered.1.node ∧
        a.node.kind = .arrowFunc ∧
        ∃ c sc, p.numbered.1.analyze.scopeOf? a.node.mark = some c ∧
          p.numbered.1.analyze.scopes[c]? = some sc ∧ sc.parent = some Table.root := by
  obtain ⟨p, hp, h⟩ := Text.exists_of_reads "switch (() => 1) \x7b\x7d"
    (fun p => decide (p.discriminants.map (fun e => e.nodes.map (·.kind)) =
      [[.arrowFunc, .literal]]) && (p.numbered.1.sites.openings p.numbered.1.node).any fun a =>
        a.node.kind = .arrowFunc && a.outer = p.numbered.1.node) (by decide +kernel)
  obtain ⟨hdisc, h⟩ := Bool.and_eq_true_iff.1 h
  obtain ⟨a, ha, h⟩ := List.any_eq_true.1 h
  obtain ⟨hkind, houter⟩ := Bool.and_eq_true_iff.1 h
  have hq := p.distinct_numbered.1.analysed
  obtain ⟨c, sc, hc, hsc, -, -, hparent, -⟩ := (hq.placed.ruled hq.owner).1 a ha
  rw [of_decide_eq_true houter] at hparent
  exact ⟨p, hp, of_decide_eq_true hdisc, a, ha, of_decide_eq_true hkind, c, sc, hc, hsc,
    hparent.trans hq.owner⟩

end Program
end LabelHooks
