import LabelHooks.Proofs.Parts
import LabelHooks.Proofs.SiteNodes

/-!
The labelled statements and the literals among the parts of a tree are those that a walk meets, in
its order.
-/

namespace LabelHooks
set_option autoImplicit true

open Outline (walkList)
open List

def Part.labelNode? : Part → Option Node
  | .stmt (.labeled m l _) => some ⟨.labeledStmt, m, l.name⟩
  | _ => none

def Node.isLabel (n : Node) : Bool := n.kind = .labeledStmt

def Part.literals : Part → List Literal
  | .expr (.literal l) | .stmt (.imports _ _ l) | .stmt (.exportAll _ _ l) => [l]
  | .stmt (.exportNames _ _ l) => l.toList
  | _ => []

def Node.isLiteral (n : Node) : Bool := n.kind = .literal

/-- The labelled statement or the literals of a part, as nodes. -/
def Part.named (x : Part) : List Node := x.labelNode?.toList ++ x.literals.map .ofLiteral

def Node.isNamed (n : Node) : Bool := n.isLabel || n.isLiteral

namespace Parts

def Labelling (ps : Parts) (os : List Outline) : Prop :=
  ps.flat.flatMap Part.named = (walkList (fun _ => true) os).filter Node.isNamed

@[simp] theorem walkList_ofIdent (is : List Ident) :
    (walkList (fun _ => true) (is.map Outline.ofIdent)).filter Node.isNamed = [] := by
  induction is with
  | nil => rfl
  | cons i is ih => exact ih

@[simp] theorem walkList_ofLiteral (ls : List Literal) :
    (walkList (fun _ => true) (ls.map Outline.ofLiteral)).filter Node.isNamed =
      ls.map .ofLiteral := by
  induction ls with
  | nil => rfl
  | cons l ls ih => exact congrArg (Node.ofLiteral l :: ·) ih

@[simp] theorem walkList_imports (specs : List ImportSpec) :
    (walkList (fun _ => true) (specs.flatMap (·.outline))).filter Node.isNamed = [] := by
  induction specs with
  | nil => rfl
  | cons s specs ih => cases s <;> exact ih

@[simp] theorem walkList_exports (specs : List ExportSpec) :
    (walkList (fun _ => true) (specs.flatMap (·.outline))).filter Node.isNamed = [] := by
  induction specs with
  | nil => rfl
  | cons s specs ih => exact ih

end Parts

open Parts in
-- By induction over the tree; the statements about its parts are in the order of the principle.
theorem Stmt.labelling (ss : List Stmt) :
    Labelling (Stmt.partsList ss) (Stmt.outlineList ss) := by
  apply Stmt.outlineList.induct (fun e => ∀ seen, Labelling (e.parts seen) e.outline)
    (fun b => Labelling b.parts b.outline) (fun b => Labelling b.parts b.outline)
    (fun ss => Labelling (Stmt.partsList ss) (Stmt.outlineList ss))
    (fun s => Labelling s.parts s.outline)
    (fun cs => Labelling (Case.partsList cs) (Case.outlineList cs))
    (fun e => ∀ seen, Labelling (Expr.parts? seen e) (Expr.outline? e))
    (fun b => Labelling (Block.parts? b) (Block.outline? b))
    (fun c => Labelling (Catch.parts? c) (Catch.outline? c))
    (fun h => ∀ seen, Labelling (h.parts seen) h.outline) (fun d => Labelling d.parts d.outline)
    (fun ds => Labelling (Declarator.partsList ds) (Declarator.outlineList ds))
    (fun h => Labelling (ForHead.parts? h) (ForHead.outline? h))
    (fun s => Labelling (Stmt.parts? s) (Stmt.outline? s)) (fun f => Labelling f.parts f.outline)
    (fun es => ∀ seen, Labelling (Expr.partsList seen es) (Expr.outlineList es))
  all_goals
    simp only [Labelling]
    intros
    simp [Expr.parts, Expr.parts?, Expr.partsList, Body.parts, Func.parts, Block.parts,
      Block.parts?, Declarator.partsList, VarDecl.parts, ForHead.parts, ForHead.parts?,
      Catch.parts?, Case.partsList, Stmt.parts, Stmt.parts?, Stmt.partsList, Expr.outline,
      Expr.outline?, Expr.outlineList, Body.outline, Func.outline, Block.outline, Block.outline?,
      Declarator.outlineList, VarDecl.outline, ForHead.outline, ForHead.outline?, Catch.outline?,
      Case.outlineList, Stmt.outline, Stmt.outline?, Stmt.outlineList, Part.named,
      Part.labelNode?, Part.literals, Node.isNamed, Node.isLabel, Node.isLiteral, Outline.leaf,
      Outline.walk, walkList, Outline.ofIdent, Outline.ofLiteral, Node.ofIdent, Node.ofLiteral, *]

theorem Program.nodes_filter_isNamed (p : Program) :
    p.nodes.filter Node.isNamed = p.parts.flat.flatMap Part.named := by
  have h : Parts.Labelling p.parts (Stmt.outlineList p.body) := Stmt.labelling p.body
  rw [h]
  rfl

theorem Program.nodes_filter_isLabel (p : Program) :
    p.nodes.filter Node.isLabel = p.parts.flat.filterMap Part.labelNode? := by
  have hlabels : ∀ x : Part, x.named.filter Node.isLabel = x.labelNode?.toList := by
    intro x
    have hliterals : (x.literals.map Node.ofLiteral).filter Node.isLabel = [] := by
      simp [Node.isLabel, Node.ofLiteral]
    rw [Part.named, filter_append, hliterals, append_nil]
    unfold Part.labelNode?
    split <;> rfl
  have hnamed : p.nodes.filter Node.isLabel =
      (p.nodes.filter Node.isNamed).filter Node.isLabel := by
    rw [filter_filter]
    apply filter_congr
    intro n _
    cases h : n.isLabel <;> simp [Node.isNamed, h]
  rw [hnamed, p.nodes_filter_isNamed, filter_flatMap, filterMap_eq_flatMap_toList]
  exact flatMap_congr fun x _ => hlabels x

theorem Program.nodes_filter_isLiteral (p : Program) :
    p.nodes.filter Node.isLiteral = (p.parts.flat.flatMap Part.literals).map .ofLiteral := by
  have hliterals : ∀ x : Part, x.named.filter Node.isLiteral = x.literals.map .ofLiteral := by
    intro x
    have hlabel : x.labelNode?.toList.filter Node.isLiteral = [] := by
      unfold Part.labelNode?
      split <;> rfl
    rw [Part.named, filter_append, hlabel, nil_append]
    simp [filter_eq_self, Node.isLiteral, Node.ofLiteral]
  have hnamed : p.nodes.filter Node.isLiteral =
      (p.nodes.filter Node.isNamed).filter Node.isLiteral := by
    rw [filter_filter]
    apply filter_congr
    intro n _
    cases h : n.isLiteral <;> simp [Node.isNamed, h]
  rw [hnamed, p.nodes_filter_isNamed, filter_flatMap, map_flatMap]
  exact flatMap_congr fun x _ => hliterals x

end LabelHooks
