import LabelHooks.Proofs.Parts
import LabelHooks.Syntax.Numbering
import Mathlib.Logic.Basic

/-!
Trees without their numbers. Numbering changes nothing else, and the parts of a tree are the same
with and without numbers.
-/

namespace LabelHooks
set_option autoImplicit true

open Program (nextNumber)
open List

def Mark.erased (k : Mark) : Mark := { k with id := none }

namespace Mark

def erase (k : Mark) : Id Mark := k.erased

end Mark

def Expr.erased (e : Expr) : Expr := (e.visit Mark.erase).run

def Body.erased (b : Body) : Body := (b.visit Mark.erase).run

def Func.erased (f : Func) : Func := (f.visit Mark.erase).run

def Block.erased (b : Block) : Block := (b.visit Mark.erase).run

def VarDecl.erased (d : VarDecl) : VarDecl := (d.visit Mark.erase).run

def ForHead.erased (h : ForHead) : ForHead := (h.visit Mark.erase).run

def Stmt.erased (s : Stmt) : Stmt := (s.visit Mark.erase).run

def Program.erased (p : Program) : Program := (p.visit Mark.erase).run

attribute [local simp] Expr.visit Expr.visit? Expr.visitList Body.visit Func.visit Block.visit
  Block.visit? Declarator.visitList VarDecl.visit ForHead.visit ForHead.visit? Catch.visit?
  Case.visitList Stmt.visit Stmt.visit? Stmt.visitList

/-- Numbers do not show when they are erased. -/
abbrev Forgets (visit : ∀ {m : Type → Type} [Monad m], (Mark → m Mark) → α → m α) (a : α) : Prop :=
  ∀ n, (visit Mark.erase ((visit nextNumber a).run n).run.1).run = (visit Mark.erase a).run

namespace Forgets

theorem ident (i : Ident) : Forgets Ident.visit i := fun _ => rfl

theorem literal (l : Literal) : Forgets Literal.visit l := fun _ => rfl

theorem ident? (i : Option Ident) : Forgets visitIdent? i := by
  cases i <;> exact fun _ => rfl

theorem literal? (l : Option Literal) : Forgets visitLiteral? l := by
  cases l <;> exact fun _ => rfl

theorem importSpec (s : ImportSpec) : Forgets ImportSpec.visit s := by
  cases s <;> exact fun _ => rfl

theorem exportSpec (s : ExportSpec) : Forgets ExportSpec.visit s := fun _ => rfl

theorem mapM {visit : ∀ {m : Type → Type} [Monad m], (Mark → m Mark) → α → m α}
    (h : ∀ a, Forgets visit a) (as : List α) (n : Nat) :
    ((as.mapM (visit nextNumber)).run n).run.1.map (fun a => (visit Mark.erase a).run) =
      as.map fun a => (visit Mark.erase a).run := by
  induction as generalizing n with
  | nil => rfl
  | cons a as ih => simp [h a, ih]

end Forgets

-- By induction over the tree; the statements about its parts are in the order of the principle.
theorem Stmt.forgets (ss : List Stmt) : Forgets Stmt.visitList ss := by
  apply Stmt.outlineList.induct (Forgets Expr.visit) (Forgets Body.visit) (Forgets Block.visit)
    (Forgets Stmt.visitList) (Forgets Stmt.visit) (Forgets Case.visitList) (Forgets Expr.visit?)
    (Forgets Block.visit?) (Forgets Catch.visit?) (Forgets ForHead.visit) (Forgets VarDecl.visit)
    (Forgets Declarator.visitList) (Forgets ForHead.visit?) (Forgets Stmt.visit?)
    (Forgets Func.visit) (Forgets Expr.visitList)
  all_goals
    intros
    intro n
    simp [Mark.erase, nextNumber, Mark.erased, Forgets.ident, Forgets.ident?, Forgets.literal,
      Forgets.literal?, Forgets.mapM Forgets.importSpec, Forgets.mapM Forgets.exportSpec, *]

theorem Program.erased_numbered (p : Program) : p.numbered.1.erased = p.erased :=
  congrArg (fun body => ({ p with mark := p.mark.erased, body } : Program))
    (Stmt.forgets p.body 1)

namespace Part

def erased : Part → Part
  | .expr e => .expr e.erased
  | .stmt s => .stmt s.erased

end Part

namespace Parts

def erased : Parts → Parts
  | .nil => .nil
  | .part x inner rest => .part x.erased inner.erased rest.erased
  | .skip inner rest => .skip inner.erased rest.erased

@[simp] theorem erased_append (ps qs : Parts) : (ps ++ qs).erased = ps.erased ++ qs.erased := by
  induction ps with
  | nil => rfl
  | part x inner rest _ ih => simp only [part_append, erased, ih]
  | skip inner rest _ ih => simp only [skip_append, erased, ih]

@[simp] theorem flat_erased (ps : Parts) : ps.erased.flat = ps.flat.map Part.erased := by
  induction ps with
  | nil => rfl
  | part x inner rest ihi ihr =>
    simp only [erased, flat, ihi, ihr, map_cons, map_append]
  | skip inner rest ihi ihr => simp only [erased, flat, ihi, ihr, map_append]

@[simp] theorem erased_nil : nil.erased = nil := rfl

@[simp] theorem erased_above (x : Part) (ps : Parts) :
    (above x ps).erased = above x.erased ps.erased := rfl

@[simp] theorem erased_when (seen : Bool) (ps : Parts) :
    (when seen ps).erased = when seen ps.erased := by
  cases seen <;> rfl

/-- The parts of what is erased are the erased parts. -/
abbrev Erases (parts : α → Parts) (visit : (Mark → Id Mark) → α → Id α) (a : α) : Prop :=
  parts (visit Mark.erase a).run = (parts a).erased

end Parts

theorem Expr.isReference_erased (e : Expr) :
    (e.visit Mark.erase).run.isReference = e.isReference := by
  cases e <;> rfl

open Parts in
-- Again by induction over the tree.
theorem Stmt.erases (ss : List Stmt) : Erases Stmt.partsList Stmt.visitList ss := by
  apply Stmt.outlineList.induct (fun e => ∀ seen, Erases (Expr.parts seen) Expr.visit e)
    (Erases Body.parts Body.visit) (Erases Block.parts Block.visit)
    (Erases Stmt.partsList Stmt.visitList) (Erases Stmt.parts Stmt.visit)
    (Erases Case.partsList Case.visitList)
    (fun e => ∀ seen, Erases (Expr.parts? seen) Expr.visit? e)
    (Erases Block.parts? Block.visit?) (Erases Catch.parts? Catch.visit?)
    (fun h => ∀ seen, Erases (ForHead.parts seen) ForHead.visit h)
    (Erases VarDecl.parts VarDecl.visit) (Erases Declarator.partsList Declarator.visitList)
    (Erases ForHead.parts? ForHead.visit?) (Erases Stmt.parts? Stmt.visit?)
    (Erases Func.parts Func.visit)
    (fun es => ∀ seen, Erases (Expr.partsList seen) Expr.visitList es)
  all_goals
    intros
    simp [Erases, Expr.parts, Expr.parts?, Expr.partsList, Body.parts, Func.parts, Block.parts,
      Block.parts?, Declarator.partsList, VarDecl.parts, ForHead.parts, ForHead.parts?,
      Catch.parts?, Case.partsList, Stmt.parts, Stmt.parts?, Stmt.partsList, Part.erased,
      Expr.erased, Stmt.erased, Expr.isReference_erased, *]

namespace Program

theorem parts_erased (p : Program) : p.erased.parts = p.parts.erased :=
  Stmt.erases p.body

theorem parts_numbered_erased (p : Program) : p.numbered.1.parts.erased = p.parts.erased := by
  rw [← parts_erased, ← parts_erased, erased_numbered]

theorem filterMap_parts_numbered {α : Type} {f : Part → Option α} (hf : ∀ x, f x.erased = f x)
    (p : Program) : p.numbered.1.parts.flat.filterMap f = p.parts.flat.filterMap f := by
  have hcomp : f ∘ Part.erased = f := funext hf
  have hmap (ps : Parts) : ps.erased.flat.filterMap f = ps.flat.filterMap f := by
    rw [Parts.flat_erased, filterMap_map, hcomp]
  rw [← hmap, parts_numbered_erased, hmap]

end Program

namespace Part

theorem isWord_erased (x : Part) : x.erased.isWord = x.isWord := by
  cases x with
  | expr e => cases e <;> rfl
  | stmt s => rfl

end Part

namespace Parts

theorem skipped_erased (ps : Parts) : ps.erased.skipped = ps.skipped.map Part.erased := by
  induction ps with
  | nil => rfl
  | part x inner rest ihi ihr => simp only [erased, skipped, ihi, ihr, map_append]
  | skip inner rest _ ihr =>
    have hword : (fun x : Part => !x.isWord) ∘ Part.erased = fun x => !x.isWord := by
      funext x
      simp [Part.isWord_erased]
    simp only [erased, skipped, ihr, flat_erased, filter_map, map_append, hword]

@[simp] theorem visited_erased {ps : Parts} : ps.erased.Visited ↔ ps.Visited := by
  simp only [Visited, skipped_erased, map_eq_nil_iff]

end Parts

theorem Program.visited_numbered {p : Program} (h : p.parts.Visited) :
    p.numbered.1.parts.Visited := by
  rw [← Parts.visited_erased, parts_numbered_erased]
  exact Parts.visited_erased.2 h

end LabelHooks
