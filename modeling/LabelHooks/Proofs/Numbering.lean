import LabelHooks.Proofs.Erasure
import LabelHooks.Proofs.SiteNodes

/-!
Numbering gives every node a number of its own and changes no name.
-/

namespace LabelHooks
set_option autoImplicit true

open Program (nextNumber)
open List

namespace Outline

def size (os : List Outline) : Nat := (walkList (fun _ => true) os).length

def ids (os : List Outline) : List (Option Nat) :=
  (walkList (fun _ => true) os).map (·.mark.id)

@[simp] theorem size_nil : size [] = 0 := rfl

@[simp] theorem size_append (os os' : List Outline) : size (os ++ os') = size os + size os' := by
  simp [size]

@[simp] theorem size_above (n : Node) (os : List Outline) : size (above n os) = 1 + size os := by
  simp [size, Nat.add_comm]

@[simp] theorem size_leaf (n : Node) (os : List Outline) : size (leaf n :: os) = 1 + size os :=
  size_append [leaf n] os

@[simp] theorem ids_nil : ids [] = [] := rfl

@[simp] theorem ids_append (os os' : List Outline) : ids (os ++ os') = ids os ++ ids os' := by
  simp [ids]

@[simp] theorem ids_above (n : Node) (os : List Outline) :
    ids (above n os) = n.mark.id :: ids os := by
  simp [ids]

@[simp] theorem ids_leaf (n : Node) (os : List Outline) :
    ids (leaf n :: os) = n.mark.id :: ids os := rfl

end Outline

open Outline

/-- The nodes of a tree get the numbers from `n` on in the order of a walk. -/
abbrev Counts (outline : α → List Outline) (visit : (Mark → StateM Nat Mark) → α → StateM Nat α)
    (a : α) : Prop :=
  ∀ n, ((visit nextNumber a).run n).run.2 = n + size (outline a) ∧
    ids (outline ((visit nextNumber a).run n).run.1) = (range' n (size (outline a))).map some

namespace Counts

theorem ident? (i : Option Ident) : Counts (·.toList.map ofIdent) visitIdent? i := by
  cases i <;> exact fun _ => ⟨rfl, rfl⟩

theorem literal? (l : Option Literal) : Counts (·.toList.map ofLiteral) visitLiteral? l := by
  cases l <;> exact fun _ => ⟨rfl, rfl⟩

theorem importSpec (s : ImportSpec) : Counts ImportSpec.outline ImportSpec.visit s := by
  cases s <;> exact fun _ => ⟨rfl, rfl⟩

theorem exportSpec (s : ExportSpec) : Counts ExportSpec.outline ExportSpec.visit s :=
  fun _ => ⟨rfl, rfl⟩

theorem mapM {visit : (Mark → StateM Nat Mark) → α → StateM Nat α} {outline : α → List Outline}
    (h : ∀ a, Counts outline visit a) (as : List α) :
    Counts (·.flatMap outline) (fun f => List.mapM (visit f)) as := by
  induction as with
  | nil => exact fun _ => ⟨rfl, rfl⟩
  | cons a as ih =>
    intro n
    simp [h a _, ih _, ← range'_append_1, Nat.add_assoc]

end Counts

attribute [local simp] Expr.visit Expr.visit? Expr.visitList Body.visit Func.visit Block.visit
  Block.visit? Declarator.visitList VarDecl.visit ForHead.visit ForHead.visit? Catch.visit?
  Case.visitList Stmt.visit Stmt.visit? Stmt.visitList

attribute [local simp] Expr.outline Expr.outline? Expr.outlineList Body.outline Func.outline
  Block.outline Block.outline? Declarator.outlineList VarDecl.outline ForHead.outline
  ForHead.outline? Catch.outline? Case.outlineList Stmt.outline Stmt.outline? Stmt.outlineList

-- By induction over the tree, like the erasing of numbers.
theorem Stmt.counts (ss : List Stmt) : Counts Stmt.outlineList Stmt.visitList ss := by
  apply Stmt.outlineList.induct (Counts Expr.outline Expr.visit) (Counts Body.outline Body.visit)
    (Counts Block.outline Block.visit) (Counts Stmt.outlineList Stmt.visitList)
    (Counts Stmt.outline Stmt.visit) (Counts Case.outlineList Case.visitList)
    (Counts Expr.outline? Expr.visit?) (Counts Block.outline? Block.visit?)
    (Counts Catch.outline? Catch.visit?) (Counts ForHead.outline ForHead.visit)
    (Counts VarDecl.outline VarDecl.visit) (Counts Declarator.outlineList Declarator.visitList)
    (Counts ForHead.outline? ForHead.visit?) (Counts Stmt.outline? Stmt.visit?)
    (Counts Func.outline Func.visit) (Counts Expr.outlineList Expr.visitList)
  all_goals
    intros
    intro n
    simp_all [nextNumber, ← range'_append_1, Nat.add_assoc, -Nat.reduceAdd, Ident.visit,
      Literal.visit, ofIdent, ofLiteral, Node.ofIdent, Node.ofLiteral, Counts.ident?,
      Counts.literal?, Counts.mapM Counts.importSpec, Counts.mapM Counts.exportSpec]

/-- What numbering could change about a site: the name it mentions, and whether it is a member
where a pattern should stand. -/
def Site.look? : Site → Option (Option (NameRole × Text))
  | .stray (.member _ _ _ _ _) => some none
  | x => x.mention?.map some

namespace Sites

def look (xs : Sites) : List (Option (NameRole × Text)) := xs.flat.filterMap Site.look?

theorem mentions_eq_look (xs : Sites) : xs.mentions = xs.look.filterMap id := by
  rw [mentions, look, filterMap_filterMap]
  refine filterMap_congr fun x _ => ?_
  unfold Site.look?
  split
  · rfl
  · cases x.mention? <;> rfl

theorem memberFree_iff_look (xs : Sites) : xs.MemberFree ↔ none ∉ xs.look := by
  have hsite (x : Site) : x.isMember = false ↔ x.look? ≠ some none := by
    unfold Site.isMember Site.look?
    split <;> simp_all [Site.mention?]
  simp [MemberFree, look, hsite]

@[simp] theorem look_nil : Sites.nil.look = [] := rfl

@[simp] theorem look_append (xs ys : Sites) : (xs ++ ys).look = xs.look ++ ys.look := by
  simp [look]

@[simp] theorem look_site (x : Site) (xs : Sites) :
    (site x xs).look = x.look?.toList ++ xs.look := by
  cases h : x.look? <;> simp [look, flat, h]

@[simp] theorem look_scope (k : ScopeKind) (n : Node) (xs ys : Sites) :
    (scope k n xs ys).look = xs.look ++ ys.look := by
  simp [look, flat]

@[simp] theorem look_hoist (xs ys : Sites) : (hoist xs ys).look = xs.look ++ ys.look := by
  simp [look, flat]

@[simp] theorem look_ofDecl (k : DeclKind) (xs : Sites) : (ofDecl k xs).look = xs.look := by
  cases k <;> simp [ofDecl]

@[simp] theorem look_ofNodes (ns : List Node) : (ofNodes ns).look = [] := by
  simp [look, ofNodes, filterMap_eq_nil_iff, Site.look?, Site.mention?]

@[simp] theorem look_ofCall (c : Expr) (as : List Expr) : (ofCall c as).look = [] := by
  unfold ofCall
  split <;> rfl

/-- Erased numbers do not show. -/
abbrev Stays (sites : α → Sites) (visit : (Mark → Id Mark) → α → Id α) (a : α) : Prop :=
  (sites (visit Mark.erase a).run).look = (sites a).look

@[simp] theorem look_ite (c : Prop) [Decidable c] (xs ys : Sites) :
    (if c then xs else ys).look = if c then xs.look else ys.look := apply_ite look c xs ys

@[simp] theorem look_ofIdent? (f : Ident → Site) (i : Option Ident) :
    (ofIdent? f i).look = (i.map fun i => (f i).look?.toList).getD [] := by
  cases i <;> simp [ofIdent?, ofList]

theorem look_ofImports (specs : List ImportSpec) :
    (ofImports (specs.map fun s => (s.visit Mark.erase).run)).look = (ofImports specs).look := by
  induction specs with
  | nil => rfl
  | cons spec specs ih => cases spec <;> exact congrArg (List.cons _) ih

theorem look_ofExports (used : Bool) (specs : List ExportSpec) :
    (ofExports used (specs.map fun s => (s.visit Mark.erase).run)).look =
      (ofExports used specs).look := by
  induction specs with
  | nil => rfl
  | cons spec specs ih =>
    cases used with
    | false => exact ih
    | true => exact congrArg (List.cons _) ih

end Sites

theorem visitIdent?_erase (i : Option Ident) :
    (visitIdent? Mark.erase i).run = i.map fun i => { i with mark := i.mark.erased } := by
  cases i <;> rfl

theorem Func.name?_erase (f : Func) :
    (f.visit Mark.erase).run.name? = (visitIdent? Mark.erase f.name?).run := by
  cases f
  rfl

theorem isNone_visitLiteral? (l : Option Literal) :
    (visitLiteral? Mark.erase l).run.isNone = l.isNone := by
  cases l <;> rfl

attribute [local simp] Ident.visit Mark.erase

attribute [local simp] Expr.sites Expr.sites? Expr.sitesList Expr.binding Expr.binding?
  Expr.bindingList Func.sites Block.sharing Body.sites Declarator.sitesList VarDecl.sites
  ForHead.sites ForHead.sites? Case.sitesList Block.sites Block.sites? Catch.sites? Stmt.sites
  Stmt.sites? Stmt.sitesList Site.look? Site.mention?

open Sites in
-- By induction over the tree; the statements about its parts are in the order of the principle.
theorem Stmt.stays (ss : List Stmt) : Stays Stmt.sitesList Stmt.visitList ss := by
  apply Stmt.outlineList.induct
    (fun e => Stays Expr.sites Expr.visit e ∧ ∀ k, Stays (Expr.binding k) Expr.visit e)
    (Stays Body.sites Body.visit)
    (fun b => Stays Block.sites Block.visit b ∧ Stays Block.sharing Block.visit b)
    (Stays Stmt.sitesList Stmt.visitList) (Stays Stmt.sites Stmt.visit)
    (Stays Case.sitesList Case.visitList)
    (fun e => Stays Expr.sites? Expr.visit? e ∧ ∀ k, Stays (Expr.binding? k) Expr.visit? e)
    (Stays Block.sites? Block.visit?) (Stays Catch.sites? Catch.visit?)
    (Stays ForHead.sites ForHead.visit) (Stays VarDecl.sites VarDecl.visit)
    (fun ds => ∀ k, Stays (Declarator.sitesList k) Declarator.visitList ds)
    (Stays ForHead.sites? ForHead.visit?) (Stays Stmt.sites? Stmt.visit?)
    (fun f => ∀ b, Stays (Func.sites b) Func.visit f)
    (fun es => Stays Expr.sitesList Expr.visitList es ∧
      ∀ k, Stays (Expr.bindingList k) Expr.visitList es)
  all_goals
    intros
    simp_all [Stays, visitIdent?_erase, Func.name?_erase, isNone_visitLiteral?, look_ofImports,
      look_ofExports, Function.comp_def]

namespace Program

theorem numbered_ids (p : Program) :
    (p.numbered.1.nodes.map (·.mark.id)) = (range p.numbered.2).map some := by
  obtain ⟨hnext, hids⟩ := Stmt.counts p.body 1
  have hnext : p.numbered.2 = 1 + Outline.size (Stmt.outlineList p.body) := hnext
  rw [hnext, range_eq_range', ← range'_append_1]
  exact congrArg (List.cons (some 0)) hids

theorem look_numbered (p : Program) : p.numbered.1.sites.look = p.sites.look := by
  have herased (q : Program) : q.erased.sites.look = q.sites.look := Stmt.stays q.body
  rw [← herased, erased_numbered, herased]

theorem mentions_numbered (p : Program) : p.numbered.1.sites.mentions = p.sites.mentions := by
  rw [Sites.mentions_eq_look, look_numbered, ← Sites.mentions_eq_look]

theorem memberFree_numbered {p : Program} (h : p.sites.MemberFree) :
    p.numbered.1.sites.MemberFree := by
  rw [Sites.memberFree_iff_look] at h ⊢
  rwa [look_numbered]

end Program

end LabelHooks
