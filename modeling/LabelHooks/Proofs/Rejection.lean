import LabelHooks.Proofs.Erasure
import LabelHooks.Proofs.Faults
import LabelHooks.Proofs.PartNodes
import LabelHooks.Proofs.Reading

/-!
Which programs the pass refuses. It desugars a program iff every statement under a state label or
a watch label has the shape that the label asks for, and otherwise it names the first that has not.
-/

namespace LabelHooks
set_option autoImplicit true

open Pass (stop?)

/-! Numbers have no influence on the checks. -/

namespace Expr

theorem isSome_ident?_erased (e : Expr) : e.erased.ident?.isSome = e.ident?.isSome := by
  cases e <;> rfl

theorem suspends_erased (e : Expr) : e.erased.suspends = e.suspends := by
  cases e with
  | function m f =>
    cases f
    rfl
  | _ => rfl

theorem anonymous?_erased (e : Expr) : e.erased.anonymous? =
    e.anonymous?.map fun f => ((Expr.visitList Mark.erase f.1).run, f.2.erased) := by
  cases e with
  | function m f =>
    obtain ⟨fm, name, params, body, isAsync, generator⟩ := f
    cases name <;> cases generator <;> rfl
  | _ => rfl

theorem all_ident?_erased (es : List Expr) :
    ((Expr.visitList Mark.erase es).run.all fun e => e.ident?.isSome) =
      es.all fun e => e.ident?.isSome := by
  induction es with
  | nil => rfl
  | cons e es ih =>
    have hcons : (Expr.visitList Mark.erase (e :: es)).run =
        e.erased :: (Expr.visitList Mark.erase es).run := rfl
    rw [hcons, List.all_cons, List.all_cons, isSome_ident?_erased, ih]

end Expr

namespace Stmt

theorem isExpression_erased (b : Stmt) : b.erased.isExpression = b.isExpression := by
  cases b <;> rfl

theorem isAssignment_erased (b : Stmt) : b.erased.isAssignment = b.isAssignment := by
  cases b with
  | expr m x => cases x <;> rfl
  | _ => rfl

theorem isPlainAssignment_erased (b : Stmt) : b.erased.isPlainAssignment = b.isPlainAssignment := by
  cases b with
  | expr m x =>
    cases x with
    | assign m op left right => cases op <;> rfl
    | _ => rfl
  | _ => rfl

theorem assignsName_erased (b : Stmt) : b.erased.assignsName = b.assignsName := by
  cases b with
  | expr m x =>
    cases x with
    | assign m op left right => exact left.isSome_ident?_erased
    | _ => rfl
  | _ => rfl

theorem value_erased (b : Stmt) : b.erased.value = b.value.erased := by
  cases b with
  | expr m x => cases x <;> rfl
  | _ => rfl

theorem stateChecks_erased (b : Stmt) : b.erased.stateChecks = b.stateChecks := by
  simp only [stateChecks, isExpression_erased, isPlainAssignment_erased, assignsName_erased]

theorem watchChecks_erased (b : Stmt) : b.erased.watchChecks = b.watchChecks := by
  simp only [watchChecks, isExpression_erased, isAssignment_erased, isPlainAssignment_erased,
    assignsName_erased, value_erased, Expr.suspends_erased, Expr.anonymous?_erased,
    Option.isSome_map, Option.all_map, Expr.all_ident?_erased]

end Stmt

theorem Options.failing?_erased (o : Options) (label : Text) (body : Stmt) :
    o.failing? label body.erased = o.failing? label body := by
  unfold failing? checks
  split <;> simp only [Stmt.stateChecks_erased, Stmt.watchChecks_erased]

theorem Part.fault?_erased (o : Options) (x : Part) : x.erased.fault? o = x.fault? o := by
  cases x with
  | expr e => rfl
  | stmt s =>
    cases s with
    | labeled m l body =>
      exact congrArg (Option.map (l.name, ·)) (o.failing?_erased l.name body)
    | _ => rfl

structure Labeled where
  mark : Mark
  label : Ident
  body : Stmt

namespace Labeled

def node (l : Labeled) : Node := ⟨.labeledStmt, l.mark, l.label.name⟩

def Accepted (o : Options) (l : Labeled) : Prop :=
  o.classify l.label.name ≠ .unmatched → o.WellShaped l.label.name l.body

def failing? (o : Options) (l : Labeled) : Option LabelCause := o.failing? l.label.name l.body

theorem failing?_eq_none_iff {o : Options} {l : Labeled} : l.failing? o = none ↔ l.Accepted o := by
  by_cases h : o.classify l.label.name = .unmatched
  · simp [failing?, Options.failing?, Options.checks, Accepted, h]
  · rw [failing?, Options.failing?_eq_none_iff_wellShaped h]
    exact ⟨fun hw _ => hw, fun hw => hw h⟩

theorem not_accepted {o : Options} {l : Labeled} (h : l.failing? o = some c) : ¬ l.Accepted o := by
  rw [← failing?_eq_none_iff, h]
  exact Option.some_ne_none c

end Labeled

def Part.labeled? : Part → Option Labeled
  | .stmt (.labeled m l body) => some ⟨m, l, body⟩
  | _ => none

namespace Program

def labeled (p : Program) : List Labeled := p.parts.flat.filterMap Part.labeled?

theorem mem_labeled {p : Program} {l : Labeled} :
    l ∈ p.labeled ↔ .stmt (.labeled l.mark l.label l.body) ∈ p.parts.flat := by
  rw [labeled, List.mem_filterMap]
  constructor
  · rintro ⟨x, hx, hl⟩
    cases x with
    | expr e => cases hl
    | stmt s =>
      cases s <;> cases hl
      exact hx
  · exact fun hl => ⟨_, hl, rfl⟩

theorem map_node_labeled (p : Program) :
    p.labeled.map Labeled.node = p.nodes.filter Node.isLabel := by
  rw [nodes_filter_isLabel, labeled, List.map_filterMap]
  congr 1
  funext x
  cases x with
  | expr e => rfl
  | stmt s => cases s <;> rfl

theorem faults_eq (o : Options) (p : Program) : p.parts.faults o =
    p.labeled.filterMap fun l => (l.failing? o).map (l.label.name, ·) := by
  rw [labeled, List.filterMap_filterMap]
  refine congrArg (List.filterMap · _) (funext fun x => ?_)
  cases x with
  | expr e => rfl
  | stmt s => cases s <;> rfl

variable {o : Options} {p : Program}

theorem stop?_desugarWith (hp : p.parts.Visited) :
    stop? (p.desugarWith o).2 = (p.parts.faults o).head? := by
  have hfaults : p.numbered.1.parts.faults o = p.parts.faults o :=
    p.filterMap_parts_numbered (Part.fault?_erased o)
  rw [← hfaults]
  refine Eq.trans ?_ ((Stmt.readsList p.numbered.1.body Table.root).stops (visited_numbered hp)
    { table := p.numbered.1.analyze, done := {}, taken := [], nextNode := p.numbered.2, log := [] })
  unfold desugarWith
  dsimp only
  split
  · next e s hrun => rw [hrun]; rfl
  · next body s hrun => rw [hrun]; rfl

theorem stop?_desugar (hp : p.parts.Visited) (ho : o.complete = .ok o') :
    (∃ log d, p.desugar o = (log, .ok d) ∧ (p.parts.faults o').head? = none) ∨
      ∃ log e, p.desugar o = (log, .error (.label e)) ∧
        (p.parts.faults o').head? = some (e.label, e.cause) := by
  have hstop := stop?_desugarWith (o := o') hp
  rw [← hstop]
  unfold desugar
  rw [ho]
  dsimp only
  split
  · next log e hd =>
    rw [hd]
    exact .inr ⟨log, e, rfl, rfl⟩
  · next log d hd =>
    rw [hd]
    exact .inl ⟨log, d, rfl, rfl⟩

theorem head?_faults_eq_none : (p.parts.faults o).head? = none ↔ ∀ l ∈ p.labeled, l.Accepted o := by
  rw [List.head?_eq_none_iff, faults_eq, List.filterMap_eq_nil_iff]
  refine forall₂_congr fun l _ => ?_
  rw [Option.map_eq_none_iff, Labeled.failing?_eq_none_iff]

theorem head?_faults_of_first {l : Labeled} (hl : p.labeled = before ++ l :: after)
    (hbefore : ∀ l' ∈ before, l'.Accepted o) (h : l.failing? o = some c) :
    (p.parts.faults o).head? = some (l.label.name, c) := by
  have hnil : before.filterMap (fun l => (l.failing? o).map (l.label.name, ·)) = [] := by
    refine List.filterMap_eq_nil_iff.2 fun l' hl' => ?_
    rw [Labeled.failing?_eq_none_iff.2 (hbefore l' hl')]
    rfl
  rw [faults_eq, hl, List.filterMap_append, hnil, List.nil_append,
    List.filterMap_cons_some (by rw [h]; rfl), List.head?_cons]

/-- A program is desugared iff every statement under a state label or a watch label is well
shaped. Otherwise the error names the label of the first that is not, in the order of a walk, and
the first check that it fails. -/
theorem desugar_refuses_first (hp : Program.parse src = .ok p) (ho : o.complete = .ok o') :
    p.labeled.map Labeled.node = p.nodes.filter Node.isLabel ∧
    ((∃ log d, p.desugar o = (log, .ok d)) ↔ ∀ l ∈ p.labeled, l.Accepted o') ∧
    ∀ before l after, p.labeled = before ++ l :: after → (∀ l' ∈ before, l'.Accepted o') →
      ¬ l.Accepted o' → ∃ log e, p.desugar o = (log, .error (.label e)) ∧
        e.label = l.label.name ∧ l.failing? o' = some e.cause := by
  have hvisited := visited_of_parse hp
  refine ⟨map_node_labeled p, ?_, fun before l after hl hbefore hne => ?_⟩
  · rw [← head?_faults_eq_none]
    obtain ⟨log, d, hd, hnone⟩ | ⟨log, e, hd, hsome⟩ := stop?_desugar hvisited ho
    · exact ⟨fun _ => hnone, fun _ => ⟨log, d, hd⟩⟩
    · rw [hd, hsome]
      exact ⟨fun ⟨_, _, h⟩ => (nomatch h), fun h => (nomatch h)⟩
  · obtain ⟨c, hc⟩ := Option.ne_none_iff_exists'.1 (mt Labeled.failing?_eq_none_iff.1 hne)
    have hhead := head?_faults_of_first hl hbefore hc
    obtain ⟨log, d, hd, hnone⟩ | ⟨log, e, hd, hsome⟩ := stop?_desugar hvisited ho
    · cases hnone.symm.trans hhead
    · obtain ⟨hlabel, hcause⟩ := Prod.mk.inj (Option.some.inj (hsome.symm.trans hhead))
      exact ⟨log, e, hd, hlabel, hcause ▸ hc⟩

/-- Among others, inside a function under a label that is well shaped. -/
theorem desugar_refuses_first_nested :
    ∃ p o' a b c, Program.parse ("watch: n => \x7b ref: n.m = 1 \x7d; ref: 2" : Text) = .ok p ∧
      Options.empty.complete = .ok o' ∧ p.labeled = [a, b, c] ∧ ¬ c.Accepted o' ∧
      ∃ log e, p.desugar .empty = (log, .error (.label e)) ∧ e.label = b.label.name ∧
        e.cause = .stateTargetNotIdent := by
  have ho : Options.empty.complete = .ok Options.empty.withDefaults := rfl
  obtain ⟨p, hp, h⟩ := Text.exists_of_reads "watch: n => \x7b ref: n.m = 1 \x7d; ref: 2"
    (fun p => decide (p.labeled.map (Labeled.failing? Options.empty.withDefaults) =
      [none, some .stateTargetNotIdent, some .stateNotAssignment]))
    (by decide +kernel)
  obtain ⟨a, _, hall, ha, h⟩ := List.map_eq_cons_iff.1 (of_decide_eq_true h)
  obtain ⟨b, _, rfl, hb, h⟩ := List.map_eq_cons_iff.1 h
  obtain ⟨c, _, rfl, hc, h⟩ := List.map_eq_cons_iff.1 h
  obtain rfl := List.map_eq_nil_iff.1 h
  obtain ⟨log, e, hd, hlabel, hcause⟩ := (desugar_refuses_first hp ho).2.2 [a] b [c] hall
    (List.forall_mem_singleton.2 (Labeled.failing?_eq_none_iff.1 ha)) (Labeled.not_accepted hb)
  exact ⟨p, _, a, b, c, hp, ho, hall, Labeled.not_accepted hc, log, e, hd, hlabel,
    Option.some.inj (hcause.symm.trans hb)⟩

end Program
end LabelHooks
