import LabelHooks.Proofs.Rejection
import LabelHooks.Proofs.Runs

/-!
One run of the pass is enough: it leaves no label that asks for anything, and where there is none
the pass changes nothing.
-/

namespace LabelHooks
set_option autoImplicit true

open Pass

namespace Parts

variable {o : Options} {ps qs : Parts}

theorem Covers.unlabelled (h : Covers ps qs) (hu : ps.Unlabelled o) : qs.Unlabelled o := by
  intro x hx l hl
  obtain ⟨y, hy, hyx⟩ := h.roles x hx (by rw [hl]; rfl)
  exact hu y hy l (hyx.trans hl)

theorem unlabelled_skip (h : (skip ps .nil).Visited) : (skip ps .nil).Unlabelled o := by
  have hword := visited_skip.1 h
  simp only [Unlabelled, flat, List.append_nil]
  intro x hx l hl
  cases (Part.role_of_isWord (hword x hx)).symm.trans hl

theorem clear_above (hx : ∀ l, x.role = .label l → o.classify l.name = .unmatched)
    (h : ps.Visited ∧ ps.Unlabelled o) : (above x ps).Visited ∧ (above x ps).Unlabelled o :=
  ⟨visited_above.2 h.1, unlabelled_above.2 ⟨hx, h.2⟩⟩

end Parts

/-- The pass looks at everything that it returns, and of the labels it leaves only those that ask
for nothing. -/
theorem Rewrites.clears (h : Rewrites o s p xs ps p' ys qs ds) (hv : ps.Visited) :
    qs.Visited ∧ qs.Unlabelled o := by
  induction h with
  | keep | drop | add | renode | relabel | note | share | state => exact ⟨rfl, fun _ h => nomatch h⟩
  | hide => exact ⟨hv, Parts.unlabelled_skip hv⟩
  | append hx hy ihx ihy =>
    rw [Parts.visited_append] at hv
    obtain ⟨hvx, hux⟩ := ihx hv.1
    obtain ⟨hvy, huy⟩ := ihy hv.2
    exact ⟨Parts.visited_append.2 ⟨hvx, hvy⟩, Parts.unlabelled_append.2 ⟨hux, huy⟩⟩
  | hoist _ ih | scope _ ih | stray _ _ ih | call _ _ _ ih | memo _ _ _ _ ih => exact ih hv
  | part hx hk _ ih =>
    refine Parts.clear_above (fun l hl => ?_) (ih (Parts.visited_above.1 hv))
    rw [← hx, hl] at hk
    exact hk
  | recast hp hq _ ih =>
    obtain ⟨hvisited, hun⟩ := ih (hp.visited hv)
    exact ⟨hq.visited hvisited, hq.unlabelled hun⟩
  | watch _ _ _ _ hf ih =>
    rw [Parts.visited_above, Parts.visited_append] at hv
    exact Parts.clear_above (fun l hl => nomatch hf.symm.trans hl) (ih hv.2)
  | miss _ _ hy _ ih =>
    exact Parts.clear_above (fun l hl => nomatch hy.symm.trans hl) (ih (Parts.visited_above.1 hv))
  | callback _ _ _ _ _ _ hp _ ha ih =>
    exact Parts.clear_above (fun l hl => nomatch ha.symm.trans hl) (ih (hp.visited hv))

namespace Part

def labelName? (x : Part) : Option Text := x.labelNode?.map (·.name)

theorem labelName?_erased (x : Part) : x.erased.labelName? = x.labelName? := by
  cases x with
  | expr e => rfl
  | stmt s => cases s <;> rfl

theorem role_expr_ne_label (e : Expr) (l : Ident) : (Part.expr e).role ≠ .label l := by
  have htarget : ∀ target, Role.ofTarget target ≠ .label l := by
    intro target
    unfold Role.ofTarget
    split <;> exact Role.noConfusion
  cases e with
  | assign | update => exact htarget _
  | arrow m isAsync params body =>
    unfold role
    dsimp only
    split <;> exact Role.noConfusion
  | _ => exact Role.noConfusion

theorem labelName?_eq_some {x : Part} :
    x.labelName? = some t ↔ ∃ l, x.role = .label l ∧ l.name = t := by
  cases x with
  | expr e => exact ⟨(nomatch ·), fun ⟨l, hl, _⟩ => absurd hl (role_expr_ne_label e l)⟩
  | stmt s =>
    cases s with
    | labeled m l body => simp [labelName?, labelNode?, role]
    | _ => simp [labelName?, labelNode?, role]

end Part

theorem Parts.unlabelled_iff {ps : Parts} : ps.Unlabelled o ↔
    ∀ t ∈ ps.flat.filterMap Part.labelName?, o.classify t = .unmatched := by
  constructor
  · intro h t ht
    obtain ⟨x, hx, hxt⟩ := List.mem_filterMap.1 ht
    obtain ⟨l, hl, rfl⟩ := Part.labelName?_eq_some.1 hxt
    exact h x hx l hl
  · intro h x hx l hl
    exact h l.name (List.mem_filterMap.2 ⟨x, hx, Part.labelName?_eq_some.2 ⟨l, hl, rfl⟩⟩)

namespace Program

variable {o : Options} {p : Program}

theorem unlabelled_numbered (h : p.parts.Unlabelled o) : p.numbered.1.parts.Unlabelled o := by
  rw [Parts.unlabelled_iff, p.filterMap_parts_numbered Part.labelName?_erased]
  exact Parts.unlabelled_iff.1 h

theorem desugarWith_unlabelled (h : p.parts.Unlabelled o) :
    ∃ log, p.desugarWith o = (log, .ok ⟨p.numbered.1, p.numbered.1.analyze, {}⟩) := by
  have hrun := (Stmt.readsList p.numbered.1.body Table.root).idle (unlabelled_numbered h)
    (start p.numbered) rfl
  unfold desugarWith
  dsimp only
  split
  · next e s hfail => cases hrun.symm.trans hfail
  · next body s hok =>
    cases hrun.symm.trans hok
    exact ⟨_, rfl⟩

theorem desugar_unlabelled (ho : o.complete = .ok o') (h : p.parts.Unlabelled o') :
    ∃ log, p.desugar o = (log, .ok ⟨p.numbered.1, p.numbered.1.analyze, {}⟩) := by
  obtain ⟨log, hd⟩ := desugarWith_unlabelled h
  unfold desugar
  rw [ho]
  dsimp only
  rw [hd]
  exact ⟨log, rfl⟩

theorem unmatched_of_unlabelled (h : p.parts.Unlabelled o) :
    ∀ n ∈ p.nodes, n.kind = .labeledStmt → o.classify n.name = .unmatched := by
  intro n hn hk
  have hmem : n ∈ p.nodes.filter Node.isLabel := List.mem_filter.2 ⟨hn, decide_eq_true hk⟩
  rw [nodes_filter_isLabel] at hmem
  obtain ⟨x, hx, hxn⟩ := List.mem_filterMap.1 hmem
  refine Parts.unlabelled_iff.1 h n.name (List.mem_filterMap.2 ⟨x, hx, ?_⟩)
  rw [Part.labelName?, hxn]
  rfl

/-- No label that asks for anything is left in a desugared program, and desugaring it once more
changes nothing. -/
theorem desugar_reaches_fixed_point (hp : Program.parse src = .ok p)
    (hd : p.desugar o = (log, .ok d)) :
    (∀ n ∈ d.program.nodes, n.kind = .labeledStmt → o.withDefaults.classify n.name = .unmatched) ∧
    ∃ log' d', d.program.desugar o = (log', .ok d') ∧ d'.program.erased = d.program.erased ∧
      d'.expansions = {} := by
  obtain ⟨p', ds, hrun⟩ := run_of_desugar hd
  obtain ⟨-, hun⟩ := hrun.rewrites.clears (visited_numbered (visited_of_parse hp))
  obtain ⟨log', hd'⟩ := desugar_unlabelled (desugarWith_of_desugar hd).1 hun
  exact ⟨unmatched_of_unlabelled hun, log', _, hd', erased_numbered _, rfl⟩

/-- With labels inside a watcher, also in a default value that moves into a callback. -/
theorem desugar_reaches_fixed_point_nested :
    ∃ p log d log' d', Program.parse
        ("watch: n => \x7b ref: n = 0; n = (f = () => \x7b watch: k = n => n \x7d) => f \x7d" :
          Text) = .ok p ∧
      p.desugar .empty = (log, .ok d) ∧ d.expansions.total = 4 ∧
      (∀ n ∈ d.program.nodes, n.kind = .labeledStmt →
        Options.empty.withDefaults.classify n.name = .unmatched) ∧
      d.program.desugar .empty = (log', .ok d') ∧ d'.program.erased = d.program.erased ∧
      d'.expansions = {} := by
  obtain ⟨p, log, d, hp, hd, htotal⟩ := Text.exists_of_desugars .empty
    "watch: n => \x7b ref: n = 0; n = (f = () => \x7b watch: k = n => n \x7d) => f \x7d"
    (fun _ d => decide (d.expansions.total = 4)) (by decide +kernel)
  obtain ⟨hlabels, log', d', hd', hprogram, hnone⟩ := desugar_reaches_fixed_point hp hd
  exact ⟨p, log, d, log', d', hp, hd, of_decide_eq_true htotal, hlabels, hd', hprogram, hnone⟩

end Program
end LabelHooks
