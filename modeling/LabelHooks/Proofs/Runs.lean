import LabelHooks.Grammar.Module
import LabelHooks.Proofs.Effects
import LabelHooks.Proofs.Turning

/-!
Runs of the pass on whole programs. A run starts in the table of an analysis, and it has its
effect on the sites of the numbered program.
-/

namespace LabelHooks
set_option autoImplicit true

open Pass

namespace Program

variable {o : Options} {p : Program} {d : Desugared} {log : List LogRecord}

/-- The state in which the pass starts on a numbered program. -/
def start (q : Program × Nat) : PassState :=
  { table := q.1.analyze, done := {}, taken := [], nextNode := q.2, log := [] }

structure Run (o : Options) (p : Program) (d : Desugared) (p' : PassState) (ds : List Text) :
    Prop where
  rewrites : Rewrites o Table.root (start p.numbered) p.numbered.1.sites p.numbered.1.parts p'
    d.program.sites d.program.parts ds
  mark : d.program.mark = p.numbered.1.mark
  table : d.table = p'.table
  done : d.expansions = p'.done

theorem run_of_desugarWith (h : p.desugarWith o = (log, .ok d)) : ∃ p' ds, p.Run o d p' ds := by
  unfold desugarWith at h
  dsimp only at h
  split at h
  · cases h
  · next body p' hrun =>
    cases h
    obtain ⟨ds, hr, -⟩ := Stmt.turnsList p.numbered.1.body hrun
    exact ⟨p', ds, hr, rfl, rfl, rfl⟩

theorem eq_withDefaults (h : o.complete = .ok o') : o' = o.withDefaults := by
  unfold Options.complete at h
  dsimp only at h
  cases hv : o.withDefaults.validate with
  | error e =>
    rw [hv] at h
    cases h
  | ok u =>
    rw [hv] at h
    cases h
    rfl

theorem desugarWith_of_desugar (h : p.desugar o = (log, .ok d)) :
    o.complete = .ok o.withDefaults ∧ p.desugarWith o.withDefaults = (log, .ok d) := by
  unfold desugar at h
  split at h
  · cases h
  · next o' ho =>
    obtain rfl := eq_withDefaults ho
    split at h
    · cases h
    · next log' d' hd =>
      cases h
      exact ⟨ho, hd⟩

theorem run_of_desugar (h : p.desugar o = (log, .ok d)) :
    ∃ p' ds, p.Run o.withDefaults d p' ds :=
  run_of_desugarWith (desugarWith_of_desugar h).2

theorem ready_numbered (h : p.sites.MemberFree) :
    p.numbered.1.sites.Ready p.numbered.2 (start p.numbered) Table.root := by
  obtain ⟨hd, ⟨i, hlt, hi⟩, hnodes⟩ := p.distinct_numbered
  have ha := hd.analysed
  obtain ⟨sc, hsc, -, hnode, -, -⟩ := ha.root
  refine ⟨ha.placed, hd.sites, memberFree_numbered h, fun j hj => ?_, Nat.le_refl _, i,
    ⟨sc, _, hsc, hnode, hi⟩, fun hmem => hd.fresh i hmem hi, hlt⟩
  obtain ⟨n, hn, hj⟩ := List.mem_filterMap.1 hj
  obtain ⟨l, hl, hid⟩ := hnodes n hn
  cases hid.symm.trans hj
  exact hl

variable {p' : PassState} {ds : List Text}

theorem Run.effect (h : p.Run o d p' ds) (hp : p.sites.MemberFree) :
    Effect Table.root (start p.numbered) p.numbered.1.sites p' d.program.sites ds :=
  h.rewrites.effect (ready_numbered hp)

theorem Run.distinct (h : p.Run o d p' ds) (hp : p.sites.MemberFree) : d.program.Distinct := by
  obtain ⟨hd, ⟨i, hlt, hi⟩, -⟩ := p.distinct_numbered
  have he := h.effect hp
  refine ⟨h.mark ▸ hd.owned, fun j hj heq => ?_, he.distinct⟩
  rw [h.mark, hi] at heq
  cases heq
  exact he.not_mem_ids (fun hmem => hd.fresh i hmem hi) hlt hj

theorem Run.root (h : p.Run o d p' ds) (hp : p.sites.MemberFree) :
    d.table.scopeOf? d.program.mark = some Table.root ∧
    ∃ sc, d.table.scopes[Table.root]? = some sc ∧ sc.kind = .program ∧
      sc.node = some ⟨.program, d.program.mark, []⟩ ∧ sc.parent = none ∧
      ∀ x, x ∈ sc.declared.map (·.name) ↔ x ∈ d.program.sites.names true true := by
  obtain ⟨hd, ⟨i, hlt, hi⟩, -⟩ := p.distinct_numbered
  have ha := hd.analysed
  have he := h.effect hp
  obtain ⟨sc, hsc, hkind, hnode, hparent, hnames⟩ := ha.root
  obtain ⟨sc', hsc', hkind', hnode', hparent', hnames'⟩ := he.frame.self sc hsc
  rw [h.table, h.mark]
  refine ⟨?_, sc', hsc', hkind'.trans hkind, hnode'.trans hnode, hparent'.trans hparent,
    fun x => ?_⟩
  · rw [he.frame.owners _ fun j hj => ?_]
    · exact ha.owner
    · cases hi.symm.trans hj
      exact ⟨fun hmem => hd.fresh i hmem hi, hlt⟩
  · rw [hnames', hnames, he.names]
    simp [Sites.names]

end Program

def Text.desugars (o : Options) (src : Text) (f : Program → Desugared → Bool) : Bool :=
  match Program.parse src with
  | .error _ => false
  | .ok p =>
    match p.desugar o with
    | (_, .error _) => false
    | (_, .ok d) => f p d

theorem Text.exists_of_desugars (o : Options) (src : Text) (f : Program → Desugared → Bool)
    (h : src.desugars o f = true) :
    ∃ p log d, Program.parse src = .ok p ∧ p.desugar o = (log, .ok d) ∧ f p d = true := by
  unfold desugars at h
  split at h
  · cases h
  · next p hp =>
    split at h
    · cases h
    · next log d hd => exact ⟨p, log, d, hp, hd, h⟩

end LabelHooks
