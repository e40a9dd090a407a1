import LabelHooks.Proofs.Runs

/-!
The table that the pass keeps up to date agrees with an analysis of the program it returns.
-/

namespace LabelHooks
set_option autoImplicit true

namespace Table

variable {t u : Table} {ns : List Node}

def Corresponds (t u : Table) (ns : List Node) (s f : ScopeId) : Prop :=
  ∃ n ∈ ns, t.scopeOf? n.mark = some s ∧ u.scopeOf? n.mark = some f

/-- Two tables agree on a list of nodes: the same nodes own scopes, nodes that share a scope in
one table share it in the other, and the scopes of a node are alike. They have the same kind,
corresponding parents and the same names, perhaps of other kinds. -/
structure Agrees (t u : Table) (ns : List Node) : Prop where
  owned : ∀ n ∈ ns, (t.scopeOf? n.mark).isSome = (u.scopeOf? n.mark).isSome
  shared : ∀ s f s' f', Corresponds t u ns s f → Corresponds t u ns s' f' → (s = s' ↔ f = f')
  scopes : ∀ s f, Corresponds t u ns s f → ∃ sc fc,
    t.scopes[s]? = some sc ∧ u.scopes[f]? = some fc ∧ sc.kind = fc.kind ∧
    Option.Rel (Corresponds t u ns) sc.parent fc.parent ∧
    ∀ x, (sc.own? x).isSome = (fc.own? x).isSome

def Matches (t u : Table) (ns : List Node) (s f : ScopeId) : Prop :=
  ∃ sc fc n, t.scopes[s]? = some sc ∧ u.scopes[f]? = some fc ∧ sc.node = some n ∧
    fc.node = some n ∧ n ∈ ns ∧ t.scopeOf? n.mark = some s ∧ u.scopeOf? n.mark = some f ∧
    sc.kind = fc.kind ∧ Option.Rel (Corresponds t u ns) sc.parent fc.parent ∧
    ∀ x, x ∈ sc.declared.map (·.name) ↔ x ∈ fc.declared.map (·.name)

theorem Matches.corresponds (h : Matches t u ns s f) : Corresponds t u ns s f := by
  obtain ⟨sc, fc, n, -, -, -, -, hn, hs, hf, -⟩ := h
  exact ⟨n, hn, hs, hf⟩

theorem Matches.eq_iff (h : Matches t u ns s f) (h' : Matches t u ns s' f') : s = s' ↔ f = f' := by
  obtain ⟨sc, fc, n, hsc, hfc, hn, hm, -, hs, hf, -⟩ := h
  obtain ⟨sc', fc', n', hsc', hfc', hn', hm', -, hs', hf', -⟩ := h'
  constructor
  · rintro rfl
    cases hsc.symm.trans hsc'
    cases hn.symm.trans hn'
    exact Option.some.inj (hf.symm.trans hf')
  · rintro rfl
    cases hfc.symm.trans hfc'
    cases hm.symm.trans hm'
    exact Option.some.inj (hs.symm.trans hs')

theorem Agrees.of_matches
    (h : ∀ n ∈ ns, (t.scopeOf? n.mark = none ∧ u.scopeOf? n.mark = none) ∨
      ∃ c d, t.scopeOf? n.mark = some c ∧ u.scopeOf? n.mark = some d ∧ Matches t u ns c d) :
    t.Agrees u ns := by
  have hmatch : ∀ {s f}, Corresponds t u ns s f → Matches t u ns s f := by
    rintro s f ⟨n, hn, hs, hf⟩
    obtain ⟨hnone, -⟩ | ⟨c, d, hc, hd, hcd⟩ := h n hn
    · cases hnone.symm.trans hs
    · cases hc.symm.trans hs
      cases hd.symm.trans hf
      exact hcd
  refine ⟨fun n hn => ?_, fun s f s' f' hc hc' => (hmatch hc).eq_iff (hmatch hc'), fun s f hc => ?_⟩
  · obtain ⟨hs, hf⟩ | ⟨c, d, hs, hf, -⟩ := h n hn <;> simp [hs, hf]
  · obtain ⟨sc, fc, n, hsc, hfc, -, -, -, -, -, hkind, hparent, hnames⟩ := hmatch hc
    refine ⟨sc, fc, hsc, hfc, hkind, hparent, fun x => Bool.eq_iff_iff.2 ?_⟩
    rw [Scope.isSome_own?, Scope.isSome_own?, hnames]

end Table

theorem Sites.Placed.matches {t u : Table} {ns : List Node} {xs : Sites}
    (hl : xs.Placed (fun _ sc inner => SameNames sc inner) t s)
    (hf : xs.Placed (fun _ sc inner => Exact sc inner) u f) (hsub : ∀ n ∈ xs.nodes, n ∈ ns)
    (hm : t.Matches u ns s f) :
    ∀ n ∈ xs.nodes, (t.scopeOf? n.mark = none ∧ u.scopeOf? n.mark = none) ∨
      ∃ c d, t.scopeOf? n.mark = some c ∧ u.scopeOf? n.mark = some d ∧ t.Matches u ns c d := by
  induction xs generalizing s f with
  | nil => exact fun _ hn => nomatch hn
  | site x rest ih =>
    simp only [nodes, List.forall_mem_append] at hsub ⊢
    refine ⟨?_, ih hl.2 hf.2 hsub.2 hm⟩
    cases x with
    | share m => exact List.forall_mem_singleton.2 (.inr ⟨s, f, hl.1, hf.1, hm⟩)
    | node | use | bind | label | call | stray =>
      exact fun n hn => .inl ⟨hl.1 n hn, hf.1 n hn⟩
  | hoist inner rest ihi ih =>
    simp only [nodes, List.forall_mem_append] at hsub ⊢
    exact ⟨ihi hl.1 hf.1 hsub.1 hm, ih hl.2 hf.2 hsub.2 hm⟩
  | scope k n inner rest ihi ih =>
    simp only [nodes, List.forall_mem_cons, List.forall_mem_append] at hsub ⊢
    obtain ⟨⟨c, sc, hopen, hsame, hin⟩, hrest⟩ := hl
    obtain ⟨⟨d, dc, hopen', hexact, hin'⟩, hrest'⟩ := hf
    have hmatch : t.Matches u ns c d := by
      refine ⟨sc, dc, n, hopen.scope, hopen'.scope, hopen.node, hopen'.node, hsub.1, hopen.owner,
        hopen'.owner, hopen.kind.trans hopen'.kind.symm, ?_, fun x => ?_⟩
      · rw [hopen.parent, hopen'.parent]
        exact .some hm.corresponds
      · rw [hsame x, hexact.sameNames x, hopen.kind, hopen'.kind]
    exact ⟨.inr ⟨c, d, hopen.owner, hopen'.owner, hmatch⟩, ihi hin hin' hsub.2.1 hmatch,
      ih hrest hrest' hsub.2.2 hm⟩

/-- Where no binding pattern binds a member, the table that the pass keeps up to date agrees with
an analysis of the program that it returns. -/
theorem Program.desugar_agrees {o : Options} {p : Program} {d : Desugared} {log : List LogRecord}
    (hp : p.sites.MemberFree) (h : p.desugar o = (log, .ok d)) :
    d.table.Agrees d.program.analyze d.program.nodes := by
  obtain ⟨p', ds, hrun⟩ := run_of_desugar h
  obtain ⟨howner, sc, hsc, hkind, hnode, hparent, hnames⟩ := hrun.root hp
  have hfresh := (hrun.distinct hp).analysed
  obtain ⟨fc, hfc, hkind', hnode', hparent', hnames'⟩ := hfresh.root
  have hmem : ∀ n, n ∈ d.program.nodes ↔ n = ⟨.program, d.program.mark, []⟩ ∨
      n ∈ d.program.sites.nodes := fun n => by
    rw [d.program.nodes_perm.mem_iff, List.mem_cons]
  have hroot : d.table.Matches d.program.analyze d.program.nodes Table.root Table.root := by
    refine ⟨sc, fc, _, hsc, hfc, hnode, hnode', (hmem _).2 (.inl rfl), howner, hfresh.owner,
      hkind.trans hkind'.symm, ?_, fun x => ?_⟩
    · rw [hparent, hparent']
      exact .none
    · rw [hnames, hnames', Sites.names]
  have hplaced := (hrun.effect hp).placed
  rw [← hrun.table] at hplaced
  have hsites := hplaced.matches hfresh.placed (fun n hn => (hmem n).2 (.inr hn)) hroot
  refine .of_matches fun n hn => ?_
  obtain rfl | hn := (hmem n).1 hn
  · exact .inr ⟨_, _, howner, hfresh.owner, hroot⟩
  · exact hsites n hn

/-- Among others, a function in a wrapped mutation that holds another mutation. -/
theorem Program.desugar_agrees_nested :
    ∃ p log d, Program.parse
        ("ref: n = 0; ref: o = 1; o.g = x => \x7b let y = x; n += y \x7d; watch: t = n => () => n" :
          Text) = .ok p ∧
      p.sites.MemberFree ∧ p.desugar .empty = (log, .ok d) ∧ d.expansions.total = 5 ∧
      d.table.Agrees d.program.analyze d.program.nodes := by
  obtain ⟨p, log, d, hp, hd, h⟩ := Text.exists_of_desugars .empty
    "ref: n = 0; ref: o = 1; o.g = x => \x7b let y = x; n += y \x7d; watch: t = n => () => n"
    (fun p d => decide (p.sites.MemberFree ∧ d.expansions.total = 5))
    (by decide +kernel)
  obtain ⟨hfree, htotal⟩ := of_decide_eq_true h
  exact ⟨p, log, d, hp, hfree, hd, htotal, desugar_agrees hfree hd⟩

end LabelHooks
