import LabelHooks.Proofs.Tables
import LabelHooks.Reactive.Pass
import Mathlib.Tactic.Common

/-!
Outcomes of the pass: what a step that succeeds returns, and in which state it leaves the pass.
-/

namespace LabelHooks
set_option autoImplicit true

structure PassState.Same (p p' : PassState) : Prop where
  table : p'.table = p.table
  bindings : p'.done.bindings = p.done.bindings
  taken : p'.taken = p.taken
  nextNode : p'.nextNode = p.nextNode

namespace Pass

variable {α β : Type} {p p' : PassState}

def Yields (x : Pass α) (p : PassState) (a : α) (p' : PassState) : Prop :=
  x.run.run p = (.ok a, p')

@[simp] theorem yields_pure : Yields (pure a) p b p' ↔ a = b ∧ p = p' := by
  constructor
  · intro h
    cases h
    exact ⟨rfl, rfl⟩
  · rintro ⟨rfl, rfl⟩
    rfl

@[simp] theorem yields_bind :
    Yields (x >>= f) p b p' ↔ ∃ a p₁, Yields x p a p₁ ∧ Yields (f a) p₁ b p' := by
  unfold Yields
  rw [ExceptT.run_bind, StateT.run_bind]
  cases hx : StateT.run (ExceptT.run x) p with
  | mk r p₁ =>
    cases r with
    | ok a =>
      constructor
      · exact fun h => ⟨a, p₁, rfl, h⟩
      · rintro ⟨_, _, ⟨rfl, rfl⟩, h⟩
        exact h
    | error e =>
      constructor
      · intro h
        cases h
      · rintro ⟨_, _, h, -⟩
        cases h

@[simp] theorem not_yields_reject : ¬ Yields (reject pos label cause) p a p' := by
  intro h
  cases h

@[simp] theorem yields_newMark : Yields (newMark span) p m p' ↔
      m = ⟨span, [], some p.nextNode⟩ ∧ p' = { p with nextNode := p.nextNode + 1 } := by
  constructor
  · intro h
    cases h
    exact ⟨rfl, rfl⟩
  · rintro ⟨rfl, rfl⟩
    rfl

@[simp] theorem yields_scopeOf :
    Yields (scopeOf m s) p c p' ↔ c = (p.table.scopeOf? m).getD s ∧ p' = p := by
  constructor
  · intro h
    cases h
    exact ⟨rfl, rfl⟩
  · rintro ⟨rfl, rfl⟩
    rfl

@[simp] theorem yields_reactive? :
    Yields (reactive? name s) p b p' ↔ b = p.done.bindings.reactive? p.table name s ∧ p' = p := by
  constructor
  · intro h
    cases h
    exact ⟨rfl, rfl⟩
  · rintro ⟨rfl, rfl⟩
    rfl

theorem yields_finishUpdate (h : Yields (finishUpdate c body) p e p') :
    e = c.call (.expr body) ∧ p.Same p' := by
  cases h
  exact ⟨rfl, rfl, rfl, rfl, rfl⟩

theorem yields_finishState (h : Yields (finishState o m am target b init) p st p') :
    st = .varDecl (.const (.arrayPattern (.ofSpan target.mark.span)
        [.ident b.ident, .ofName b.modifier.name target.mark.span])
      (.callOf (factory o.stateFactory m.span) [init] am.span) m) ∧ p.Same p' := by
  cases h
  exact ⟨rfl, rfl, rfl, rfl, rfl⟩

theorem yields_finishEffect {o : Options} {m em : Mark} {deps : List Expr}
    (h : Yields (finishEffect o m em wrapper deps span) p st p') :
    st = .expr m (.callOf (factory o.effectFactory m.span) [wrapper, .array (.ofSpan span) deps]
    em.span) ∧ p.Same p' := by
  cases h
  exact ⟨rfl, rfl, rfl, rfl, rfl⟩

theorem yields_finishMember (h : Yields (finishMember c mutation) p e p') :
    (c = none ∧ e = mutation ∧ p = p') ∨ ∃ cb block, c = some (cb, block) ∧ p.Same p' ∧
      e = cb.call (.block (.mk block [.expr (.ofSpan block.span) mutation])) := by
  cases c with
  | none =>
    cases h
    exact .inl ⟨rfl, rfl, rfl⟩
  | some c =>
    cases h
    exact .inr ⟨c.1, c.2, rfl, ⟨rfl, rfl, rfl, rfl⟩, rfl⟩

theorem yields_finishMemo (h : Yields (finishMemo o m am target wrapper deps span s) p st p') :
    st = .varDecl (.const (.ident (.ofName target.name target.mark.span))
      (.callOf (factory o.memoFactory m.span) [wrapper, .array (.ofSpan span) deps] am.span) m) ∧
    PassState.Same { p with
      table := p.table.declare s target.name .const (some (.ofName target.name target.mark.span)) }
      p' := by
  cases h
  exact ⟨rfl, rfl, rfl, rfl, rfl⟩

theorem yields_declareState {target : Ident} {s : ScopeId} {span : Span} {b : Reactive}
    (h : Yields (declareState target s span) p b p') :
    ∃ name, name = Modifier.fresh p.taken p.table s target.name ∧
      b = ⟨.ofName target.name target.mark.span, .ofName name span, s⟩ ∧
      p' = { p with
        taken := p.taken ++ [name]
        done := { p.done with bindings := p.done.bindings ++ [b] }
        table := (p.table.declare s name .generated (some b.modifier)).declare s target.name
          .reactive (some b.ident) } := by
  cases h
  exact ⟨_, rfl, rfl, rfl⟩

end Pass

namespace Table

/-- The table in which the scopes of `parts` have moved from `s` into a new function there. -/
def wrapped (t : Table) (m : Mark) (param : Ident) (parts : List Outline) (s : ScopeId) : Table :=
  (((t.child s .function (some ⟨.arrowFunc, m, []⟩)).2.declare t.scopes.length param.name .param
    (some param)).bind m t.scopes.length).reparent parts s t.scopes.length

def watched (t : Table) (old m : Mark) (i : ScopeId) : Table :=
  (t.rebind old ⟨.arrowFunc, m, []⟩).2.removeKind i .param

end Table

namespace PassState

def newMark (p : PassState) (span : Span) : Mark := ⟨span, [], some p.nextNode⟩

def marked (p : PassState) (t : Table) : PassState :=
  { p with nextNode := p.nextNode + 1, table := t }

end PassState

namespace Pass

variable {p p' : PassState}

theorem yields_openCallback (h : Yields (openCallback b param e s span) p c p') :
    c = ⟨b, p.newMark span, param, p.table.scopes.length⟩ ∧
      p' = p.marked (p.table.wrapped (p.newMark span) param e.outline s) := by
  cases h
  exact ⟨rfl, rfl⟩

theorem yields_memberCallback? (h : Yields (memberCallback? o mutation x s) p r p') :
    (r = none ∧ p' = p) ∨
    ∃ (base : Ident) (b : Reactive) (c : Callback) (p₁ : PassState), x.rootIdent? = some base ∧
      p.done.bindings.reactive? p.table base.name s = some b ∧
      Yields (openCallback b (.ofName base.name base.mark.span) mutation s mutation.span) p c p₁ ∧
      r = some (c, p₁.newMark mutation.span) ∧
      p' = p₁.marked (p₁.table.bind (p₁.newMark mutation.span) c.scope) := by
  unfold memberCallback? at h
  split at h
  · cases h
    exact .inl ⟨rfl, rfl⟩
  · split at h
    · cases h
      exact .inl ⟨rfl, rfl⟩
    · next base hbase =>
      obtain ⟨b, p₁, hb, h⟩ := yields_bind.1 h
      obtain ⟨rfl, rfl⟩ := yields_reactive?.1 hb
      split at h
      · cases h
        exact .inl ⟨rfl, rfl⟩
      · next b hb =>
        obtain ⟨c, p₂, hc, h⟩ := yields_bind.1 h
        cases h
        exact .inr ⟨base, b, c, p₂, hbase, hb, hc, rfl, rfl⟩

theorem yields_openWatcher (hc : p.table.scopeOf? old = some c)
    (h : Yields (openWatcher old span s) p (m, i) p') :
    m = p.newMark span ∧ i = c ∧ p' = p.marked (p.table.watched old m c) := by
  have hr : (p.table.rebind old ⟨.arrowFunc, p.newMark span, []⟩).1 = some c :=
    (Table.rebind_of_owned hc).1
  unfold openWatcher at h
  obtain ⟨mark, p₁, hm, h⟩ := yields_bind.1 h
  obtain ⟨rfl, rfl⟩ := yields_newMark.1 hm
  obtain ⟨p₂, p₃, hg, h⟩ := yields_bind.1 h
  cases hg
  dsimp only at h
  split at h
  · next hnone => cases hr.symm.trans hnone
  · next j hj =>
    cases hr.symm.trans hj
    cases h
    exact ⟨rfl, rfl, rfl⟩

theorem done_openWatcher (h : Yields (openWatcher old span s) p r p') : p'.done = p.done := by
  unfold openWatcher at h
  obtain ⟨mark, p₁, hm, h⟩ := yields_bind.1 h
  obtain ⟨rfl, rfl⟩ := yields_newMark.1 hm
  obtain ⟨p₂, p₃, hg, h⟩ := yields_bind.1 h
  cases hg
  dsimp only at h
  split at h
  · cases h
    rfl
  · cases h
    rfl

theorem yields_stateTarget (h : Yields (stateTarget label am op left) p target p') :
    op = .set ∧ left = .ident target ∧ p' = p := by
  unfold stateTarget at h
  split at h
  · exact absurd h not_yields_reject
  · next hop =>
    split at h
    · cases h
      exact ⟨not_not.1 hop, rfl, rfl⟩
    · exact absurd h not_yields_reject

theorem yields_memoTarget (h : Yields (memoTarget label am op left right) p target p') :
    op = .set ∧ left = .ident target ∧ right.anonymous? ≠ none ∧ p' = p := by
  unfold memoTarget at h
  split at h
  · exact absurd h not_yields_reject
  · next hop =>
    split at h
    · exact absurd h not_yields_reject
    · split at h
      · exact absurd h not_yields_reject
      · next hanon =>
        split at h
        · cases h
          exact ⟨not_not.1 hop, rfl, by simpa using hanon, rfl⟩
        · exact absurd h not_yields_reject

theorem yields_checkEffect (h : Yields (checkEffect label x) p u p') :
    x.anonymous? ≠ none ∧ p' = p := by
  unfold checkEffect at h
  split at h
  · exact absurd h not_yields_reject
  · next hx =>
    cases h
    simp only [Bool.or_eq_true, Option.isNone_iff_eq_none, not_or] at hx
    exact ⟨hx.1, rfl⟩

theorem yields_dependencies (h : Yields (dependencies label ps) p deps p') :
    p' = p ∧ ∃ is : List Ident, ps = is.map .ident ∧
      deps = is.map fun i => .ofName i.name i.mark.span := by
  induction ps generalizing deps with
  | nil =>
    cases h
    exact ⟨rfl, [], rfl, rfl⟩
  | cons e ps ih =>
    cases e with
    | ident i =>
      obtain ⟨deps', p₁, hdeps, hret⟩ := yields_bind.1 h
      obtain ⟨rfl, rfl⟩ := yields_pure.1 hret
      obtain ⟨rfl, is, rfl, rfl⟩ := ih hdeps
      exact ⟨rfl, i :: is, rfl, rfl⟩
    | _ => exact absurd h not_yields_reject

end Pass
end LabelHooks
