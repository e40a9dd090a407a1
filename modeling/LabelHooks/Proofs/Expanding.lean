import LabelHooks.Proofs.Slots
import LabelHooks.Proofs.Rewriting

/-!
What the pass makes of the parts of a program, and how it counts what it makes: which parts it
leaves as they are, which calls it makes of mutations, and which statements it makes of labels.
-/

namespace LabelHooks
set_option autoImplicit true

open Pass
open Parts (above)

inductive Face where
  | name (x : Text)
  /-- An arrow function, with a block or with an expression as its body. -/
  | arrow (block : Bool)
  | other
deriving DecidableEq, Repr

def Body.isBlock : Body → Bool
  | .block _ => true
  | .expr _ => false

def Expr.face : Expr → Face
  | .ident i => .name i.name
  | .arrow _ _ _ body => .arrow body.isBlock
  | _ => .other

namespace Part

def call? : Part → Option (Face × List Face)
  | .expr (.call _ c as _) => some (c.face, as.map Expr.face)
  | _ => none

def label? : Part → Option Ident
  | .stmt (.labeled _ l _) => some l
  | _ => none

end Part

namespace Pass

/-- The names of parameters, as a list of dependencies has them. -/
def names (is : List Ident) : List Expr := is.map fun i => .ofName i.name i.mark.span

def stateDecl (o : Options) (m am : Mark) (target : Ident) (b : Reactive) (init : Expr) : Stmt :=
  .varDecl (.const (.arrayPattern (.ofSpan target.mark.span)
    [.ident b.ident, .ofName b.modifier.name target.mark.span])
    (.callOf (factory o.stateFactory m.span) [init] am.span) m)

def watchCall (path : Text) (m k : Mark) (body : Body) (is : List Ident) (span callSpan : Span) :
    Expr :=
  .callOf (factory path m.span) [.arrow k false [] body, .array (.ofSpan span) (names is)] callSpan

end Pass

/-- `Expands o r ps r' qs`: the pass makes `qs` of the parts `ps`, and its account of what it made
goes from `r` to `r'`. -/
inductive Expands (o : Options) : Expansions → Parts → Expansions → Parts → Prop
  | nil : Expands o r .nil r .nil
  /-- Parts that the pass does not look at. -/
  | skip : Expands o r (.skip ps .nil) r (.skip ps .nil)
  | append (hx : Expands o r ps r₁ qs) (hy : Expands o r₁ ps' r₂ qs') :
    Expands o r (ps ++ ps') r₂ (qs ++ qs')
  | part (hc : y.call? = x.call?) (hl : ∀ l, x.label? = some l → o.classify l.name = .unmatched)
    (hh : marksOf Stmt.const? y.held = marksOf (Stmt.constant? o) x.held)
    (h : Expands o r ps r' qs) :
    Expands o r (above x ps) r' (above y qs)
  /-- An assignment to a state. -/
  | assign {right right' : Expr} {c : Callback} (hb : c.binding ∈ r.bindings)
    (hq : c.param.name = c.binding.name)
    (h : Expands o r (right.parts true) r' (right'.parts true)) :
    Expands o r ((Expr.assign m op (.ident i) right).parts true)
      { r' with mutations := r'.mutations + 1 }
      ((c.call (.expr (updated m op i right'))).parts true)
  /-- An increment or decrement of a state. -/
  | step {c : Callback} (hb : c.binding ∈ r.bindings) (hq : c.param.name = c.binding.name) :
    Expands o r ((Expr.update m op before (.ident i)).parts true)
      { r with mutations := r.mutations + 1 } ((c.call (.expr (stepped m op i))).parts true)
  /-- A mutation of a property of a state. -/
  | wrap {e e' : Expr} {c : Callback} (hb : c.binding ∈ r.bindings)
    (hq : c.param.name = c.binding.name) (h : Expands o r (e.parts true) r' (e'.parts true)) :
    Expands o r (e.parts true) { r' with wrapped := r'.wrapped + 1 }
      ((c.call (.block (.mk k [.expr km e']))).parts true)
  | state {right right' : Expr} (hl : o.classify l.name = .state) (hf : right'.face = right.face)
    (h : Expands o { r with bindings := r.bindings ++ [b] } (right.parts true) r'
      (right'.parts true)) :
    Expands o r (Stmt.labeled m l (.expr xm (.assign am .set (.ident target) right))).parts r'
      (stateDecl o m am target b right').parts
  | effect {x : Expr} {body body' : Body} (hl : o.classify l.name = .watch)
    (hx : x.anonymous? = some (is.map .ident, body))
    (hh : marksOf Stmt.const? body'.held = marksOf (Stmt.constant? o) body.held)
    (h : Expands o r body.parts r' body'.parts) :
    Expands o r (Stmt.labeled m l (.expr xm x)).parts { r' with effects := r'.effects + 1 }
      (Stmt.expr m (watchCall o.effectFactory m k body' is x.span xm.span)).parts
  | memo {x : Expr} {body body' : Body} (hl : o.classify l.name = .watch)
    (hx : x.anonymous? = some (is.map .ident, body))
    (hh : marksOf Stmt.const? body'.held = marksOf (Stmt.constant? o) body.held)
    (h : Expands o r body.parts r' body'.parts) :
    Expands o r (Stmt.labeled m l (.expr xm (.assign am .set (.ident target) x))).parts
      { r' with memos := r'.memos + 1 }
      (Stmt.varDecl (.const (.ident (.ofName target.name target.mark.span))
        (watchCall o.memoFactory m k body' is x.span am.span) m)).parts

namespace Expands

variable {o : Options} {r r' : Expansions} {ps qs : Parts}

theorem node (hc : y.call? = x.call?) (hl : x.label? = none)
    (hh : marksOf Stmt.const? y.held = marksOf (Stmt.constant? o) x.held)
    (h : Expands o r ps r' qs) :
    Expands o r (above x ps) r' (above y qs) :=
  part hc (fun l hx => by rw [hl] at hx; cases hx) hh h

end Expands

namespace Pass

variable {p p' : PassState}

theorem done_finishUpdate (h : Yields (finishUpdate c body) p e p') :
    e = c.call (.expr body) ∧ p'.done = { p.done with mutations := p.done.mutations + 1 } := by
  cases h
  exact ⟨rfl, rfl⟩

theorem done_finishMember (h : Yields (finishMember c mutation) p e p') :
    (c = none ∧ e = mutation ∧ p = p') ∨ ∃ cb block, c = some (cb, block) ∧
      e = cb.call (.block (.mk block [.expr (.ofSpan block.span) mutation])) ∧
      p'.done = { p.done with wrapped := p.done.wrapped + 1 } := by
  cases c with
  | none =>
    cases h
    exact .inl ⟨rfl, rfl, rfl⟩
  | some c =>
    cases h
    exact .inr ⟨c.1, c.2, rfl, rfl, rfl⟩

theorem done_finishState (h : Yields (finishState o m am target b init) p st p') :
    st = stateDecl o m am target b init ∧ p'.done = p.done := by
  cases h
  exact ⟨rfl, rfl⟩

theorem done_finishEffect {o : Options} {m em k : Mark} {is : List Ident}
    (h : Yields (finishEffect o m em (.arrow k false [] body) (names is) span) p st p') :
    st = .expr m (watchCall o.effectFactory m k body is span em.span) ∧
      p'.done = { p.done with effects := p.done.effects + 1 } := by
  cases h
  exact ⟨rfl, rfl⟩

theorem done_finishMemo
    (h : Yields (finishMemo o m am target (.arrow k false [] body) (names is) span s) p st p') :
    st = .varDecl (.const (.ident (.ofName target.name target.mark.span))
      (watchCall o.memoFactory m k body is span am.span) m) ∧
      p'.done = { p.done with memos := p.done.memos + 1 } := by
  cases h
  exact ⟨rfl, rfl⟩

theorem done_declareState (h : Yields (declareState target s span) p b p') :
    p'.done = { p.done with bindings := p.done.bindings ++ [b] } := by
  obtain ⟨name, -, -, rfl⟩ := yields_declareState h
  rfl

theorem done_memberCallback? (h : Yields (memberCallback? o mutation x s) p r p') :
    p'.done = p.done ∧ ∀ c k, r = some (c, k) →
      c.binding ∈ p.done.bindings ∧ c.param.name = c.binding.name := by
  obtain ⟨rfl, rfl⟩ | ⟨base, b, c, p₁, -, hb, hc, rfl, rfl⟩ := yields_memberCallback? h
  · exact ⟨rfl, fun _ _ h => by cases h⟩
  · obtain ⟨hmem, hname, -⟩ := Registry.of_reactive? hb
    obtain ⟨rfl, rfl⟩ := yields_openCallback hc
    refine ⟨rfl, fun c k h => ?_⟩
    cases h
    exact ⟨hmem, hname.symm⟩

end Pass

namespace Pass

variable {o : Options} {s : ScopeId} {p p' : PassState}

/-- A statement stays a declaration of constants with its mark, or becomes one if it is a label
that asks for one. -/
theorem const?_stmt (h : Yields (stmt o s st) p st' p') : st'.const? = st.constant? o := by
  cases st with
  | labeled m l body =>
    cases hl : o.classify l.name with
    | unmatched =>
      simp only [stmt, hl] at h
      obtain ⟨body', -, rfl⟩ := yields_return h
      have hnone (b : Stmt) : (Stmt.labeled m l b).introduces o = false := by
        unfold Stmt.introduces
        split
        · next heq =>
          cases heq
          simp [hl]
        · rfl
      simp [Stmt.const?, Stmt.constant?, hnone, Stmt.isConst]
    | state =>
      simp only [stmt, hl] at h
      cases body with
      | expr xm x =>
        cases x with
        | assign am op left right =>
          obtain ⟨target, _, -, h⟩ := yields_bind.1 h
          obtain ⟨b, _, -, h⟩ := yields_bind.1 h
          obtain ⟨right', _, -, h⟩ := yields_bind.1 h
          obtain ⟨rfl, -⟩ := done_finishState h
          simp [Stmt.const?, Stmt.constant?, Stmt.introduces, hl, Stmt.isConst, stateDecl,
            VarDecl.const, Stmt.mark, VarDecl.mark]
        | _ => exact absurd h not_yields_reject
      | _ => exact absurd h not_yields_reject
    | watch =>
      simp only [stmt, hl] at h
      cases body with
      | expr xm x =>
        cases x with
        | assign am op left right =>
          obtain ⟨target, _, -, h⟩ := yields_bind.1 h
          obtain ⟨⟨w, deps⟩, _, -, h⟩ := yields_bind.1 h
          obtain ⟨rfl, -⟩ := yields_finishMemo h
          simp [Stmt.const?, Stmt.constant?, Stmt.introduces, hl, Stmt.isConst, VarDecl.const,
            Stmt.mark, VarDecl.mark]
        | _ =>
          obtain ⟨_, _, -, h⟩ := yields_bind.1 h
          obtain ⟨⟨w, deps⟩, _, -, h⟩ := yields_bind.1 h
          obtain ⟨rfl, -⟩ := yields_finishEffect h
          rfl
      | _ => exact absurd h not_yields_reject
  | varDecl d =>
    obtain ⟨m, kind, ds⟩ := d
    obtain ⟨d', hd, rfl⟩ := yields_return h
    obtain ⟨ds', -, rfl⟩ := yields_return hd
    cases kind <;> rfl
  | funcDecl | expr | block | ret | throw | exportDecl | exportValue =>
    obtain ⟨_, -, rfl⟩ := yields_return h
    rfl
  | whileLoop | doWhile =>
    obtain ⟨_, _, -, h⟩ := yields_bind.1 h
    obtain ⟨_, -, rfl⟩ := yields_return h
    rfl
  | ifElse | tryCatch | switch =>
    obtain ⟨_, _, -, h⟩ := yields_bind.1 h
    obtain ⟨_, _, -, h⟩ := yields_bind.1 h
    obtain ⟨_, -, rfl⟩ := yields_return h
    rfl
  | forIn =>
    obtain ⟨_, _, -, h⟩ := yields_bind.1 h
    obtain ⟨_, _, -, h⟩ := yields_bind.1 h
    obtain ⟨_, _, -, h⟩ := yields_bind.1 h
    obtain ⟨_, -, rfl⟩ := yields_return h
    rfl
  | forLoop =>
    obtain ⟨_, _, -, h⟩ := yields_bind.1 h
    obtain ⟨_, _, -, h⟩ := yields_bind.1 h
    obtain ⟨_, _, -, h⟩ := yields_bind.1 h
    obtain ⟨_, _, -, h⟩ := yields_bind.1 h
    obtain ⟨_, -, rfl⟩ := yields_return h
    rfl
  | branch | empty | debugger | imports | exportAll | exportNames =>
    obtain ⟨rfl, -⟩ := yields_pure.1 h
    rfl

theorem marksOf_alone (k : Slot) (h : Yields (stmt o s st) p st' p') :
    marksOf Stmt.const? [(k, st')] = marksOf (Stmt.constant? o) [(k, st)] :=
  marksOf_cons_congr (const?_stmt h) rfl

theorem marksOf_alone? (k : Slot) (h : Yields (stmt? o s st) p st' p') :
    marksOf Stmt.const? (st'.toList.map (k, ·)) =
      marksOf (Stmt.constant? o) (st.toList.map (k, ·)) := by
  cases st with
  | none =>
    obtain ⟨rfl, -⟩ := yields_pure.1 h
    rfl
  | some st =>
    obtain ⟨st', hst, rfl⟩ := yields_return h
    exact marksOf_alone k hst

theorem marksOf_listed (h : Yields (stmts o s sts) p sts' p') :
    marksOf Stmt.const? (Stmt.listed sts') = marksOf (Stmt.constant? o) (Stmt.listed sts) := by
  induction sts generalizing sts' p with
  | nil =>
    obtain ⟨rfl, -⟩ := yields_pure.1 h
    rfl
  | cons st sts ih =>
    obtain ⟨st', _, hst, h⟩ := yields_bind.1 h
    obtain ⟨sts', hsts, rfl⟩ := yields_return h
    exact marksOf_cons_congr (const?_stmt hst) (ih hsts)

theorem marksOf_sharing (h : Yields (sharing o s b) p b' p') :
    marksOf Stmt.const? b'.held = marksOf (Stmt.constant? o) b.held := by
  cases b
  obtain ⟨list', hlist, rfl⟩ := yields_return h
  exact marksOf_listed hlist

theorem marksOf_block (h : Yields (block o s b) p b' p') :
    marksOf Stmt.const? b'.held = marksOf (Stmt.constant? o) b.held := by
  cases b
  obtain ⟨_, _, -, h⟩ := yields_bind.1 h
  obtain ⟨list', hlist, rfl⟩ := yields_return h
  exact marksOf_listed hlist

theorem marksOf_block? (h : Yields (block? o s b) p b' p') :
    marksOf Stmt.const? (Block.held? b') = marksOf (Stmt.constant? o) (Block.held? b) := by
  cases b with
  | none =>
    obtain ⟨rfl, -⟩ := yields_pure.1 h
    rfl
  | some b =>
    obtain ⟨b', hb, rfl⟩ := yields_return h
    exact marksOf_block hb

theorem marksOf_arrowBody (h : Yields (arrowBody o s b) p b' p') :
    marksOf Stmt.const? b'.held = marksOf (Stmt.constant? o) b.held := by
  cases b with
  | block b =>
    obtain ⟨b', hb, rfl⟩ := yields_return h
    exact marksOf_sharing hb
  | expr e =>
    obtain ⟨e', -, rfl⟩ := yields_return h
    rfl

theorem marksOf_func (h : Yields (func o s f) p f' p') :
    marksOf Stmt.const? f'.held = marksOf (Stmt.constant? o) f.held := by
  cases f
  obtain ⟨_, _, -, h⟩ := yields_bind.1 h
  obtain ⟨_, _, -, h⟩ := yields_bind.1 h
  obtain ⟨body', hbody, rfl⟩ := yields_return h
  exact marksOf_sharing hbody

theorem marksOf_handler? (h : Yields (handler? o s c) p c' p') :
    marksOf Stmt.const? (Catch.held? c') = marksOf (Stmt.constant? o) (Catch.held? c) := by
  cases c with
  | none =>
    obtain ⟨rfl, -⟩ := yields_pure.1 h
    rfl
  | some c =>
    cases c
    obtain ⟨_, _, -, h⟩ := yields_bind.1 h
    obtain ⟨_, _, -, h⟩ := yields_bind.1 h
    obtain ⟨body', hbody, rfl⟩ := yields_return h
    exact marksOf_sharing hbody

theorem marksOf_cases (h : Yields (cases o s cs) p cs' p') :
    marksOf Stmt.const? (cs'.flatMap Case.held) =
      marksOf (Stmt.constant? o) (cs.flatMap Case.held) := by
  induction cs generalizing cs' p with
  | nil =>
    obtain ⟨rfl, -⟩ := yields_pure.1 h
    rfl
  | cons c cs ih =>
    cases c
    obtain ⟨_, _, -, h⟩ := yields_bind.1 h
    obtain ⟨body', _, hbody, h⟩ := yields_bind.1 h
    obtain ⟨cs', hcs, rfl⟩ := yields_return h
    exact marksOf_append_congr (marksOf_listed hbody) (ih hcs)

end Pass

end LabelHooks
