import LabelHooks.Proofs.ReadsRules

/-!
What statements, imports and exports are read as, one lemma for each rule, and so what all rules
give: trees that are laid out in the source.
-/

namespace LabelHooks
set_option autoImplicit true
attribute [local simp] Expr.outline Expr.parts Expr.attached Expr.attached? Expr.attachedList
  Stmt.mark Stmt.outline Stmt.parts Stmt.attached Part.literals

open Token (Kind)
open Place (Leads Passed)
open Outline (ofIdent ofLiteral)

/-- An expression that may be missing, between what was passed before `p` and before `q`. -/
structure Expr.Optional (src : Text) (p : Place) (x : Option Expr) (q : Place) : Prop where
  value : x.all Expr.isValue = true
  laid : Expr.Laid? src p.tail q.tail x

structure Declarator.Row (src : Text) (p : Place) (ds : List Declarator) (q : Place) : Prop where
  form : ∀ d ∈ ds, d.wellFormed = true
  binds : ∀ d ∈ ds, d.target.binds = true
  laid : Declarator.LaidAll src p.tail q.tail ds

structure VarDecl.Read (src : Text) (p : Place) (d : VarDecl) (q : Place) : Prop where
  form : d.wellFormed = true
  binds : d.targets.all Expr.binds = true
  laid : d.Laid src p.head q.tail
  inner : ∃ m k ds, d = .mk m k ds ∧ Declarator.LaidAll src p.head q.tail ds

variable {src : Text} {hi : Int} {p q r : Place}

theorem Expr.Optional.none : Expr.Optional src p .none p := ⟨rfl, Between.nil le_rfl⟩

theorem Expr.Read.optional (h : e.Read src q r) (hpq : Leads src hi p q) :
    Expr.Optional src p (some e) r :=
  ⟨by simpa using h.value, h.laid.mono hpq.gap le_rfl⟩

theorem Declarator.Row.concat {ds : List Declarator} {target : Expr} {init : Option Expr}
    (h : Declarator.Row src p ds q) (htarget : target.Bound src q r)
    (hinit : Expr.Optional src r init s) (hgap : q.tail ≤ q.head) :
    Declarator.Row src p (ds ++ [.mk (.ofSpan ⟨q.token.pos, s.prevEnd⟩) target init]) s := by
  have hnode := (htarget.laid.append hinit.laid le_rfl).node (a := q.head)
    (b := s.tail) .declarator le_rfl le_rfl (by decide)
  refine ⟨List.forall_mem_append.2 ⟨h.form, ?_⟩, List.forall_mem_append.2 ⟨h.binds, ?_⟩, ?_⟩
  · simp [Declarator.wellFormed, htarget.binding, hinit.value]
  · simpa [Declarator.target] using htarget.binds
  · simpa [Declarator.LaidAll, Declarator.outlineList_append, Declarator.partsList_append,
      Declarator.outlineList, Declarator.partsList, Declarator.attachedList] using
      h.laid.append hnode hgap

theorem Declarator.Row.mono (h : Declarator.Row src p ds q) (hqr : Leads src hi q r) :
    Declarator.Row src p ds r :=
  ⟨h.form, h.binds, h.laid.mono le_rfl hqr.prev⟩

namespace Parse.Reads

variable {rs : Rules}

section Statements

theorem parenExpr (hr : rs.Lay src) : Reads src hi (Parse.parenExpr rs) (Expr.Read src) := by
  apply bind (expect (by decide))
  intro _
  apply bind (withNoIn (expression hr) false)
  intro e
  apply bind (expect (by decide))
  intro _
  apply pure
  rintro s _ r hrs _ q hqr he p hpq _
  exact ⟨he.plain, he.laid.mono hpq.token hrs.prev⟩

theorem declaratorStep (hr : rs.Lay src) (noIn : Bool) (ds : List Declarator) :
    Reads src hi (Parse.declaratorStep rs noIn ds)
      (Round src hi (Declarator.Row src) (fun p ds q => Declarator.Row src p ds q ∧ ds ≠ [])
        ds) := by
  apply start
  intro o
  apply bind (bindingTarget hr)
  intro target
  apply acceptOption (by decide) (P := Expr.Optional src)
  · exact (withNoIn (assign hr) noIn).imp fun q e r _ he p hpq => he.optional hpq
  · exact fun p _ => .none
  · intro init
    apply markFrom
    intro e
    apply failedThen
    · exact pure fun _ _ => trivial
    · apply acceptThen (by decide)
      · apply pure
        rintro t _ s hst _ _ rfl r hrs hinit q hqr htarget rfl p hpq hds
        exact (hds.concat htarget hinit hqr.source.gap).mono hst
      · apply pure
        rintro s _ _ rfl r hrs hinit q hqr htarget rfl p hpq hds
        exact ⟨hds.concat htarget hinit hqr.source.gap, by simp⟩

theorem varDecl (hr : rs.Lay src) (kind : DeclKind) (noIn : Bool) :
    Reads src hi (Parse.varDecl rs kind noIn) fun p d q => p.token.kind ≠ .eof →
      d.Read src p q := by
  apply start
  intro o
  apply bind advance
  intro _
  apply bind (loop (declaratorStep hr noIn) fun _ _ =>
    ⟨by simp, by simp, Between.nil le_rfl⟩)
  intro ds
  apply marked
  rintro r _ q hqr ⟨hds, hne⟩ p hpq hpassed rfl hk
  have hlaid := hds.laid.mono (hpassed hk).le le_rfl
  refine ⟨?_, ?_, ?_, _, _, _, rfl, hlaid⟩
  · simpa [VarDecl.wellFormed, hne] using hds.form
  · simpa [VarDecl.targets] using hds.binds
  · simpa [VarDecl.Laid, VarDecl.outline, VarDecl.parts, VarDecl.attached] using
      hlaid.node (a := p.head) (b := r.tail) .varDecl le_rfl le_rfl
        (by decide)

theorem varDeclStmt (hr : rs.Lay src) (kind : DeclKind) :
    Reads src hi (Parse.varDeclStmt rs kind) fun p s q => p.token.kind ≠ .eof →
      (∃ d, s = .varDecl d) ∧ s.Read src p q := by
  apply start
  intro o
  apply bind (varDecl hr kind false)
  intro d
  apply bind semicolon
  intro _
  apply marked
  rintro r _ q hqr _ p hpq hd rfl hk
  have hbinds := (hd hk).binds
  obtain ⟨m, k, ds, rfl, hlaid⟩ := (hd hk).inner
  refine ⟨⟨_, rfl⟩, hlaid.stmt .varDecl le_rfl hqr.prev (hd hk).form ?_ ?_⟩
  · simpa [Stmt.IsNode, VarDecl.withMark, VarDecl.mark, VarDecl.outline, VarDecl.parts,
      VarDecl.attached, VarDecl.targets] using hbinds
  · simp

theorem funcDecl (hr : rs.Lay src) (isAsync : Bool) :
    Reads src hi (Parse.funcDecl rs isAsync) fun p s q =>
      (∃ m f, s = .funcDecl m f) ∧ s.Read src p q := by
  apply start
  intro o
  apply bind (function hr isAsync true)
  intro f
  apply marked
  rintro q _ p hpq ⟨hname, hf⟩ rfl
  refine ⟨⟨_, _, rfl⟩, hf.laid.stmt .funcDecl le_rfl le_rfl ?_
    (by simpa [Stmt.IsNode] using hf.binds) (by simp)⟩
  simp [Stmt.wellFormed, hname rfl, hf.wellFormed]

theorem ifStmt (hr : rs.Lay src) : Reads src hi (Parse.ifStmt rs) (Stmt.Read src) := by
  apply start
  intro o
  apply bind advance
  intro _
  apply bind (parenExpr hr)
  intro test
  apply bind (hr.statement hi)
  intro yes
  apply acceptOption (by decide) (P := fun p s q =>
    Between src p.tail q.tail (Stmt.outline? s) (Stmt.parts? s).flat (Stmt.attached? s))
  · exact (hr.statement hi).imp fun q s r _ hs p hpq => hs.laid.mono hpq.gap le_rfl
  · exact fun p _ => Between.nil le_rfl
  · intro no
    apply marked
    rintro t _ s hst hno r hrs hyes q hqr htest p hpq _ rfl
    have hlaid := (htest.laid.append hyes.laid hrs.source.gap).append hno le_rfl
    exact hlaid.stmt .ifStmt hpq.token le_rfl htest.value
      (by simp [Stmt.IsNode]) (by simp)

theorem forInRest (hr : rs.Lay src) (o : Position) (left : ForHead) (isAwait : Bool) :
    Reads src hi (Parse.forInRest rs o left isAwait) fun p s q =>
      ∀ a : Point, a.pos = o → left.Laid src a p.tail → left.wellFormed = true →
      left.targets.all Expr.binds = true → left.isTarget = true →
      (∀ d, left = .decl d → d.isSingle = true) → s.Stands src a q.tail := by
  apply checkWord
  intro isOf
  apply bind advance
  intro _
  have hrest : ∀ right : Expr, Reads src hi (do
      Parse.expect .rparen
      let body ← rs.statement
      return Stmt.forIn (← Parse.markFrom o) left right body isOf isAwait) fun r s t => ∀ p q,
        Leads src hi p q → right.Read src q r → ∀ a : Point, a.pos = o → left.Laid src a p.tail →
        left.wellFormed = true → left.targets.all Expr.binds = true → left.isTarget = true →
        (∀ d, left = .decl d → d.isSingle = true) → s.Stands src a t.tail := by
    intro right
    apply bind (expect (by decide))
    intro _
    apply bind (hr.statement hi)
    intro body
    apply marked
    rintro t _ s hst hbody r hrs _ p q hpq hright a rfl hleft hform hbinds htarget hsingle
    have hlaid := (hleft.append hright.laid hpq.gap).append hbody.laid hrs.gap
    refine hlaid.stmt .forInStmt le_rfl le_rfl ?_
      (by simpa [Stmt.IsNode, htarget] using hbinds) (by simp)
    cases left with
    | decl d => simpa [Stmt.wellFormed, hright.value, hsingle d rfl, ForHead.wellFormed] using hform
    | expr x => simpa [Stmt.wellFormed, hright.value, ForHead.wellFormed] using hform
  apply ite
  · intro _
    apply bind (assign hr)
    intro right
    exact (hrest right).imp fun r s t _ hs q _ hright p hpq _ _ => hs p q hpq hright
  · intro _
    apply bind (expression hr)
    intro right
    exact (hrest right).imp fun r s t _ hs q _ hright p hpq _ _ => hs p q hpq hright

theorem optional (stop : Kind) (h : Reads src hi act (Expr.Read src)) :
    Reads src hi (Parse.optional stop act) (Expr.Optional src) := by
  apply checkThen
  · exact pure fun p _ _ => .none
  · apply bind h
    intro e
    apply pure
    intro q _ p hpq he _
    exact he.optional (.refl hpq.source)

theorem forRest (hr : rs.Lay src) (o : Position) (init : Option ForHead) :
    Reads src hi (Parse.forRest rs o init) fun p s q =>
      ∀ a : Point, a.pos = o → Between src a p.tail (ForHead.outline? init)
        (ForHead.parts? init).flat (ForHead.attached? init) → init.all ForHead.wellFormed = true →
      (init.toList.flatMap ForHead.targets).all Expr.binds = true → s.Stands src a q.tail := by
  apply bind (expect (by decide))
  intro _
  apply bind (optional _ (expression hr))
  intro test
  apply bind (expect (by decide))
  intro _
  apply bind (optional _ (expression hr))
  intro post
  apply bind (expect (by decide))
  intro _
  apply bind (hr.statement hi)
  intro body
  apply marked
  rintro v _ u huv hbody t htu _ s hst hpost r hrs _ q hqr htest p hpq _ a rfl hinit hform hbinds
  have hlaid := ((hinit.append htest.laid hpq.prev).append hpost.laid hrs.prev).append
    hbody.laid htu.gap
  refine hlaid.stmt .forStmt le_rfl le_rfl ?_
    (by simpa [Stmt.IsNode] using hbinds) (by simp)
  simp [Stmt.wellFormed, hform, htest.value, hpost.value]

theorem atInOrOf (hf : ∀ b, Reads src hi (f b) Q) : Reads src hi (Parse.atInOrOf >>= f) Q := by
  simp only [Parse.atInOrOf, bind_assoc, pure_bind]
  apply check
  intro b
  apply checkWord
  intro b'
  exact (hf _).imp fun _ _ _ _ h _ _ => h

theorem kind_ne_eof_of_declKind? (h : declKind? k = some kind) : k ≠ .eof := by
  rintro rfl
  cases h

theorem forStmt (hr : rs.Lay src) : Reads src hi (Parse.forStmt rs) (Stmt.Read src) := by
  apply start
  intro o
  apply bind advance
  intro _
  apply bind (accept (by decide))
  intro isAwait
  apply bind (expect (by decide))
  intro _
  apply token
  intro t
  cases hkind : declKind? t.kind with
  | some kind =>
    apply bind (varDecl hr kind true)
    intro d
    apply atInOrOf
    intro b
    apply ite
    · intro _
      split
      · refine (forInRest hr o _ isAwait).imp ?_
        rintro v s w _ hs u huv hd rfl t htu _ r hrt _ q hqr _ rfl
        have hd := hd (kind_ne_eof_of_declKind? hkind)
        refine hs q.head rfl (hd.laid.mono (by grind) le_rfl) hd.form hd.binds rfl ?_
        rintro _ ⟨⟩
        rfl
      · apply failing (fail _)
        exact pure fun _ _ => trivial
    · intro _
      refine (forRest hr o _).imp ?_
      rintro v s w _ hs u huv hd rfl t htu _ r hrt _ q hqr _ rfl
      have hd := hd (kind_ne_eof_of_declKind? hkind)
      exact hs q.head rfl (hd.laid.mono (by grind) le_rfl) hd.form
        (by simpa [ForHead.targets] using hd.binds)
  | none =>
    apply ite
    · intro _
      refine (forRest hr o none).imp ?_
      rintro u s v huv hs _ t htu ⟨_, hpassed⟩ r hrt _ q hqr _ rfl
      exact hs q.head rfl (Between.nil (by grind)) rfl rfl
    · intro _
      apply bind (withNoIn (expression hr) true)
      intro x
      apply atInOrOf
      intro b
      apply ite
      · intro _
        apply bind (toTarget x)
        intro y
        refine (forInRest hr o (.expr y) isAwait).imp ?_
        rintro v s w _ hs _ _ ⟨rfl, hy⟩ u huv hx _ t htu _ r hrt _ q hqr _ rfl
        have hx' : x.Laid src q.head v.tail :=
          hx.laid.mono (by grind) le_rfl
        obtain ⟨hlaid, hvalue, htarget⟩ := hy _ _ hx' hx.plain
        exact hs q.head rfl hlaid hvalue rfl htarget (by rintro d ⟨⟩)
      · intro _
        refine (forRest hr o (some (.expr x))).imp ?_
        rintro v s w _ hs u huv hx _ t htu _ r hrt _ q hqr _ rfl
        exact hs q.head rfl (hx.laid.mono (by grind) le_rfl) hx.value rfl

theorem catchClause (hr : rs.Lay src) : Reads src hi (Parse.catchClause rs) fun p c q =>
    c.wellFormed = true ∧ c.targets.all Expr.binds = true ∧
      Between src p.head q.tail (Catch.outline? (some c))
        (Catch.parts? (some c)).flat (Catch.attached? (some c)) := by
  apply start
  intro o
  apply bind advance
  intro _
  apply acceptThen (by decide)
  · apply bind (bindingTarget hr)
    intro param
    apply bind (expect (by decide))
    intro _
    apply bind (block hr)
    intro body
    apply marked
    rintro u _ t htu hbody s hst _ r hrs hparam q hqr _ _ p hpq _ rfl
    refine ⟨by simpa [Catch.wellFormed] using hparam.binding,
      by simpa [Catch.targets] using hparam.binds, ?_⟩
    have hlaid := (hparam.laid.append hbody hst.gap).node (a := p.head) (b := u.tail)
      .catchClause (by grind) le_rfl (by decide)
    simpa [Catch.outline?, Catch.parts?, Catch.attached?, Catch.attached, Expr.outline?,
      Expr.parts?] using hlaid
  · apply bind (block hr)
    intro body
    apply marked
    rintro r _ q hqr hbody _ p hpq _ rfl
    refine ⟨rfl, rfl, ?_⟩
    have hlaid := hbody.node (a := p.head) (b := r.tail) .catchClause hpq.token
      le_rfl (by decide)
    simpa [Catch.outline?, Catch.parts?, Catch.attached?, Catch.attached, Expr.outline?,
      Expr.parts?] using hlaid

theorem tryStmt (hr : rs.Lay src) : Reads src hi (Parse.tryStmt rs) (Stmt.Read src) := by
  apply start
  intro o
  apply bind advance
  intro _
  apply bind (block hr)
  intro b
  apply check
  intro _
  apply optionThen (P := fun p c q => c.all Catch.wellFormed = true ∧
    (c.toList.flatMap Catch.targets).all Expr.binds = true ∧
    Between src p.tail q.tail (Catch.outline? c) (Catch.parts? c).flat (Catch.attached? c))
  · intro _
    refine (catchClause hr).imp ?_
    rintro p c q hpq ⟨hform, hbinds, hc⟩
    exact ⟨by simpa using hform, by simpa using hbinds, hc.mono hpq.source.gap le_rfl⟩
  · exact fun p _ => ⟨rfl, rfl, Between.nil le_rfl⟩
  · intro handler
    apply acceptOption (by decide) (P := fun p b q =>
      Between src p.tail q.tail (Block.outline? b) (Block.parts? b).flat (Block.attached? b))
    · exact (block hr).imp fun q b r _ hb p hpq => hb.mono hpq.gap le_rfl
    · exact fun p _ => Between.nil le_rfl
    · intro finalizer
      apply refusing (failExpecting _)
      apply marked
      rintro t _ hsome s hst hfinalizer r hrs ⟨hform, hbinds, hhandler⟩ _ q hqr hb p hpq _ rfl
      have hlaid := (hb.append hhandler le_rfl).append hfinalizer le_rfl
      refine hlaid.stmt .tryStmt hpq.token le_rfl ?_
        (by simpa [Stmt.IsNode] using hbinds) (by simp)
      simp only [Bool.and_eq_true, Option.isNone_iff_eq_none, not_and_or] at hsome
      simpa [Stmt.wellFormed, hform, Option.isSome_iff_ne_none] using hsome

theorem atCaseEnd (hf : ∀ b, Reads src hi (f b) Q) : Reads src hi (Parse.atCaseEnd >>= f) Q := by
  simp only [Parse.atCaseEnd, bind_assoc, pure_bind]
  apply token
  intro t
  apply failed
  intro b
  exact (hf _).imp fun _ _ _ _ h _ => h

theorem caseBodyStep (hr : rs.Lay src) (ss : List Stmt) : Reads src hi (Parse.caseBodyStep rs ss)
    (Round src hi (fun p ss q => Stmt.LaidAll src p.tail q.tail ss)
      (fun p ss q => Stmt.LaidAll src p.tail q.tail ss) ss) := by
  apply atCaseEnd
  intro b
  apply ite
  · intro _
    exact pure fun q _ p _ hss => hss
  · intro _
    apply bind (hr.statement hi)
    intro s
    apply pure
    intro r _ q hqr hs p hpq hss
    exact hss.concatStmt hs.laid hqr.source.gap

structure CaseRow (src : Text) (p : Place) (cs : List Case) (q : Place) : Prop where
  form : ∀ c ∈ cs, c.wellFormed = true
  laid : Case.LaidAll src p.tail q.tail cs

theorem CaseRow.concat {cs : List Case} {test : Option Expr} {body : List Stmt} {s t u : Place}
    (h : CaseRow src p cs q) (htest : Expr.Optional src r test s)
    (hbody : Stmt.LaidAll src t.tail u.tail body)
    (hqr : q.head ≤ r.tail) (hst : s.tail ≤ t.tail)
    (hgap : q.tail ≤ q.head) :
    CaseRow src p (cs ++ [.mk (.ofSpan ⟨q.token.pos, u.prevEnd⟩) test body]) u := by
  have hnode := (htest.laid.append hbody hst).node (a := q.head) (b := u.tail)
    .caseClause hqr le_rfl (by decide)
  refine ⟨List.forall_mem_append.2 ⟨h.form, ?_⟩, ?_⟩
  · simp [Case.wellFormed, htest.value]
  · simpa [Case.LaidAll, Case.outlineList_append, Case.partsList_append, Case.outlineList,
      Case.partsList, Case.attachedList] using h.laid.append hnode hgap

theorem caseStep (hr : rs.Lay src) (cs : List Case) : Reads src hi (Parse.caseStep rs cs)
    (Round src hi (CaseRow src) (CaseRow src) cs) := by
  apply check
  intro _
  apply check
  intro _
  apply failed
  intro _
  apply ite
  · intro _
    exact pure fun q _ _ _ p _ hcs => hcs
  · intro _
    apply start
    intro o
    have hrest : ∀ test : Option Expr, Reads src hi (do
        Parse.expect .colon
        let body ← Parse.iterate (Parse.caseBodyStep rs) rs.rounds []
        return (.inl (cs ++ [.mk (← Parse.markFrom o) test body]) : List Case ⊕ List Case))
        fun s x u => ∀ p q r, q.token.pos = o → Expr.Optional src r test s →
          q.tail ≤ q.head → q.head ≤ r.tail →
          CaseRow src p cs q → Sum.elim (CaseRow src p · u) (CaseRow src p · u) x := by
      intro test
      apply bind (expect (by decide))
      intro _
      apply bind (loop (caseBodyStep hr) fun _ _ => Between.nil le_rfl)
      intro body
      apply marked
      rintro u _ t htu hbody s hst _ p q r rfl htest hgap hqr hcs
      exact hcs.concat htest hbody hqr hst.prev hgap
    apply acceptThen (by decide)
    · apply bind (some_map (P := fun p x q => ∃ e, x = some e ∧ e.Read src p q)
        ((expression hr).imp fun p e q _ he => ⟨e, rfl, he⟩))
      intro test
      refine (hrest test).imp ?_
      rintro s x t hst hx r hrs ⟨e, rfl, he⟩ q hqr _ hpassed ho _ _ p hpq hcs
      exact hx p q r ho (he.optional (.refl hrs.source)) hqr.source.gap hpassed.le hcs
    · simp only [pure_bind]
      apply bind (expect (by decide))
      intro _
      refine (hrest none).imp ?_
      rintro r x s hrs hx q hqr ⟨_, hpassed⟩ _ ho _ _ p hpq hcs
      exact hx p q r ho .none hqr.source.gap hpassed.le hcs

theorem switchStmt (hr : rs.Lay src) : Reads src hi (Parse.switchStmt rs) (Stmt.Read src) := by
  apply start
  intro o
  apply bind advance
  intro _
  apply bind (parenExpr hr)
  intro disc
  apply bind (expect (by decide))
  intro _
  apply bind (loop (caseStep hr) fun _ _ => ⟨by simp, Between.nil le_rfl⟩)
  intro cs
  apply bind (expect (by decide))
  intro _
  apply marked
  rintro u _ t htu _ s hst hcs r hrs _ q hqr hdisc p hpq _ rfl
  have hlaid := hdisc.laid.append hcs.laid hrs.prev
  refine hlaid.stmt .switchStmt hpq.token htu.prev ?_
    (by simp [Stmt.IsNode]) (by simp)
  simpa [Stmt.wellFormed, hdisc.value] using hcs.form

theorem labeled (hr : rs.Lay src) : Reads src hi (Parse.labeled rs) (Stmt.Read src) := by
  apply start
  intro o
  apply bind ident
  intro i
  apply bind (expect (by decide))
  intro _
  apply bind (hr.statement hi)
  intro body
  apply marked
  rintro s _ r hrs hbody q hqr _ p hpq ⟨_, hi⟩ rfl
  refine ⟨rfl, ?_⟩
  rw [Stmt.Laid, Stmt.outline, Stmt.parts, Parts.flat_above]
  -- The node of the statement has the name of the label.
  exact ((hi.laid.append hbody.laid hqr.gap).above
    (n := ⟨.labeledStmt, .ofSpan ⟨p.token.pos, s.prevEnd⟩, i.name⟩) rfl rfl
      fun h => by cases h).part ⟨rfl, by simp, rfl⟩

theorem optionalIdent [Decidable c] (hx : c → Reads src hi act fun p i q => i.Read src p q)
    (hf : ∀ i, Reads src hi (f i) fun q a r => ∀ p, Leads src hi p q →
      Between src p.tail q.tail (i.toList.map ofIdent) [] [] → Q p a r) :
    Reads src hi (if c then some <$> act >>= f else Pure.pure none >>= f) Q := by
  apply optionThen _ _ hf
  · intro hc
    exact (hx hc).imp fun p i q hpq hi => hi.laid.mono hpq.source.gap le_rfl
  · exact fun p _ => Between.nil le_rfl

theorem branch (isBreak : Bool) : Reads src hi (Parse.branch isBreak) fun p s q =>
    p.token.kind ≠ .eof → s.Read src p q := by
  apply start
  intro o
  apply bind advance
  intro _
  apply check
  intro _
  apply token
  intro t
  apply optionalIdent fun _ => ident.imp fun _ _ _ _ hi => hi.2
  intro label
  apply bind semicolon
  intro _
  apply marked
  rintro s _ r hrs _ q hqr hlabel _ _ p hpq hpassed rfl hk
  exact hlabel.stmt .branchStmt (hpassed hk).le hrs.prev rfl
    (by simp [Stmt.IsNode]) (by simp)

theorem whileStmt (hr : rs.Lay src) : Reads src hi (Parse.whileStmt rs) (Stmt.Read src) := by
  apply start
  intro o
  apply bind advance
  intro _
  apply bind (parenExpr hr)
  intro test
  apply bind (hr.statement hi)
  intro body
  apply marked
  rintro s _ r hrs hbody q hqr htest p hpq _ rfl
  exact (htest.laid.append hbody.laid hrs.source.gap).stmt .whileStmt hpq.token le_rfl
    htest.value (by simp [Stmt.IsNode]) (by simp)

theorem doStmt (hr : rs.Lay src) : Reads src hi (Parse.doStmt rs) (Stmt.Read src) := by
  apply start
  intro o
  apply bind advance
  intro _
  apply bind (hr.statement hi)
  intro body
  apply bind (expect (by decide))
  intro _
  apply bind (parenExpr hr)
  intro test
  apply bind (accept (by decide))
  intro _
  apply marked
  rintro u _ t htu _ s hst htest r hrs _ q hqr hbody p hpq _ rfl
  exact (hbody.laid.append htest.laid hrs.gap).stmt .doWhileStmt hpq.token htu.prev htest.value
    (by simp [Stmt.IsNode]) (by simp)

theorem atStatementEnd (hf : ∀ b, Reads src hi (f b) Q) :
    Reads src hi (Parse.atStatementEnd >>= f) Q := by
  simp only [Parse.atStatementEnd, bind_assoc, pure_bind]
  apply token
  intro t
  exact (hf _).imp fun _ _ _ _ h _ => h

theorem returnStmt (hr : rs.Lay src) : Reads src hi (Parse.returnStmt rs) fun p s q =>
    p.token.kind ≠ .eof → s.Read src p q := by
  apply start
  intro o
  apply bind advance
  intro _
  apply atStatementEnd
  intro b
  have hrest : ∀ x : Option Expr, Reads src hi (do
      Parse.semicolon
      return Stmt.ret (← Parse.markFrom o) x) fun r s t => ∀ p q, p.token.pos = o → Passed p q →
        Expr.Optional src q x r → s.Stands src p.head t.tail := by
    intro x
    apply bind semicolon
    intro _
    apply marked
    rintro s _ r hrs _ p q rfl hpassed hx
    exact hx.laid.stmt .returnStmt hpassed.le hrs.prev hx.value
      (by simp [Stmt.IsNode]) (by simp)
  apply ite
  · intro _
    simp only [pure_bind]
    exact (hrest none).imp fun q s r _ hs p _ hpassed ho hk => hs p q ho (hpassed hk) .none
  · intro _
    apply bind (some_map (P := Expr.Optional src)
      ((expression hr).imp fun p e q hpq he => he.optional (.refl hpq.source)))
    intro x
    exact (hrest x).imp fun r s t _ hs q _ hx p _ hpassed ho hk => hs p q ho (hpassed hk) hx

theorem throwStmt (hr : rs.Lay src) : Reads src hi (Parse.throwStmt rs) (Stmt.Read src) := by
  apply start
  intro o
  apply bind advance
  intro _
  apply bind (expression hr)
  intro x
  apply bind semicolon
  intro _
  apply marked
  rintro s _ r hrs _ q hqr hx p hpq _ rfl
  exact hx.laid.stmt .throwStmt hpq.token hrs.prev hx.value
    (by simp [Stmt.IsNode]) (by simp)

theorem exprStmt (hr : rs.Lay src) : Reads src hi (Parse.exprStmt rs) (Stmt.Read src) := by
  apply start
  intro o
  apply bind (expression hr)
  intro x
  apply bind semicolon
  intro _
  apply marked
  rintro r _ q hqr _ p hpq hx rfl
  exact hx.laid.stmt .exprStmt le_rfl hqr.prev hx.value
    (by simp [Stmt.IsNode, hx.plain]) (by simp)

theorem atAsyncFunction (hf : ∀ b, Reads src hi (f b) Q) :
    Reads src hi (Parse.atAsyncFunction >>= f) Q := by
  simp only [Parse.atAsyncFunction, bind_assoc, pure_bind]
  apply checkWord
  intro b
  apply checkPeek
  intro b'
  apply peek
  intro t
  exact (hf _).imp fun _ _ _ _ h _ => h

theorem plainStatement (hr : rs.Lay src) :
    Reads src hi (Parse.plainStatement rs) (Stmt.Read src) := by
  apply start
  intro o
  apply token
  intro t
  split
  · apply bind (markedBlock hr)
    intro b
    apply pure
    intro q _ p _ hb _ _
    have hlaid := hb.2.part (x := .stmt (.block b)) ⟨rfl, by simp, rfl⟩
    exact ⟨hb.1, by simpa [Stmt.Laid] using hlaid⟩
  · next hk =>
    refine (varDeclStmt hr _).imp ?_
    rintro p s q _ hs rfl _
    exact (hs (by rw [hk]; decide)).2
  · next hk =>
    refine (varDeclStmt hr _).imp ?_
    rintro p s q _ hs rfl _
    exact (hs (by rw [hk]; decide)).2
  · next hk =>
    refine (varDeclStmt hr _).imp ?_
    rintro p s q _ hs rfl _
    exact (hs (by rw [hk]; decide)).2
  · exact (funcDecl hr false).imp fun _ _ _ _ hs _ _ => hs.2
  · exact (ifStmt hr).imp fun _ _ _ _ hs _ _ => hs
  · exact (forStmt hr).imp fun _ _ _ _ hs _ _ => hs
  · exact (whileStmt hr).imp fun _ _ _ _ hs _ _ => hs
  · exact (doStmt hr).imp fun _ _ _ _ hs _ _ => hs
  · next hk =>
    refine (returnStmt hr).imp ?_
    rintro p s q _ hs rfl _
    exact hs (by rw [hk]; decide)
  · next hk =>
    refine (branch true).imp ?_
    rintro p s q _ hs rfl _
    exact hs (by rw [hk]; decide)
  · next hk =>
    refine (branch false).imp ?_
    rintro p s q _ hs rfl _
    exact hs (by rw [hk]; decide)
  · exact (throwStmt hr).imp fun _ _ _ _ hs _ _ => hs
  · exact (tryStmt hr).imp fun _ _ _ _ hs _ _ => hs
  · exact (switchStmt hr).imp fun _ _ _ _ hs _ _ => hs
  · next hk =>
    apply bind advance
    intro _
    apply marked
    rintro q _ p hpq hpassed rfl rfl
    have hpassed := hpassed (by rw [hk]; decide)
    have hlt : p.token.pos.offset < q.prevEnd.offset := by
      have hne : p.token.literal ≠ [] := fun hnil =>
        hpassed.kind (hpq.source.token.ended.2 hnil)
      have := List.length_pos_iff.2 hne
      rw [hpassed.stop, Token.stop]
      dsimp only
      omega
    exact (Between.nil hpassed.le).stmt .emptyStmt le_rfl le_rfl
      (decide_eq_true hlt) ⟨rfl, rfl, rfl, rfl, by decide, rfl⟩ (by simp)
  · next hk =>
    apply bind advance
    intro _
    apply bind semicolon
    intro _
    apply marked
    rintro r _ q hqr _ p hpq hpassed rfl rfl
    have hpassed := hpassed (by rw [hk]; decide)
    exact (Between.nil hpassed.le).stmt .debuggerStmt le_rfl hqr.prev rfl
      ⟨rfl, rfl, rfl, rfl, by decide, rfl⟩ (by simp)
  · apply failing (fail _)
    exact pure fun _ _ => trivial
  · apply checkPeek
    intro _
    apply ite
    · intro _
      exact (labeled hr).imp fun _ _ _ _ hs _ _ => hs
    · intro _
      apply atAsyncFunction
      intro _
      apply ite
      · intro _
        exact (funcDecl hr true).imp fun _ _ _ _ hs _ _ => hs.2
      · intro _
        exact (exprStmt hr).imp fun _ _ _ _ hs _ _ => hs
  · exact (exprStmt hr).imp fun _ _ _ _ hs _ _ => hs

end Statements

section Modules

theorem stringLiteral : Reads src hi Parse.stringLiteral fun p l q =>
    l.Spelled src ∧ Between src p.head q.tail [ofLiteral l] [] [] := by
  apply token
  intro t
  apply bind (expect (by decide))
  intro _
  apply marked
  rintro q _ p hpq ⟨_, hpassed⟩ rfl
  exact hpq.source.token.literal hpassed .string

theorem importRest (o : Position) (specs : List ImportSpec) :
    Reads src hi (Parse.importRest o specs) fun p s q =>
      ∀ a : Point, a.pos = o → Between src a p.tail (specs.flatMap (·.outline)) [] [] →
        s.Stands src a q.tail := by
  apply bind (expectWord _)
  intro _
  apply bind stringLiteral
  intro source
  apply bind semicolon
  intro _
  apply marked
  rintro s _ r hrs _ q hqr ⟨hspelled, hsource⟩ p hpq _ a rfl hspecs
  refine (hspecs.append hsource hpq.gap).stmt .importDecl le_rfl hrs.prev rfl ?_ ?_
  · simp [Stmt.IsNode]
  · simpa using hspelled

theorem renamed (i : Ident) (hname : Reads src hi name fun p j q => j.Read src p q) :
    Reads src hi (Parse.renamed i name) fun q j r => ∀ p, i.Read src p q →
      Between src p.head r.tail [ofIdent i, ofIdent j] [] [] := by
  apply checkWord
  intro b
  apply ite
  · intro _
    apply bind advance
    intro _
    refine hname.imp ?_
    intro r j s _ hj q hqr _ _ p hi
    exact hi.laid.append hj.laid hqr.gap
  · intro _
    apply pure
    intro q _ _ p hi
    exact hi.before hi.copy le_rfl

def Specs (src : Text) (first : List Outline) (p : Place) (os : List Outline) (q : Place) : Prop :=
  ∀ a, Between src a p.tail first [] [] → Between src a q.tail os [] []

theorem Specs.mono (h : Specs src first p os q) (hqr : Leads src hi q r) : Specs src first p os r :=
  fun a hfirst => (h a hfirst).mono le_rfl hqr.prev

theorem Specs.concat {first os inner : List Outline} (h : Specs src first p os q)
    (hqr : Leads src hi q r) (hinner : Between src q.head s.tail inner [] []) (hk : k ≠ .ident) :
    Specs src first p (os ++ Outline.above ⟨k, .ofSpan ⟨q.token.pos, s.prevEnd⟩, []⟩ inner) s := by
  intro a hfirst
  have hnode := hinner.node (a := q.head) (b := s.tail) k le_rfl le_rfl hk
  simpa using (h a hfirst).append hnode hqr.source.gap

theorem importSpecStep (first : List Outline) (specs : List ImportSpec) :
    Reads src hi (Parse.importSpecStep specs) (Round src hi
      (fun p specs q => Specs src first p (specs.flatMap (·.outline)) q)
      (fun p specs q => Specs src first p (specs.flatMap (·.outline)) q) specs) := by
  apply stopped
  · exact pure fun q _ _ p _ hspecs => hspecs
  · apply start
    intro o
    apply bind identName
    intro imported
    apply bind (renamed imported (ident.imp fun _ _ _ _ hi => hi.2))
    intro binding
    apply markFrom
    intro e
    apply acceptThen (by decide)
    · apply pure
      rintro t _ s hst _ _ rfl r hrs hnames q hqr himported rfl _ p hpq hspecs
      have hconcat := hspecs.concat hqr (hnames q himported) (k := .importSpec) (by decide)
      simpa [ImportSpec.outline, ImportSpec.mark] using hconcat.mono hst
    · apply pure
      rintro s _ _ rfl r hrs hnames q hqr himported rfl _ p hpq hspecs
      have hconcat := hspecs.concat hqr (hnames q himported) (k := .importSpec) (by decide)
      simpa [ImportSpec.outline, ImportSpec.mark] using hconcat

theorem importSpecs (rs : Rules) (first : List ImportSpec) :
    Reads src hi (Parse.importSpecs rs first) fun p specs q =>
      Specs src (first.flatMap (·.outline)) p (specs.flatMap (·.outline)) q := by
  apply token
  intro t
  split
  · apply bind advance
    intro _
    apply bind (expectWord _)
    intro _
    apply bind ident
    intro binding
    apply marked
    rintro s _ r hrs ⟨_, hi⟩ q hqr _ p hpq _ rfl
    have hfirst : Specs src (first.flatMap (·.outline)) p (first.flatMap (·.outline)) p :=
      fun _ h => h
    have hconcat := hfirst.concat hpq (hi.laid.mono (by grind) le_rfl)
      (k := .importSpec) (by decide)
    simpa [ImportSpec.outline, ImportSpec.mark] using hconcat
  · apply bind advance
    intro _
    apply bind (loop (importSpecStep (first.flatMap (·.outline))) fun p _ _ h => h)
    intro specs
    apply bind (expect (by decide))
    intro _
    apply pure
    intro s _ r hrs _ q hqr hspecs p hpq _ _ a hfirst
    exact (hspecs.mono hrs) a (hfirst.mono le_rfl hpq.prev)
  · apply failing (failExpecting _)
    exact pure fun _ _ => trivial

theorem importStmt (rs : Rules) : Reads src hi (Parse.importStmt rs) fun p s q =>
    p.token.kind ≠ .eof → s.Read src p q := by
  apply start
  intro o
  apply bind advance
  intro _
  apply checkThen
  · apply bind stringLiteral
    intro source
    apply bind semicolon
    intro _
    apply marked
    rintro s _ r hrs _ q hqr ⟨hspelled, hsource⟩ _ p hpq _ rfl _
    refine hsource.stmt .importDecl hpq.token hrs.prev rfl ?_ ?_
    · simp [Stmt.IsNode]
    · simpa using hspelled
  · apply checkThen
    · apply start
      intro o'
      apply bind ident
      intro binding
      apply markFrom
      intro e
      have hfirst : ∀ {p q r : Place}, Leads src hi p q → q.token.pos = o' → r.prevEnd = e →
          binding.Read src q r → Between src p.head r.tail
            ([ImportSpec.default (.ofSpan ⟨o', e⟩) binding].flatMap (·.outline)) [] [] := by
        rintro p q r hpq rfl rfl hi
        have hnode := hi.laid.node (a := q.head) (b := r.tail) .importSpec le_rfl
          le_rfl (by decide)
        simpa [ImportSpec.outline, ImportSpec.mark] using hnode.mono hpq.token le_rfl
      apply acceptThen (by decide)
      · apply bind (importSpecs rs _)
        intro specs
        refine (importRest o specs).imp ?_
        rintro t s u _ hs s' hst hspecs r hrs _ _ he q hqr ⟨_, hi⟩ ho' _ _ p hpq _ ho _
        exact hs p.head ho (hspecs _ ((hfirst hpq ho' he hi).mono le_rfl hrs.prev))
      · refine (importRest o _).imp ?_
        rintro r s u _ hs _ he q hqr ⟨_, hi⟩ ho' _ _ p hpq _ ho _
        exact hs p.head ho (hfirst hpq ho' he hi)
    · apply bind (importSpecs rs [])
      intro specs
      refine (importRest o specs).imp ?_
      rintro r s t _ hs q hqr hspecs _ _ p hpq hpassed rfl hk
      exact hs p.head rfl (hspecs _ (Between.nil (hpassed hk).le))

theorem exportDefault (hr : rs.Lay src) (o : Position) :
    Reads src hi (Parse.exportDefault rs o) fun p s q => ∀ a : Point, a.pos = o → a ≤ p.head →
      s.Stands src a q.tail := by
  apply atAsyncFunction
  intro isAsync
  apply check
  intro _
  apply ite
  · intro _
    apply start
    intro o'
    apply bind (function hr isAsync false)
    intro f
    apply ite
    · intro hname
      apply markFrom
      intro e
      apply marked
      rintro q _ rfl p hpq ⟨_, hf⟩ rfl _ a rfl ha
      have hdecl := hf.laid.stmt (a := p.head) (b := q.tail)
        (s := .funcDecl (.ofSpan ⟨p.token.pos, q.prevEnd⟩) f) .funcDecl le_rfl
        le_rfl (by simp [Stmt.wellFormed, hname, hf.wellFormed])
        (by simpa [Stmt.IsNode] using hf.binds) (by simp)
      exact hdecl.laid.stmt .exportDecl ha le_rfl rfl
        (by simp [Stmt.IsNode]) (by simp)
    · intro _
      apply markFrom
      intro e
      apply marked
      rintro q _ rfl p hpq ⟨_, hf⟩ rfl _ a rfl ha
      have hvalue := hf.laid.expr (a := p.head) (b := q.tail)
        (e := .function (.ofSpan ⟨p.token.pos, q.prevEnd⟩) f) .funcExpr le_rfl
        le_rfl hf.wellFormed
        (by simpa [Expr.IsNode] using hf.binds)
      exact hvalue.stmt .exportDecl ha le_rfl rfl
        (by simp [Stmt.IsNode]) (by simp)
  · intro _
    apply bind (assign hr)
    intro value
    apply bind semicolon
    intro _
    apply marked
    rintro r _ q hqr _ p hpq hvalue _ a rfl ha
    exact hvalue.laid.stmt .exportDecl ha hqr.prev hvalue.value
      (by simp [Stmt.IsNode]) (by simp)

theorem exportAll (o : Position) : Reads src hi (Parse.exportAll o) fun p s q =>
    ∀ a : Point, a.pos = o → a ≤ p.tail → s.Stands src a q.tail := by
  apply checkWord
  intro b
  have hrest : ∀ name : Option Ident, Reads src hi (do
      Parse.expectWord "from"
      let source ← Parse.stringLiteral
      Parse.semicolon
      return Stmt.exportAll (← Parse.markFrom o) name source) fun q s r => ∀ a b : Point,
        a.pos = o → a ≤ b → Between src b q.tail (name.toList.map ofIdent) [] [] →
          s.Stands src a r.tail := by
    intro name
    apply bind (expectWord _)
    intro _
    apply bind stringLiteral
    intro source
    apply bind semicolon
    intro _
    apply marked
    rintro s _ r hrs _ q hqr ⟨hspelled, hsource⟩ p hpq _ a b rfl ha hname
    refine (hname.append hsource hpq.gap).stmt .exportDecl ha hrs.prev rfl ?_ ?_
    · simp [Stmt.IsNode]
    · simpa using hspelled
  apply ite
  · intro _
    apply bind advance
    intro _
    apply bind (some_map (P := fun p x q => ∃ i, x = some i ∧ i.Read src p q)
      (identName.imp fun p i q _ hi => ⟨i, rfl, hi⟩))
    intro name
    refine (hrest name).imp ?_
    rintro r s t _ hs q hqr ⟨i, rfl, hi⟩ p hpq _ _ a ho ha
    exact hs a _ ho (le_trans ha hpq.gap) hi.laid
  · intro _
    simp only [pure_bind]
    refine (hrest none).imp ?_
    intro q s r _ hs _ a ho ha
    exact hs a _ ho ha (Between.nil le_rfl)

theorem exportSpecStep (specs : List ExportSpec) :
    Reads src hi (Parse.exportSpecStep specs) (Round src hi
      (fun p specs q => Specs src [] p (specs.flatMap (·.outline)) q)
      (fun p specs q => Specs src [] p (specs.flatMap (·.outline)) q) specs) := by
  apply stopped
  · exact pure fun q _ _ p _ hspecs => hspecs
  · apply start
    intro o
    apply bind identName
    intro source
    apply bind (renamed source identName)
    intro exported
    apply markFrom
    intro e
    apply acceptThen (by decide)
    · apply pure
      rintro t _ s hst _ _ rfl r hrs hnames q hqr hsource rfl _ p hpq hspecs
      have hconcat := hspecs.concat hqr (hnames q hsource) (k := .exportSpec) (by decide)
      simpa [ExportSpec.outline] using hconcat.mono hst
    · apply pure
      rintro s _ _ rfl r hrs hnames q hqr hsource rfl _ p hpq hspecs
      have hconcat := hspecs.concat hqr (hnames q hsource) (k := .exportSpec) (by decide)
      simpa [ExportSpec.outline] using hconcat

theorem exportNames (rs : Rules) (o : Position) :
    Reads src hi (Parse.exportNames rs o) fun p s q => ∀ a : Point, a.pos = o → a ≤ p.tail →
      s.Stands src a q.tail := by
  apply bind (loop (a := []) exportSpecStep fun p _ _ h => h)
  intro specs
  apply bind (expect (by decide))
  intro _
  apply checkWord
  intro b
  have hrest : ∀ source : Option Literal, Reads src hi (do
      Parse.semicolon
      return Stmt.exportNames (← Parse.markFrom o) specs source) fun q s r => ∀ a b c : Point,
        a.pos = o → Between src a b (specs.flatMap (·.outline)) [] [] → b ≤ c →
        (∀ l ∈ source, l.Spelled src) →
        Between src c q.tail (source.toList.map ofLiteral) [] [] →
          s.Stands src a r.tail := by
    intro source
    apply bind semicolon
    intro _
    apply marked
    rintro r _ q hqr _ a b c rfl hspecs hbc hspelled hsource
    refine (hspecs.append hsource hbc).stmt .exportDecl le_rfl hqr.prev rfl ?_ ?_
    · simp [Stmt.IsNode]
    · simpa using hspelled
  apply ite
  · intro _
    apply bind advance
    intro _
    apply bind (some_map (P := fun p x q => ∃ l : Literal, x = some l ∧ l.Spelled src ∧
        Between src p.head q.tail [ofLiteral l] [] [])
      (stringLiteral.imp fun p l q _ hl => ⟨l, rfl, hl⟩))
    intro source
    refine (hrest source).imp ?_
    rintro u s v _ hs t htu ⟨l, rfl, hspelled, hl⟩ r hrt _ _ q hqr _ p hpq hspecs a ho ha
    refine hs a q.tail t.head ho (hspecs _ (Between.nil ha)) (by grind) ?_ hl
    simpa using hspelled
  · intro _
    simp only [pure_bind]
    refine (hrest none).imp ?_
    rintro r s t _ hs _ q hqr _ p hpq hspecs a ho ha
    exact hs a _ _ ho (hspecs _ (Between.nil ha)) hqr.prev (by simp) (Between.nil le_rfl)

theorem exportStmt (hr : rs.Lay src) : Reads src hi (Parse.exportStmt rs) fun p s q =>
    p.token.kind ≠ .eof → s.Read src p q := by
  apply start
  intro o
  apply bind advance
  intro _
  -- A declaration after `export`.
  have hdecl : ∀ {act : Parse Stmt} {P : Place → Prop},
      Reads src hi act (fun p s q => P p → ((∃ d, s = .varDecl d) ∨ ∃ m f, s = .funcDecl m f) ∧
        s.Laid src p.head q.tail) →
      Reads src hi (do
        let d ← act
        return Stmt.exportDecl (← Parse.markFrom o) false d) fun p s q => P p →
          ∀ a : Point, a.pos = o → a ≤ p.head → s.Stands src a q.tail := by
    intro act P hact
    apply bind hact
    intro d
    apply marked
    rintro q _ p hpq hd hp a rfl ha
    obtain ⟨hform, hd⟩ := hd hp
    refine hd.stmt .exportDecl ha le_rfl ?_
      (by simp [Stmt.IsNode]) (by simp)
    rcases hform with ⟨d, rfl⟩ | ⟨m, f, rfl⟩
    · rfl
    · rfl
  apply acceptThen (by decide)
  · refine (exportDefault hr o).imp ?_
    rintro r s t _ hs q hqr _ _ p hpq _ rfl _
    exact hs p.head rfl (hpq.trans hqr).token
  · apply token
    intro t
    cases hkind : declKind? t.kind with
    | some kind =>
      refine (hdecl (P := fun p => p.token = t) ((varDeclStmt hr kind).imp ?_)).imp ?_
      · rintro p s q _ hs rfl
        obtain ⟨hform, hlaid⟩ := hs (kind_ne_eof_of_declKind? hkind)
        exact ⟨.inl hform, hlaid.laid⟩
      · rintro q s r _ hs ht _ p hpq _ rfl _
        exact hs ht p.head rfl hpq.token
    | none =>
      have hfunc : ∀ isAsync, Reads src hi (do
          let d ← Parse.funcDecl rs isAsync
          return Stmt.exportDecl (← Parse.markFrom o) false d) fun q s r =>
            ∀ a : Point, a.pos = o → a ≤ q.head → s.Stands src a r.tail := by
        intro isAsync
        refine (hdecl (P := fun _ => True) ((funcDecl hr isAsync).imp ?_)).imp ?_
        · rintro p s q _ ⟨hform, hlaid⟩ _
          exact ⟨.inr hform, hlaid.laid⟩
        · exact fun q s r _ hs => hs trivial
      apply checkThen
      · refine (hfunc false).imp ?_
        rintro q s r _ hs _ _ _ p hpq _ rfl _
        exact hs p.head rfl hpq.token
      · apply checkWord
        intro _
        apply checkPeek
        intro _
        apply ite
        · intro _
          refine (hfunc true).imp ?_
          rintro q s r _ hs _ _ _ _ p hpq _ rfl _
          exact hs p.head rfl hpq.token
        · intro _
          apply acceptThen (by decide)
          · refine (exportAll o).imp ?_
            rintro r s u _ hs q hqr _ _ _ _ _ _ p hpq hpassed rfl hk
            exact hs p.head rfl (le_trans (hpassed hk).le hqr.prev)
          · apply acceptThen (by decide)
            · refine (exportNames rs o).imp ?_
              rintro r s u _ hs q hqr _ _ _ _ _ _ _ p hpq hpassed rfl hk
              exact hs p.head rfl (le_trans (hpassed hk).le hqr.prev)
            · apply checkThen
              · apply failing (fail _)
                exact pure fun _ _ => trivial
              · apply failing (failExpecting _)
                exact pure fun _ _ => trivial

theorem statement (hr : rs.Lay src) : Reads src hi (Parse.statement rs) (Stmt.Read src) := by
  apply token
  intro t
  split
  · next hk =>
    apply checkPeek
    intro _
    apply checkPeek
    intro _
    apply ite
    · intro _
      exact (plainStatement hr).imp fun _ _ _ _ hs _ => hs
    · intro _
      refine (importStmt rs).imp ?_
      rintro p s q _ hs rfl
      exact hs (by rw [hk]; decide)
  · next hk =>
    refine (exportStmt hr).imp ?_
    rintro p s q _ hs rfl
    exact hs (by rw [hk]; decide)
  · exact (plainStatement hr).imp fun _ _ _ _ hs _ => hs

end Modules
end Parse.Reads

namespace Parse

theorem Rules.lay_rules (src : Text) (rounds depth : Nat) : (rules rounds depth).Lay src := by
  induction depth with
  | zero =>
    exact ⟨fun _ => .throw _, fun _ => .throw _, fun _ => .throw _, fun _ _ => .throw _,
      fun _ => .throw _, fun _ => .throw _, fun _ => .throw _⟩
  | succ depth ih =>
    exact ⟨fun _ => Reads.expression ih, fun _ => Reads.assign ih, fun _ => Reads.unary ih,
      fun least _ => Reads.binary ih least, fun _ => Reads.newExpr ih,
      fun _ => Reads.bindingTarget ih, fun _ => Reads.statement ih⟩

end Parse
end LabelHooks
