import LabelHooks.Proofs.Expanding

/-!
One walk along the pass, which shows at once what becomes of sites and parts and how the pass
counts what it makes.
-/

namespace LabelHooks
set_option autoImplicit true

open Pass
open Parts (above)

structure Turns (o : Options) (s : ScopeId) (p : PassState) (xs : Sites) (ps : Parts)
    (p' : PassState) (ys : Sites) (qs : Parts) (ds : List Text) : Prop where
  rewrites : Rewrites o s p xs ps p' ys qs ds
  expands : Expands o p.done ps p'.done qs

theorem Part.label_of_kept {x : Part} (h : x.role.Kept o) (hl : x.label? = some l) :
    o.classify l.name = .unmatched := by
  cases x with
  | expr e => cases hl
  | stmt st =>
    cases st with
    | labeled =>
      cases hl
      exact h
    | _ => cases hl

namespace Turns

variable {o : Options} {s : ScopeId} {p p' p₁ : PassState} {xs ys : Sites} {ps qs : Parts}
  {ds : List Text}

theorem keep (h : xs.LabelFree) : Turns o s p xs .nil p xs .nil [] := ⟨.keep h, .nil⟩

theorem nothing : Turns o s p .nil .nil p .nil .nil [] := keep .nil

theorem hide (h : ∀ x ∈ xs.flat, x.isLabel = true → ∃ y ∈ ps.flat, y.isWord = false) :
    Turns o s p xs (.skip ps .nil) p xs (.skip ps .nil) [] :=
  ⟨.hide h, .skip⟩

theorem append (hx : Turns o s p xs ps p₁ xs' qs ds) (hy : Turns o s p₁ ys ps' p₂ ys' qs' ds') :
    Turns o s p (xs ++ ys) (ps ++ ps') p₂ (xs' ++ ys') (qs ++ qs') (ds ++ ds') :=
  ⟨hx.rewrites.append hy.rewrites, .append hx.expands hy.expands⟩

theorem hoist (h : Turns o s p xs ps p' ys qs []) :
    Turns o s p (.hoist xs .nil) ps p' (.hoist ys .nil) qs [] :=
  ⟨.hoist h.rewrites, h.expands⟩

theorem scope (h : Turns o ((p.table.scopeOf? n.mark).getD s) p xs ps p' ys qs ds) :
    Turns o s p (.scope k n xs .nil) ps p' (.scope k n ys .nil) qs [] :=
  ⟨.scope h.rewrites, h.expands⟩

theorem site (h : Turns o s p xs ps p' ys qs ds) (hx : x.isLabel = false := by rfl) :
    Turns o s p (.site x xs) ps p' (.site x ys) qs ds :=
  ⟨h.rewrites.site hx, h.expands⟩

theorem skipping (h : Turns o s p xs ps p' ys qs ds) (unseen : Parts) :
    Turns o s p xs (.skip unseen .nil ++ ps) p' ys (.skip unseen .nil ++ qs) ds :=
  ⟨h.rewrites.skipping unseen, .append .skip h.expands⟩

theorem part (h : Turns o s p xs ps p' ys qs ds) (hx : y.role = x.role := by rfl)
    (hk : x.role.Kept o := by trivial) (hc : y.call? = x.call? := by rfl)
    (hh : marksOf Stmt.const? y.held = marksOf (Stmt.constant? o) x.held := by rfl) :
    Turns o s p xs (above x ps) p' ys (above y qs) ds :=
  ⟨.part hx hk h.rewrites, .part hc (fun _ => Part.label_of_kept hk) hh h.expands⟩

theorem node (h : Turns o s p xs ps p' ys qs ds) (hz : z.isLabel = false := by rfl)
    (hx : y.role = x.role := by rfl) (hk : x.role.Kept o := by trivial)
    (hc : y.call? = x.call? := by rfl)
    (hh : marksOf Stmt.const? y.held = marksOf (Stmt.constant? o) x.held := by rfl) :
    Turns o s p (.site z xs) (above x ps) p' (.site z ys) (above y qs) ds :=
  part (site h hz) hx hk hc hh

theorem relabel (h : o.classify i.name = .unmatched) :
    Turns o s p (.site (.label i b) .nil) .nil p (.site (.label i b') .nil) .nil [] :=
  ⟨.relabel h, .nil⟩

theorem stray (hx : x.isMember = true) (h : Turns o s p xs ps p' ys qs ds) :
    Turns o s p (.site x .nil) ps p' (.site y .nil) qs [] :=
  ⟨.stray hx h.rewrites, h.expands⟩

theorem miss (hb : p.done.bindings.reactive? p.table i.name s = none) (hx : x.role = .mutation i)
    (hy : y.role = .mutation i) (hc : y.call? = x.call?) (hl : x.label? = none)
    (hh : marksOf Stmt.const? y.held = marksOf (Stmt.constant? o) x.held)
    (h : Turns o s p xs ps p' ys qs ds) :
    Turns o s p (.site (.use i) xs) (above x ps) p' (.site (.use i) ys) (above y qs) ds :=
  ⟨.miss hb hx hy h.rewrites, .node hc hl hh h.expands⟩

theorem ofMember {mutation mutation' x e : Expr} {c : Option (Callback × Mark)}
    (hc : Yields (memberCallback? o mutation x s) p c p₁)
    (hx : Turns o (insideOf c s) p₁ mutation.sites (mutation.parts true) p₂ mutation'.sites
      (mutation'.parts true) [])
    (he : Yields (finishMember c mutation') p₂ e p') (hh : mutation'.head = .other)
    (hf : mutation'.face = .other)
    (hbase : ∀ base, x.rootIdent? = some base → ∀ k ∈ (mutation.parts true).suspensions,
      (base.name, k) ∈ (mutation.parts true).holding Part.base?) :
    Turns o s p mutation.sites (mutation.parts true) p' e.sites (e.parts true) [] ∧
      e.head = .other ∧ e.face = .other := by
  obtain ⟨hr, hhead⟩ := Rewrites.ofMember hc hx.rewrites he hh hbase
  obtain ⟨hdone, hcall⟩ := done_memberCallback? hc
  have hexp := hx.expands
  rw [hdone] at hexp
  obtain ⟨rfl, rfl, rfl⟩ | ⟨cb, block, rfl, rfl, hwrapped⟩ := done_finishMember he
  · exact ⟨⟨hr, hexp⟩, hhead, hf⟩
  · obtain ⟨hmem, hname⟩ := hcall cb block rfl
    refine ⟨⟨hr, ?_⟩, hhead, rfl⟩
    rw [hwrapped]
    exact .wrap hmem hname hexp

end Turns

namespace Expr

variable {o : Options} {x prop left right c : Expr} {as : List Expr}

def Turned (o : Options) (e : Expr) : Prop :=
  ∀ ⦃s : ScopeId⦄ ⦃p : PassState⦄ ⦃e' : Expr⦄ ⦃p' : PassState⦄, Yields (expr o s e) p e' p' →
    Turns o s p e.sites (e.parts true) p' e'.sites (e'.parts true) [] ∧ e'.head = e.head ∧
      e'.face = e.face

def TargetTurned (o : Options) (e : Expr) : Prop :=
  ∀ ⦃s : ScopeId⦄ ⦃p : PassState⦄ ⦃e' : Expr⦄ ⦃p' : PassState⦄, Yields (pattern o s e) p e' p' →
    Turns o s p e.sites (e.parts false) p' e'.sites (e'.parts false) []

theorem Turned.key {β : Type} {computed : Bool} {s : ScopeId} {k : Expr} {f : Expr → Pass β}
    {p p' : PassState} {b : β} (hk : k.Turned o)
    (h : Yields (if computed then expr o s k >>= f else pure k >>= f) p b p') :
    ∃ k' p₁, Turns o s p (if computed then k.sites else .ofNodes k.nodes)
      (Parts.when computed (k.parts true)) p₁ (if computed then k'.sites else .ofNodes k'.nodes)
      (Parts.when computed (k'.parts true)) [] ∧ Yields (f k') p₁ b p' := by
  cases computed with
  | true =>
    obtain ⟨k', p₁, hx, h⟩ := yields_bind.1 h
    exact ⟨k', p₁, (hk hx).1, h⟩
  | false =>
    obtain ⟨k', p₁, hx, h⟩ := yields_bind.1 h
    obtain ⟨rfl, rfl⟩ := yields_pure.1 hx
    refine ⟨k, p, .hide fun z hz hlabel => ?_, h⟩
    cases (Sites.LabelFree.ofNodes k.nodes z hz).symm.trans hlabel

theorem Turned.assignName (hr : right.Turned o) (m : Mark) (op : AssignOp) (i : Ident) :
    (assign m op (.ident i) right).Turned o := by
  intro s p e' p' h
  obtain ⟨r, p₁, hb, h⟩ := yields_bind.1 h
  obtain ⟨rfl, rfl⟩ := yields_reactive?.1 hb
  cases hb : p₁.done.bindings.reactive? p₁.table i.name s with
  | none =>
    simp only [hb] at h
    obtain ⟨right', hright, rfl⟩ := yields_return h
    exact ⟨.site (.miss hb rfl rfl rfl rfl rfl ((hr hright).1.skipping _)), rfl, rfl⟩
  | some b =>
    simp only [hb] at h
    obtain ⟨c, p₂, hc, h⟩ := yields_bind.1 h
    obtain ⟨right', p₃, hright, h⟩ := yields_bind.1 h
    obtain ⟨rfl, hs⟩ := yields_finishUpdate h
    obtain ⟨-, hdone⟩ := done_finishUpdate h
    obtain ⟨hmem, hname, -⟩ := Registry.of_reactive? hb
    have hbase : (Part.expr (assign m op (.ident i) right)).base? = some b.name :=
      congrArg some hname.symm
    rw [← hname] at hb
    have hright := (hr hright).1
    refine ⟨⟨.dropping (.dropping ?_ rfl) rfl, ?_⟩, rfl, rfl⟩
    · refine .ofCallback _ (.expr _) (q := .ofName b.name m.span) hb rfl hc
        (hright.rewrites.updated m op i) hs (.under (.right (.refl _) _) rfl) fun k hk => ?_
      exact mem_holding_base hbase (by simp [hk])
    · obtain ⟨rfl, rfl⟩ := yields_openCallback hc
      rw [hdone]
      exact .assign hmem rfl hright.expands

theorem Turned.updateName (m : Mark) (op : UpdateOp) (before : Bool) (i : Ident) :
    (update m op before (.ident i)).Turned o := by
  intro s p e' p' h
  obtain ⟨r, p₁, hb, h⟩ := yields_bind.1 h
  obtain ⟨rfl, rfl⟩ := yields_reactive?.1 hb
  cases hb : p₁.done.bindings.reactive? p₁.table i.name s with
  | none =>
    simp only [hb] at h
    obtain ⟨rfl, rfl⟩ := yields_pure.1 h
    exact ⟨.site (.miss hb rfl rfl rfl rfl rfl (.hide fun _ h => nomatch h)), rfl, rfl⟩
  | some b =>
    simp only [hb] at h
    obtain ⟨c, p₂, hc, h⟩ := yields_bind.1 h
    obtain ⟨rfl, hs⟩ := yields_finishUpdate h
    obtain ⟨-, hdone⟩ := done_finishUpdate h
    obtain ⟨hmem, hname, -⟩ := Registry.of_reactive? hb
    rw [← hname] at hb
    refine ⟨⟨.dropping (.dropping ?_ rfl) rfl, ?_⟩, rfl, rfl⟩
    · exact .ofCallback .hole (.expr _) (q := .ofName b.name m.span) hb rfl hc
        (.stepped m op i) hs (.nil _) fun _ hk => nomatch hk
    · obtain ⟨rfl, rfl⟩ := yields_openCallback hc
      rw [hdone]
      exact .step hmem rfl

theorem Turned.assignMember (hx : x.Turned o) (hp : prop.Turned o)
    (hr : right.Turned o) (m mm : Mark) (op : AssignOp) (computed optional : Bool) :
    (assign m op (.member mm x prop computed optional) right).Turned o := by
  intro s p e' p' h
  obtain ⟨c, p₁, hc, h⟩ := yields_bind.1 h
  obtain ⟨x', p₂, hx', h⟩ := yields_bind.1 h
  obtain ⟨prop', p₃, hkey, h⟩ := hp.key h
  obtain ⟨right', p₄, hright, h⟩ := yields_bind.1 h
  have hmember : Turns o (insideOf c s) p₁ (member mm x prop computed optional).sites
      ((member mm x prop computed optional).parts false) p₃
      (member mm x' prop' computed optional).sites
      ((member mm x' prop' computed optional).parts false) [] :=
    .node ((hx hx').1.append hkey)
  have hparts : Turns o (insideOf c s) p₁
      (assign m op (.member mm x prop computed optional) right).sites
      ((assign m op (.member mm x prop computed optional) right).parts true) p₄
      (assign m op (.member mm x' prop' computed optional) right').sites
      ((assign m op (.member mm x' prop' computed optional) right').parts true) [] :=
    .node (.append hmember (hr hright).1)
  refine Turns.ofMember hc hparts h rfl rfl fun base hbase k hk => ?_
  exact mem_holding_base (congrArg (Option.map Ident.name) hbase)
    (Parts.mem_suspensions_of_above rfl hk)

theorem Turned.updateMember (hx : x.Turned o) (hp : prop.Turned o) (m mm : Mark)
    (op : UpdateOp) (before computed optional : Bool) :
    (update m op before (.member mm x prop computed optional)).Turned o := by
  intro s p e' p' h
  obtain ⟨c, p₁, hc, h⟩ := yields_bind.1 h
  obtain ⟨x', p₂, hx', h⟩ := yields_bind.1 h
  obtain ⟨prop', p₃, hkey, h⟩ := hp.key h
  have hparts : Turns o (insideOf c s) p₁
      (update m op before (.member mm x prop computed optional)).sites
      ((update m op before (.member mm x prop computed optional)).parts true) p₃
      (update m op before (.member mm x' prop' computed optional)).sites
      ((update m op before (.member mm x' prop' computed optional)).parts true) [] :=
    .node (.node ((hx hx').1.append hkey))
  refine Turns.ofMember hc hparts h rfl rfl fun base hbase k hk => ?_
  exact mem_holding_base (congrArg (Option.map Ident.name) hbase)
    (Parts.mem_suspensions_of_above rfl hk)

end Expr

def Block.Turned (o : Options) (b : Block) : Prop :=
  ∀ ⦃s : ScopeId⦄ ⦃p : PassState⦄ ⦃b' : Block⦄ ⦃p' : PassState⦄,
    Yields (Pass.sharing o s b) p b' p' →
    ∃ ds, Turns o s p b.sharing b.parts p' b'.sharing b'.parts ds

def Body.Turned (o : Options) (b : Body) : Prop :=
  ∀ ⦃s : ScopeId⦄ ⦃p : PassState⦄ ⦃b' : Body⦄ ⦃p' : PassState⦄, Yields (arrowBody o s b) p b' p' →
    b'.isBlock = b.isBlock ∧ ∃ ds, Turns o s p b.sites b.parts p' b'.sites b'.parts ds

structure Watched (o : Options) (s : ScopeId) (p : PassState) (x w : Expr) (deps : List Expr)
    (p' : PassState) : Prop where
  rewrites (l : Ident) (st : Stmt) (pre : List Site) (hw : o.watched? l.name st = x.functionMark?)
    (hpre : ∀ y ∈ pre, y.isPlain = true) :
    Rewrites o s p (.site (.label l st) (.ofList pre ++ x.sites)) (x.parts true) p' w.sites
      (w.parts true) []
  expands : ∃ (is : List Ident) (body body' : Body) (k : Mark),
    x.anonymous? = some (is.map .ident, body) ∧ w = .arrow k false [] body' ∧ deps = names is ∧
    marksOf Stmt.const? body'.held = marksOf (Stmt.constant? o) body.held ∧
    Expands o p.done body.parts p'.done body'.parts

namespace Expr

variable {o : Options} {right x : Expr} {l : Ident}

def WatchTurned (o : Options) (x : Expr) : Prop :=
  ∀ ⦃label : Text⦄ ⦃s : ScopeId⦄ ⦃p : PassState⦄ ⦃w : Expr⦄ ⦃deps : List Expr⦄ ⦃p' : PassState⦄,
    Yields (watcher o label s x) p (w, deps) p' → x.anonymous? ≠ none → Watched o s p x w deps p'

theorem WatchTurned.arrow {body : Body} (hb : body.Turned o) (m : Mark) (isAsync : Bool)
    (params : List Expr) : (Expr.arrow m isAsync params body).WatchTurned o := by
  intro label s p w deps p' h _
  obtain ⟨deps', p₁, hdeps, h⟩ := yields_bind.1 h
  obtain ⟨rfl, is, rfl, rfl⟩ := yields_dependencies hdeps
  obtain ⟨⟨mark, inner⟩, p₂, hopen, h⟩ := yields_bind.1 h
  obtain ⟨body', p₃, hyields, h⟩ := yields_bind.1 h
  obtain ⟨heq, rfl⟩ := yields_pure.1 h
  cases heq
  obtain ⟨-, ds, hbody⟩ := hb hyields
  constructor
  · intro l st pre hw hpre
    simp only [Expr.sites, Sites.bindingList_idents]
    exact .watch hw hpre hopen hbody.rewrites rfl
  · have hexp := hbody.expands
    rw [done_openWatcher hopen] at hexp
    exact ⟨is, body, body', mark, rfl, rfl, rfl, marksOf_arrowBody hyields, hexp⟩

theorem WatchTurned.function {body : Block} (hb : body.Turned o) (m fm : Mark)
    (params : List Expr) (name : Option Ident) (isAsync generator : Bool) :
    (Expr.function m (.mk fm name params body isAsync generator)).WatchTurned o := by
  intro label s p w deps p' h hanon
  obtain rfl : name = none := by
    cases name with
    | none => rfl
    | some i => exact absurd rfl hanon
  obtain rfl : generator = false := by
    cases generator with
    | false => rfl
    | true => exact absurd rfl hanon
  obtain ⟨deps', p₁, hdeps, h⟩ := yields_bind.1 h
  obtain ⟨rfl, is, rfl, rfl⟩ := yields_dependencies hdeps
  obtain ⟨⟨mark, inner⟩, p₂, hopen, h⟩ := yields_bind.1 h
  obtain ⟨body', p₃, hyields, h⟩ := yields_bind.1 h
  obtain ⟨heq, rfl⟩ := yields_pure.1 h
  cases heq
  obtain ⟨ds, hbody⟩ := hb hyields
  constructor
  · intro l st pre hw hpre
    have hwatch : Rewrites o s _
        (.site (.label l st) (.ofList (pre ++ [.node ⟨.funcExpr, m, []⟩]) ++
          .scope .function ⟨.function, fm, []⟩
            (.ofList (is.map (.bind .param)) ++ (Body.block body).sites) .nil))
        ((Expr.function m (.mk fm none (is.map .ident) body isAsync false)).parts true) _ _
        ((Expr.arrow mark false [] (.block body')).parts true) [] :=
      .watch hw (by simpa [or_imp, forall_and, Site.isPlain] using hpre) hopen hbody.rewrites rfl
    rw [Sites.ofList_append, Sites.append_assoc] at hwatch
    simp only [Expr.sites, Func.sites, Sites.bindingList_idents]
    exact hwatch
  · have hexp := hbody.expands
    rw [done_openWatcher hopen] at hexp
    exact ⟨is, .block body, .block body', mark, rfl, rfl, rfl, marksOf_sharing hyields, hexp⟩

end Expr

namespace Stmt

variable {o : Options} {right x : Expr} {l : Ident} {s : ScopeId} {p p' : PassState} {st : Stmt}

theorem turns_state {xm am : Mark} {op : AssignOp} {left : Expr} (hr : right.Turned o)
    (hl : o.classify l.name = .state)
    (h : Yields (state o s m l.name (.expr xm (.assign am op left right))) p st p') :
    ∃ ds, Turns o s p (labeled m l (.expr xm (.assign am op left right))).sites
      (labeled m l (.expr xm (.assign am op left right))).parts p' st.sites st.parts ds := by
  obtain ⟨target, p₁, htarget, h₁⟩ := yields_bind.1 h
  obtain ⟨rfl, rfl, rfl⟩ := yields_stateTarget htarget
  obtain ⟨b, p₂, hb, h₂⟩ := yields_bind.1 h₁
  obtain ⟨right', p₃, hright, h₃⟩ := yields_bind.1 h₂
  obtain ⟨rfl, hs⟩ := yields_finishState h₃
  obtain ⟨-, hdone⟩ := done_finishState h₃
  obtain ⟨⟨hright, hexp⟩, hhead, hface⟩ := hr hright
  have hstate : Rewrites o s p₁ (.site (.label l (.expr xm (.assign am .set (.ident target) right)))
      (.ofList [.node ⟨.exprStmt, xm, []⟩, .node ⟨.assignExpr, am, []⟩, .use target])) .nil p₂
      (.site (.bind .const b.ident)
        (.site (.bind .const (.ofName b.modifier.name target.mark.span)) .nil)) .nil _ :=
    .state (by simp [Options.declared?, hl]) (by simp [Site.isPlain]) hb rfl rfl hl
  have hcall := ((hright.extra (Expr.extra_factory o.stateFactory m.span)).calling
    m.span hhead).addingNode (n := ⟨.callExpr, .ofSpan am.span, []⟩) rfl
  have hall := (((hstate.append hcall).addingNode
    (n := ⟨.arrayPattern, .ofSpan target.mark.span, []⟩) rfl).addingNode
    (n := ⟨.declarator, .ofSpan m.span, []⟩) rfl).renoding
    (n := ⟨.labeledStmt, m, l.name⟩) (r := ⟨.varDecl, m, []⟩) rfl
  have hpattern : Parts.Covers .nil ((Expr.arrayPattern (.ofSpan target.mark.span)
      [.ident b.ident, .ofName b.modifier.name target.mark.span]).parts false) :=
    .plain (.append (.ident _) (.append (.ident _) (.nil _))) rfl rfl
  refine ⟨[target.name, b.modifier.name] ++ [], ?_, ?_⟩
  · rw [Stmt.sites.eq_def (.varDecl _)]
    simp only [VarDecl.sites_const, Expr.sites_callOf]
    refine .recast (.under (.under (.under (.right (.refl _) _) rfl) rfl) rfl) ?_ (hall.noting hs)
    exact .const hpattern (.callOf (Expr.extra_factory _ _) (.after (.refl _) (.nil _)) _) m
  · rw [done_declareState hb] at hexp
    rw [hdone]
    exact .state hl hface hexp

theorem turns_memo {xm am : Mark} {op : AssignOp} {left : Expr} (hr : right.WatchTurned o)
    (hl : o.classify l.name = .watch)
    (h : Yields (watch o s m l.name (.expr xm (.assign am op left right))) p st p') :
    ∃ ds, Turns o s p (labeled m l (.expr xm (.assign am op left right))).sites
      (labeled m l (.expr xm (.assign am op left right))).parts p' st.sites st.parts ds := by
  obtain ⟨target, p₁, htarget, h₁⟩ := yields_bind.1 h
  obtain ⟨rfl, rfl, hanon, rfl⟩ := yields_memoTarget htarget
  obtain ⟨⟨w, deps⟩, p₂, hw, h₂⟩ := yields_bind.1 h₁
  obtain ⟨rfl, hs⟩ := yields_finishMemo h₂
  obtain ⟨hrewrites, is, body, body', k, hx, rfl, rfl, hheld, hexp⟩ := hr hw hanon
  obtain ⟨-, hdone⟩ := done_finishMemo h₂
  have hwatch := hrewrites l (.expr xm (.assign am .set (.ident target) right))
    [.node ⟨.exprStmt, xm, []⟩, .node ⟨.assignExpr, am, []⟩, .use target]
    (by simp [Options.watched?, hl]) (by simp [Site.isPlain])
  have hcall := hwatch.watchCall (Expr.extra_names right.span is) o.memoFactory m am.span
  have hdeclared : o.declared? l.name (.expr xm (.assign am .set (.ident target) right)) =
      some target := by simp [Options.declared?, hl]
  have hname : (Ident.ofName target.name target.mark.span).name = target.name := rfl
  have hmemo := Rewrites.memo hdeclared hname rfl hcall
  have hall := (hmemo.addingNode (n := ⟨.declarator, .ofSpan m.span, []⟩) rfl).renoding
    (n := ⟨.labeledStmt, m, l.name⟩) (r := ⟨.varDecl, m, []⟩) rfl
  refine ⟨[] ++ [target.name], ?_, hdone ▸ .memo hl hx hheld hexp⟩
  rw [Stmt.sites.eq_def (.varDecl _)]
  simp only [VarDecl.sites_const]
  refine .recast (.under (.under (.under (.right (.refl _) _) rfl) rfl) rfl) ?_ (hall.noting hs)
  exact .const (.ident _) (.refl _) m

theorem turns_effect {xm : Mark} (hx : x.WatchTurned o) (hl : o.classify l.name = .watch)
    (hne : ∀ am op left right, x ≠ .assign am op left right)
    (h : Yields (watch o s m l.name (.expr xm x)) p st p') :
    ∃ ds, Turns o s p (labeled m l (.expr xm x)).sites (labeled m l (.expr xm x)).parts p'
      st.sites st.parts ds := by
  have hwatch : watch o s m l.name (.expr xm x) = (do
      checkEffect l.name x
      let r ← watcher o l.name s x
      finishEffect o m xm r.1 r.2 x.span) := by
    cases x with
    | assign am op left right => exact absurd rfl (hne am op left right)
    | _ => rfl
  rw [hwatch] at h
  obtain ⟨_, p₁, hcheck, h₁⟩ := yields_bind.1 h
  obtain ⟨hanon, rfl⟩ := yields_checkEffect hcheck
  obtain ⟨⟨w, deps⟩, p₂, hw, h₂⟩ := yields_bind.1 h₁
  obtain ⟨rfl, hs⟩ := yields_finishEffect h₂
  obtain ⟨hrewrites, is, body, body', k, hx, rfl, rfl, hheld, hexp⟩ := hx hw hanon
  obtain ⟨-, hdone⟩ := done_finishEffect h₂
  have hwatched : o.watched? l.name (.expr xm x) = x.functionMark? := by
    cases x with
    | assign am op left right => exact absurd rfl (hne am op left right)
    | _ => simp [Options.watched?, hl]
  have hwatch := hrewrites l (.expr xm x) [.node ⟨.exprStmt, xm, []⟩] hwatched
    (by simp [Site.isPlain])
  have hcall := hwatch.watchCall (Expr.extra_names x.span is) o.effectFactory m xm.span
  have hall := (hcall.renoding (n := ⟨.labeledStmt, m, l.name⟩) (r := ⟨.exprStmt, m, []⟩)
    rfl).noting hs
  exact ⟨_, .recast (.under (.under (.refl _) rfl) rfl) (.plain (.refl _) rfl rfl) hall,
    hdone ▸ .effect hl hx hheld hexp⟩

end Stmt

mutual

theorem Expr.turns : ∀ e : Expr, e.Turned o
  | .hole => fun _ _ _ _ h => by
    obtain ⟨rfl, rfl, rfl⟩ := yields_pure.1 h
    exact ⟨.nothing, rfl, rfl⟩
  | .ident _ | .literal _ | .this _ | .super _ => fun _ _ _ _ h => by
    obtain ⟨rfl, rfl, rfl⟩ := yields_pure.1 h
    exact ⟨.node .nothing, rfl, rfl⟩
  | .assign m op left right => by
    cases left with
    | ident i => exact .assignName right.turns m op i
    | member mm x prop computed optional =>
      exact .assignMember x.turns prop.turns right.turns m mm op computed optional
    | _ =>
      intro s p e' p' h
      obtain ⟨left', p₁, hleft, h⟩ := yields_bind.1 h
      obtain ⟨right', hright, rfl, rfl⟩ := yields_return h
      have hrole := Part.Role.ofTarget_congr (Expr.turnsBinding .param _ hleft).2
      exact ⟨.node ((Expr.turnsTarget _ hleft).append (right.turns hright).1) rfl hrole, rfl, rfl⟩
  | .update m op before x => by
    cases x with
    | ident i => exact .updateName m op before i
    | member mm x prop computed optional =>
      exact .updateMember x.turns prop.turns m mm op before computed optional
    | _ =>
      intro s p e' p' h
      obtain ⟨rfl, rfl, rfl⟩ := yields_pure.1 h
      exact ⟨.node (.hide fun _ => Expr.exists_not_word_of_label false), rfl, rfl⟩
  | .arrow m isAsync params body => fun _ _ _ _ h => by
    obtain ⟨inner, p₁, hin, h⟩ := yields_bind.1 h
    obtain ⟨rfl, rfl, rfl⟩ := yields_scopeOf.1 hin
    obtain ⟨params', p₂, hps, h⟩ := yields_bind.1 h
    obtain ⟨body', hbody, rfl, rfl⟩ := yields_return h
    have hheld := marksOf_arrowBody hbody
    obtain ⟨hblock, ds, hbody⟩ := body.turns hbody
    obtain ⟨hps, hnames⟩ := Expr.turnsBindings .param params hps
    have hempty : params'.isEmpty = params.isEmpty := by
      simpa using congrArg List.isEmpty hnames
    refine ⟨.part (.scope (hps.append hbody)) ?_ ?_ rfl hheld, ?_, ?_⟩
    · simp only [Part.role, hempty]
    · simp only [Part.role]
      split <;> trivial
    · simp only [Expr.head, hnames]
    · simp only [Expr.face, hblock]
  | .function _ f => fun _ _ _ _ h => by
    obtain ⟨f', hf, rfl, rfl⟩ := yields_return h
    exact ⟨.node (f.turns true hf).1 rfl rfl trivial rfl (marksOf_func hf), rfl, rfl⟩
  | .template _ tag _ es => fun _ _ _ _ h => by
    obtain ⟨tag', p₁, htag, h⟩ := yields_bind.1 h
    obtain ⟨es', hes, rfl, rfl⟩ := yields_return h
    exact ⟨.node ((Expr.turns? tag htag).append (Expr.turnsList es hes).1), rfl, rfl⟩
  | .array _ es | .object _ es | .seq _ es => fun _ _ _ _ h => by
    obtain ⟨es', hes, rfl, rfl⟩ := yields_return h
    exact ⟨.node (Expr.turnsList es hes).1, rfl, rfl⟩
  | .property _ shape key value => fun _ _ _ _ h => by
    obtain ⟨key', p₁, hkey, h⟩ := key.turns.key h
    obtain ⟨value', hvalue, rfl, rfl⟩ := yields_return h
    exact ⟨.node (hkey.append (value.turns hvalue).1), rfl, rfl⟩
  | .spread _ x | .unary _ _ x | .await _ x => fun _ _ _ _ h => by
    obtain ⟨x', hx, rfl, rfl⟩ := yields_return h
    exact ⟨.node (x.turns hx).1, rfl, rfl⟩
  | .binary _ _ x y => fun _ _ _ _ h => by
    obtain ⟨x', p₁, hx, h⟩ := yields_bind.1 h
    obtain ⟨y', hy, rfl, rfl⟩ := yields_return h
    exact ⟨.node ((x.turns hx).1.append (y.turns hy).1), rfl, rfl⟩
  | .cond _ x y z => fun _ _ _ _ h => by
    obtain ⟨x', p₁, hx, h⟩ := yields_bind.1 h
    obtain ⟨y', p₂, hy, h⟩ := yields_bind.1 h
    obtain ⟨z', hz, rfl, rfl⟩ := yields_return h
    exact ⟨.node (((x.turns hx).1.append (y.turns hy).1).append (z.turns hz).1), rfl, rfl⟩
  | .call _ c as _ => fun _ _ _ _ h => by
    obtain ⟨c', p₁, hc, h⟩ := yields_bind.1 h
    obtain ⟨as', has, rfl, rfl⟩ := yields_return h
    obtain ⟨hc, hch, hcf⟩ := c.turns hc
    obtain ⟨has, hash, hasf⟩ := Expr.turnsList as has
    have hsame : Sites.ofCall c' as' = Sites.ofCall c as := by
      simp only [Sites.ofCall, hch, hash]
    refine ⟨?_, rfl, rfl⟩
    simp only [Expr.sites, hsame]
    refine .node (((Turns.keep (.ofCall c as)).append hc).append has) rfl rfl trivial ?_
    simp only [Part.call?, hcf, hasf]
  | .new _ c as => fun _ _ _ _ h => by
    obtain ⟨c', p₁, hc, h⟩ := yields_bind.1 h
    obtain ⟨as', has, rfl, rfl⟩ := yields_return h
    exact ⟨.node ((c.turns hc).1.append (Expr.turnsList as has).1), rfl, rfl⟩
  | .member _ x prop computed _ => fun _ _ _ _ h => by
    obtain ⟨x', p₁, hx, h⟩ := yields_bind.1 h
    obtain ⟨prop', p₂, hkey, h⟩ := prop.turns.key h
    obtain ⟨rfl, rfl, rfl⟩ := yields_pure.1 h
    exact ⟨.node ((x.turns hx).1.append hkey), rfl, rfl⟩
  | .yield _ _ x => fun _ _ _ _ h => by
    obtain ⟨x', hx, rfl, rfl⟩ := yields_return h
    exact ⟨.node (Expr.turns? x hx), rfl, rfl⟩
  | .arrayPattern _ es | .objectPattern _ es => fun _ _ _ _ h => by
    obtain ⟨es', hes, rfl, rfl⟩ := yields_return h
    exact ⟨.node (Expr.turnsTargets es hes), rfl, rfl⟩
  | .assignPattern _ left right => fun _ _ _ _ h => by
    obtain ⟨left', p₁, hleft, h⟩ := yields_bind.1 h
    obtain ⟨right', hright, rfl, rfl⟩ := yields_return h
    exact ⟨.node ((left.turnsTarget hleft).append (right.turns hright).1), rfl, rfl⟩
  | .rest _ x => fun _ _ _ _ h => by
    obtain ⟨x', hx, rfl, rfl⟩ := yields_return h
    exact ⟨.node (x.turnsTarget hx), rfl, rfl⟩
termination_by structural e => e

theorem Expr.turns? : ∀ (e : Option Expr) {s p e' p'}, Yields (expr? o s e) p e' p' →
    Turns o s p (Expr.sites? e) (Expr.parts? true e) p' (Expr.sites? e') (Expr.parts? true e') []
  | none, _, _, _, _, h => by
    obtain ⟨rfl, rfl⟩ := yields_pure.1 h
    exact .nothing
  | some e, _, _, _, _, h => by
    obtain ⟨e', he, rfl⟩ := yields_return h
    exact (e.turns he).1
termination_by structural e => e

theorem Expr.turnsList : ∀ (es : List Expr) {s p es' p'}, Yields (exprs o s es) p es' p' →
    Turns o s p (Expr.sitesList es) (Expr.partsList true es) p' (Expr.sitesList es')
      (Expr.partsList true es') [] ∧
      es'.map Expr.head = es.map Expr.head ∧ es'.map Expr.face = es.map Expr.face
  | [], _, _, _, _, h => by
    obtain ⟨rfl, rfl⟩ := yields_pure.1 h
    exact ⟨.nothing, rfl, rfl⟩
  | e :: es, _, _, _, _, h => by
    obtain ⟨e', p₁, he, h⟩ := yields_bind.1 h
    obtain ⟨es', hes, rfl⟩ := yields_return h
    obtain ⟨he, heh, hef⟩ := e.turns he
    obtain ⟨hes, hesh, hesf⟩ := Expr.turnsList es hes
    exact ⟨he.append hes, congrArg₂ List.cons heh hesh, congrArg₂ List.cons hef hesf⟩
termination_by structural e => e

theorem Expr.turnsTarget (e : Expr) : e.TargetTurned o := by
  intro s p e' p' h
  cases e with
  | arrayPattern m es | objectPattern m es =>
    obtain ⟨es', hes, rfl⟩ := yields_return h
    exact .node (Expr.turnsTargets es hes)
  | property m shape key value =>
    obtain ⟨key', p₁, hkey, h⟩ := key.turns.key h
    obtain ⟨value', hvalue, rfl⟩ := yields_return h
    exact .node (hkey.append (value.turnsTarget hvalue))
  | assignPattern m left right =>
    obtain ⟨left', p₁, hleft, h⟩ := yields_bind.1 h
    obtain ⟨right', hright, rfl⟩ := yields_return h
    exact .node ((left.turnsTarget hleft).append (right.turns hright).1)
  | rest m x =>
    obtain ⟨x', hx, rfl⟩ := yields_return h
    exact .node (x.turnsTarget hx)
  | member m x prop =>
    obtain ⟨x', p₁, hx, h⟩ := yields_bind.1 h
    obtain ⟨prop', p₂, hkey, h⟩ := prop.turns.key h
    obtain ⟨rfl, rfl⟩ := yields_pure.1 h
    exact .node ((x.turns hx).1.append hkey)
  | hole =>
    obtain ⟨rfl, rfl⟩ := yields_pure.1 h
    exact .nothing
  | _ =>
    obtain ⟨rfl, rfl⟩ := yields_pure.1 h
    exact .hide fun _ => Expr.exists_not_word_of_label true
termination_by structural e

theorem Expr.turnsTargets : ∀ (es : List Expr) {s p es' p'}, Yields (patterns o s es) p es' p' →
    Turns o s p (Expr.sitesList es) (Expr.partsList false es) p' (Expr.sitesList es')
      (Expr.partsList false es') []
  | [], _, _, _, _, h => by
    obtain ⟨rfl, rfl⟩ := yields_pure.1 h
    exact .nothing
  | e :: es, _, _, _, _, h => by
    obtain ⟨e', p₁, he, h⟩ := yields_bind.1 h
    obtain ⟨es', hes, rfl⟩ := yields_return h
    exact (e.turnsTarget he).append (Expr.turnsTargets es hes)
termination_by structural e => e

theorem Expr.turnsBinding (k : BindingKind) : ∀ (e : Expr) {s p e' p'},
    Yields (pattern o s e) p e' p' →
    Turns o s p (e.binding k) (e.parts false) p' (e'.binding k)
      (e'.parts false) [] ∧ e'.ident? = e.ident?
  | e, _, _, _, _, h => by
    cases e with
    | arrayPattern m es | objectPattern m es =>
      obtain ⟨es', hes, rfl⟩ := yields_return h
      exact ⟨.node (Expr.turnsBindings k es hes).1, rfl⟩
    | property m shape key value =>
      obtain ⟨key', p₁, hkey, h⟩ := key.turns.key h
      obtain ⟨value', hvalue, rfl⟩ := yields_return h
      exact ⟨.node (hkey.append (value.turnsBinding k hvalue).1), rfl⟩
    | assignPattern m left right =>
      obtain ⟨left', p₁, hleft, h⟩ := yields_bind.1 h
      obtain ⟨right', hright, rfl⟩ := yields_return h
      exact ⟨.node ((left.turnsBinding k hleft).1.append (right.turns hright).1), rfl⟩
    | rest m x =>
      obtain ⟨x', hx, rfl⟩ := yields_return h
      exact ⟨.node (x.turnsBinding k hx).1, rfl⟩
    | member m x prop =>
      obtain ⟨x', p₁, hx, h⟩ := yields_bind.1 h
      obtain ⟨prop', p₂, hkey, h⟩ := prop.turns.key h
      obtain ⟨rfl, rfl⟩ := yields_pure.1 h
      exact ⟨.stray rfl (.part ((x.turns hx).1.append hkey)), rfl⟩
    | hole =>
      obtain ⟨rfl, rfl⟩ := yields_pure.1 h
      exact ⟨.nothing, rfl⟩
    | _ =>
      obtain ⟨rfl, rfl⟩ := yields_pure.1 h
      refine ⟨.hide fun z hz hlabel => ?_, rfl⟩
      obtain rfl := List.mem_singleton.1 hz
      cases hlabel
termination_by structural e => e

theorem Expr.turnsBinding? (k : BindingKind) : ∀ (e : Option Expr) {s p e' p'},
    Yields (pattern? o s e) p e' p' →
    Turns o s p (Expr.binding? k e) (Expr.parts? false e) p' (Expr.binding? k e')
      (Expr.parts? false e') []
  | none, _, _, _, _, h => by
    obtain ⟨rfl, rfl⟩ := yields_pure.1 h
    exact .nothing
  | some e, _, _, _, _, h => by
    obtain ⟨e', he, rfl⟩ := yields_return h
    exact (e.turnsBinding k he).1
termination_by structural e => e

theorem Expr.turnsBindings (k : BindingKind) : ∀ (es : List Expr) {s p es' p'},
    Yields (patterns o s es) p es' p' →
    Turns o s p (Expr.bindingList k es) (Expr.partsList false es) p' (Expr.bindingList k es')
      (Expr.partsList false es') [] ∧
      es'.map Expr.ident? = es.map Expr.ident?
  | [], _, _, _, _, h => by
    obtain ⟨rfl, rfl⟩ := yields_pure.1 h
    exact ⟨.nothing, rfl⟩
  | e :: es, _, _, _, _, h => by
    obtain ⟨e', p₁, he, h⟩ := yields_bind.1 h
    obtain ⟨es', hes, rfl⟩ := yields_return h
    obtain ⟨he, hei⟩ := e.turnsBinding k he
    obtain ⟨hes, hesi⟩ := Expr.turnsBindings k es hes
    exact ⟨he.append hes, congrArg₂ List.cons hei hesi⟩
termination_by structural e => e

theorem Func.turns (isExpr : Bool) : ∀ (f : Func) {s p f' p'}, Yields (func o s f) p f' p' →
    Turns o s p (f.sites isExpr) f.parts p' (f'.sites isExpr) f'.parts [] ∧ f'.name? = f.name?
  | .mk m name params body _ _, _, _, _, _, h => by
    obtain ⟨inner, p₁, hin, h⟩ := yields_bind.1 h
    obtain ⟨rfl, rfl⟩ := yields_scopeOf.1 hin
    obtain ⟨params', p₂, hps, h⟩ := yields_bind.1 h
    obtain ⟨body', hbody, rfl⟩ := yields_return h
    obtain ⟨ds, hbody⟩ := body.turnsSharing hbody
    have hps := (Expr.turnsBindings .param params hps).1
    refine ⟨.scope (((Turns.keep ?_).append hps).append hbody), rfl⟩
    cases isExpr with
    | true => exact .ofIdent? (fun _ => rfl) name
    | false => exact .nil
termination_by structural e => e

theorem Block.turnsSharing : ∀ b : Block, b.Turned o
  | .mk m list => fun _ _ _ _ h => by
    obtain ⟨list', hlist, rfl⟩ := yields_return h
    obtain ⟨ds, hlist⟩ := Stmt.turnsList list hlist
    exact ⟨ds, .site hlist⟩
termination_by structural e => e

theorem Body.turns : ∀ b : Body, b.Turned o
  | .block b => fun _ _ _ _ h => by
    obtain ⟨b', hb, rfl⟩ := yields_return h
    exact ⟨rfl, b.turnsSharing hb⟩
  | .expr e => fun _ _ _ _ h => by
    obtain ⟨e', he, rfl⟩ := yields_return h
    exact ⟨rfl, [], (e.turns he).1⟩
termination_by structural e => e

theorem Expr.turnsWatch (x : Expr) : x.WatchTurned o := by
  cases x with
  | arrow m isAsync params body => exact .arrow body.turns m isAsync params
  | function m f =>
    obtain ⟨fm, name, params, body, isAsync, generator⟩ := f
    exact .function body.turnsSharing m fm params name isAsync generator
  | _ => exact fun _ _ _ _ _ _ h => absurd h not_yields_reject
termination_by structural x

theorem Declarator.turnsList (k : BindingKind) : ∀ (ds : List Declarator) {s p ds' p'},
    Yields (declarators o s ds) p ds' p' →
    Turns o s p (Declarator.sitesList k ds) (Declarator.partsList ds) p'
      (Declarator.sitesList k ds') (Declarator.partsList ds') []
  | [], _, _, _, _, h => by
    obtain ⟨rfl, rfl⟩ := yields_pure.1 h
    exact .nothing
  | .mk m target init :: ds, _, _, _, _, h => by
    obtain ⟨target', p₁, htarget, h⟩ := yields_bind.1 h
    obtain ⟨init', p₂, hinit, h⟩ := yields_bind.1 h
    obtain ⟨ds', hds, rfl⟩ := yields_return h
    exact .site (((target.turnsBinding k htarget).1.append (Expr.turns? init hinit)).append
      (Declarator.turnsList k ds hds))
termination_by structural e => e

theorem VarDecl.turns : ∀ (d : VarDecl) {s p d' p'},
    Yields (varDecl o s d) p d' p' → Turns o s p d.sites d.parts p' d'.sites d'.parts []
  | .mk m kind ds, _, _, _, _, h => by
    obtain ⟨ds', hds, rfl⟩ := yields_return h
    have hds := Declarator.turnsList (Analysis.declKind kind) ds hds
    cases kind with
    | var => exact .site (.hoist hds)
    | let_ => exact .site hds
    | const => exact .site hds
termination_by structural e => e

theorem ForHead.turnsInit? : ∀ (i : Option ForHead) {s p i' p'}, Yields (forInit? o s i) p i' p' →
    Turns o s p (ForHead.sites? i) (ForHead.parts? i) p' (ForHead.sites? i') (ForHead.parts? i')
      []
  | none, _, _, _, _, h => by
    obtain ⟨rfl, rfl⟩ := yields_pure.1 h
    exact .nothing
  | some (.decl d), _, _, _, _, h => by
    obtain ⟨d', hd, rfl⟩ := yields_return h
    exact d.turns hd
  | some (.expr e), _, _, _, _, h => by
    obtain ⟨e', he, rfl⟩ := yields_return h
    exact (e.turns he).1
termination_by structural e => e

theorem ForHead.turnsTarget : ∀ (t : ForHead) {s p t' p'},
    Yields (forTarget o s t) p t' p' → Turns o s p t.sites
      (t.parts false) p' t'.sites (t'.parts false) []
  | .decl d, _, _, _, _, h => by
    obtain ⟨d', hd, rfl⟩ := yields_return h
    exact d.turns hd
  | .expr e, _, _, _, _, h => by
    obtain ⟨e', he, rfl⟩ := yields_return h
    exact e.turnsTarget he
termination_by structural e => e

theorem Block.turns : ∀ (b : Block) {s p b' p'},
    Yields (block o s b) p b' p' → Turns o s p b.sites b.parts p' b'.sites b'.parts []
  | .mk m list, _, _, _, _, h => by
    obtain ⟨inner, p₁, hin, h₁⟩ := yields_bind.1 h
    obtain ⟨rfl, rfl⟩ := yields_scopeOf.1 hin
    obtain ⟨list', hlist, rfl⟩ := yields_return h₁
    obtain ⟨ds, hlist⟩ := Stmt.turnsList list hlist
    exact .scope hlist
termination_by structural e => e

theorem Block.turns? : ∀ (b : Option Block) {s p b' p'}, Yields (block? o s b) p b' p' →
    Turns o s p (Block.sites? b) (Block.parts? b) p' (Block.sites? b') (Block.parts? b') []
  | none, _, _, _, _, h => by
    obtain ⟨rfl, rfl⟩ := yields_pure.1 h
    exact .nothing
  | some b, _, _, _, _, h => by
    obtain ⟨b', hb, rfl⟩ := yields_return h
    exact b.turns hb
termination_by structural e => e

theorem Catch.turns? : ∀ (c : Option Catch) {s p c' p'}, Yields (handler? o s c) p c' p' →
    Turns o s p (Catch.sites? c) (Catch.parts? c) p' (Catch.sites? c') (Catch.parts? c') []
  | none, _, _, _, _, h => by
    obtain ⟨rfl, rfl⟩ := yields_pure.1 h
    exact .nothing
  | some (.mk m param body), _, _, _, _, h => by
    obtain ⟨inner, p₁, hin, h₁⟩ := yields_bind.1 h
    obtain ⟨rfl, rfl⟩ := yields_scopeOf.1 hin
    obtain ⟨param', p₂, hparam, h₂⟩ := yields_bind.1 h₁
    obtain ⟨body', hbody, rfl⟩ := yields_return h₂
    obtain ⟨ds, hbody⟩ := body.turnsSharing hbody
    exact .scope ((Expr.turnsBinding? .catch_ param hparam).append hbody)
termination_by structural e => e

theorem Case.turnsList : ∀ (cs : List Case) {s p cs' p'}, Yields (cases o s cs) p cs' p' →
    ∃ ds, Turns o s p (Case.sitesList cs) (Case.partsList cs) p' (Case.sitesList cs')
      (Case.partsList cs') ds
  | [], _, _, _, _, h => by
    obtain ⟨rfl, rfl⟩ := yields_pure.1 h
    exact ⟨[], .nothing⟩
  | .mk m test body :: cs, _, _, _, _, h => by
    obtain ⟨test', p₁, htest, h⟩ := yields_bind.1 h
    obtain ⟨body', p₂, hbody, h⟩ := yields_bind.1 h
    obtain ⟨cs', hcs, rfl⟩ := yields_return h
    obtain ⟨ds, hbody⟩ := Stmt.turnsList body hbody
    obtain ⟨ds', hcs⟩ := Case.turnsList cs hcs
    exact ⟨_, .site (((Expr.turns? test htest).append hbody).append hcs)⟩
termination_by structural e => e

theorem Stmt.turns : ∀ (st : Stmt) {s p st' p'},
    Yields (stmt o s st) p st' p' → ∃ ds, Turns o s p st.sites st.parts p' st'.sites st'.parts ds
  | .labeled m l body, s, p, st', p', h => by
    cases hl : o.classify l.name with
    | unmatched =>
      simp only [stmt, hl] at h
      obtain ⟨body', hbody, rfl⟩ := yields_return h
      have hheld := marksOf_alone .alone hbody
      obtain ⟨ds, hbody⟩ := body.turns hbody
      exact ⟨_, .part (.site (.append (.relabel hl) hbody)) rfl hl rfl hheld⟩
    | state =>
      simp only [stmt, hl] at h
      cases body with
      | expr xm x =>
        cases x with
        | assign am op left right => exact Stmt.turns_state right.turns hl h
        | _ => exact absurd h not_yields_reject
      | _ => exact absurd h not_yields_reject
    | watch =>
      simp only [stmt, hl] at h
      cases body with
      | expr xm x =>
        cases x with
        | assign am op left right => exact Stmt.turns_memo right.turnsWatch hl h
        | _ => exact Stmt.turns_effect (Expr.turnsWatch _) hl (by simp) h
      | _ => exact absurd h not_yields_reject
  | .varDecl d, _, _, _, _, h => by
    obtain ⟨d', hd, rfl⟩ := yields_return h
    exact ⟨[], .part (d.turns hd)⟩
  | .funcDecl m f, _, _, _, _, h => by
    obtain ⟨f', hf, rfl⟩ := yields_return h
    have hheld := marksOf_func hf
    obtain ⟨hf, hname⟩ := f.turns false hf
    refine ⟨[], ?_⟩
    simp only [Stmt.sites, hname]
    exact .node ((Turns.keep (.ofIdent? (fun _ => rfl) _)).append hf) rfl rfl trivial rfl hheld
  | .expr _ x, _, _, _, _, h | .throw _ x, _, _, _, _, h | .exportValue _ x, _, _, _, _, h => by
    obtain ⟨x', hx, rfl⟩ := yields_return h
    exact ⟨[], .node (x.turns hx).1⟩
  | .block b, _, _, _, _, h => by
    obtain ⟨b', hb, rfl⟩ := yields_return h
    exact ⟨[], .part (b.turns hb) rfl trivial rfl (marksOf_block hb)⟩
  | .ret _ x, _, _, _, _, h => by
    obtain ⟨x', hx, rfl⟩ := yields_return h
    exact ⟨[], .node (Expr.turns? x hx)⟩
  | .ifElse _ test yes no, _, _, _, _, h => by
    obtain ⟨test', p₁, htest, h⟩ := yields_bind.1 h
    obtain ⟨yes', p₂, hyes, h⟩ := yields_bind.1 h
    obtain ⟨no', hno, rfl⟩ := yields_return h
    have hheld := marksOf_append_congr (marksOf_alone .alone hyes) (marksOf_alone? .alone hno)
    obtain ⟨ds, hyes⟩ := yes.turns hyes
    obtain ⟨ds', hno⟩ := Stmt.turns? no hno
    exact ⟨_, .node (((test.turns htest).1.append hyes).append hno) rfl rfl trivial rfl hheld⟩
  | .forLoop m init test post body, _, _, _, _, h => by
    obtain ⟨inner, p₁, hin, h₁⟩ := yields_bind.1 h
    obtain ⟨rfl, rfl⟩ := yields_scopeOf.1 hin
    obtain ⟨init', p₂, hinit, h₂⟩ := yields_bind.1 h₁
    obtain ⟨test', p₃, htest, h₃⟩ := yields_bind.1 h₂
    obtain ⟨post', p₄, hpost, h₄⟩ := yields_bind.1 h₃
    obtain ⟨body', hbody, rfl⟩ := yields_return h₄
    have hheld := marksOf_alone .alone hbody
    obtain ⟨ds, hbody⟩ := body.turns hbody
    exact ⟨[], .part (.scope
      ((((ForHead.turnsInit? init hinit).append (Expr.turns? test htest)).append
      (Expr.turns? post hpost)).append hbody)) rfl trivial rfl hheld⟩
  | .forIn m left right body _ _, _, _, _, _, h => by
    obtain ⟨inner, p₁, hin, h₁⟩ := yields_bind.1 h
    obtain ⟨rfl, rfl⟩ := yields_scopeOf.1 hin
    obtain ⟨left', p₂, hleft, h₂⟩ := yields_bind.1 h₁
    obtain ⟨right', p₃, hright, h₃⟩ := yields_bind.1 h₂
    obtain ⟨body', hbody, rfl⟩ := yields_return h₃
    have hheld := marksOf_alone .alone hbody
    obtain ⟨ds, hbody⟩ := body.turns hbody
    exact ⟨[], .part (.scope
      (((left.turnsTarget hleft).append (right.turns hright).1).append hbody))
      rfl trivial rfl hheld⟩
  | .whileLoop _ test body, _, _, _, _, h => by
    obtain ⟨test', p₁, htest, h⟩ := yields_bind.1 h
    obtain ⟨body', hbody, rfl⟩ := yields_return h
    have hheld := marksOf_alone .alone hbody
    obtain ⟨ds, hbody⟩ := body.turns hbody
    exact ⟨_, .node ((test.turns htest).1.append hbody) rfl rfl trivial rfl hheld⟩
  | .doWhile _ body test, _, _, _, _, h => by
    obtain ⟨body', p₁, hbody, h⟩ := yields_bind.1 h
    obtain ⟨test', htest, rfl⟩ := yields_return h
    have hheld := marksOf_alone .alone hbody
    obtain ⟨ds, hbody⟩ := body.turns hbody
    exact ⟨_, .node (hbody.append (test.turns htest).1) rfl rfl trivial rfl hheld⟩
  | .tryCatch _ b handler finalizer, _, _, _, _, h => by
    obtain ⟨b', p₁, hb, h⟩ := yields_bind.1 h
    obtain ⟨handler', p₂, hhandler, h⟩ := yields_bind.1 h
    obtain ⟨finalizer', hfinalizer, rfl⟩ := yields_return h
    have hheld := marksOf_append_congr
      (marksOf_append_congr (marksOf_block hb) (marksOf_handler? hhandler))
      (marksOf_block? hfinalizer)
    exact ⟨_, .node (((b.turns hb).append (Catch.turns? handler hhandler)).append
      (Block.turns? finalizer hfinalizer)) rfl rfl trivial rfl hheld⟩
  | .switch m disc cs, _, _, _, _, h => by
    obtain ⟨disc', p₁, hdisc, h₁⟩ := yields_bind.1 h
    obtain ⟨inner, p₂, hin, h₂⟩ := yields_bind.1 h₁
    obtain ⟨rfl, rfl⟩ := yields_scopeOf.1 hin
    obtain ⟨cs', hcs, rfl⟩ := yields_return h₂
    have hheld := marksOf_cases hcs
    obtain ⟨ds, hcs⟩ := Case.turnsList cs hcs
    exact ⟨[], .part ((disc.turns hdisc).1.append (.scope hcs)) rfl trivial rfl hheld⟩
  | .exportDecl _ _ decl, _, _, _, _, h => by
    obtain ⟨decl', hdecl, rfl⟩ := yields_return h
    have hheld := marksOf_alone .exported hdecl
    obtain ⟨ds, hdecl⟩ := decl.turns hdecl
    exact ⟨ds, .node hdecl rfl rfl trivial rfl hheld⟩
  | .empty _, _, _, _, _, h | .debugger _, _, _, _, _, h => by
    obtain ⟨rfl, rfl⟩ := yields_pure.1 h
    exact ⟨[], .node .nothing⟩
  | .branch _ _ label, _, _, _, _, h => by
    obtain ⟨rfl, rfl⟩ := yields_pure.1 h
    exact ⟨[], .node (.keep (.ofIdent? (fun _ => rfl) label))⟩
  | .imports _ specs _, _, _, _, _, h => by
    obtain ⟨rfl, rfl⟩ := yields_pure.1 h
    exact ⟨[], .node (.keep (.hoist (.ofImports specs) (.site rfl .nil)))⟩
  | .exportAll _ name _, _, _, _, _, h => by
    obtain ⟨rfl, rfl⟩ := yields_pure.1 h
    exact ⟨[], .node (.keep (.append (.ofIdent? (fun _ => rfl) name) (.site rfl .nil)))⟩
  | .exportNames _ specs _, _, _, _, _, h => by
    obtain ⟨rfl, rfl⟩ := yields_pure.1 h
    exact ⟨[], .node (.keep (.append (.ofExports _ specs) (.ofNodes _)))⟩
termination_by structural e => e

theorem Stmt.turns? : ∀ (st : Option Stmt) {s p st' p'}, Yields (stmt? o s st) p st' p' →
    ∃ ds, Turns o s p (Stmt.sites? st) (Stmt.parts? st) p' (Stmt.sites? st') (Stmt.parts? st') ds
  | none, _, _, _, _, h => by
    obtain ⟨rfl, rfl⟩ := yields_pure.1 h
    exact ⟨[], .nothing⟩
  | some st, _, _, _, _, h => by
    obtain ⟨st', hst, rfl⟩ := yields_return h
    exact st.turns hst
termination_by structural e => e

theorem Stmt.turnsList : ∀ (sts : List Stmt) {s p sts' p'}, Yields (stmts o s sts) p sts' p' →
    ∃ ds, Turns o s p (Stmt.sitesList sts) (Stmt.partsList sts) p' (Stmt.sitesList sts')
      (Stmt.partsList sts') ds
  | [], _, _, _, _, h => by
    obtain ⟨rfl, rfl⟩ := yields_pure.1 h
    exact ⟨[], .nothing⟩
  | st :: sts, _, _, _, _, h => by
    obtain ⟨st', p₁, hst, h⟩ := yields_bind.1 h
    obtain ⟨sts', hsts, rfl⟩ := yields_return h
    obtain ⟨ds, hst⟩ := st.turns hst
    obtain ⟨ds', hsts⟩ := Stmt.turnsList sts hsts
    exact ⟨_, hst.append hsts⟩
termination_by structural e => e

end

end LabelHooks
