import LabelHooks.Proofs.Coverage
import LabelHooks.Proofs.Outcomes
import LabelHooks.Proofs.SiteNodes

/-!
What the pass does to the sites and to the parts of a program, in the order in which it visits
them.
-/

namespace LabelHooks
set_option autoImplicit true

open Pass

namespace Expr

def functionMark? : Expr → Option Mark
  | .arrow m _ _ _ => some m
  | .function _ f => some f.mark
  | _ => none

end Expr

namespace Options

def declared? (o : Options) (label : Text) : Stmt → Option Ident
  | .expr _ (.assign _ .set (.ident target) _) =>
    if o.classify label = .unmatched then none else some target
  | _ => none

def watched? (o : Options) (label : Text) (body : Stmt) : Option Mark :=
  if o.classify label = .watch then
    match body with
    | .expr _ (.assign _ _ _ f) | .expr _ f => f.functionMark?
    | _ => none
  else none

end Options

namespace Site

def declared? (o : Options) : Site → Option Ident
  | .label i body => o.declared? i.name body
  | _ => none

def watched? (o : Options) : Site → Option Mark
  | .label i body => o.watched? i.name body
  | _ => none

def isPlain : Site → Bool
  | .node _ | .use _ => true
  | _ => false

def isLabel : Site → Bool
  | .label _ _ => true
  | .node _ | .use _ | .bind _ _ | .call _ _ _ | .share _ | .stray _ => false

end Site

namespace Sites

def LabelFree (xs : Sites) : Prop := ∀ x ∈ xs.flat, x.isLabel = false

namespace LabelFree

theorem nil : LabelFree .nil := fun _ h => nomatch h

theorem append {xs ys : Sites} (hx : xs.LabelFree) (hy : ys.LabelFree) : (xs ++ ys).LabelFree := by
  simp only [LabelFree, flat_append, List.forall_mem_append]
  exact ⟨hx, hy⟩

theorem site (hx : x.isLabel = false) (h : xs.LabelFree) : LabelFree (.site x xs) :=
  List.forall_mem_cons.2 ⟨hx, h⟩

theorem hoist (hx : xs.LabelFree) (hy : ys.LabelFree) : LabelFree (.hoist xs ys) :=
  List.forall_mem_append.2 ⟨hx, hy⟩

theorem ofNodes (ns : List Node) : (Sites.ofNodes ns).LabelFree := by
  induction ns with
  | nil => exact nil
  | cons n ns ih => exact .site rfl ih

theorem ofIdent? (h : ∀ i, (f i).isLabel = false) (i : Option Ident) :
    (Sites.ofIdent? f i).LabelFree := by
  cases i with
  | none => exact nil
  | some i => exact .site (h i) nil

theorem ofCall (c : Expr) (as : List Expr) : (Sites.ofCall c as).LabelFree := by
  unfold Sites.ofCall
  split
  · exact .site rfl nil
  · exact nil

theorem ofImports (specs : List ImportSpec) : (Sites.ofImports specs).LabelFree := by
  induction specs with
  | nil => exact nil
  | cons spec specs ih =>
    cases spec with
    | named => exact .site rfl (.site rfl (.site rfl ih))
    | default | star => exact .site rfl (.site rfl ih)

theorem ofExports (used : Bool) (specs : List ExportSpec) :
    (Sites.ofExports used specs).LabelFree := by
  induction specs with
  | nil => exact nil
  | cons spec specs ih =>
    refine .site rfl (.site ?_ (.site rfl ih))
    cases used <;> rfl

end LabelFree
end Sites

def Part.Role.Kept (o : Options) : Part.Role → Prop
  | .label l => o.classify l.name = .unmatched
  | .mutation _ => False
  | .plain | .suspension _ | .arrow _ | .function => True

open Parts (above)

/-- `Rewrites o s p xs ps p' ys qs ds`: the pass turns sites `xs` of scope `s` into `ys`, the parts
`ps` that they stand for into `qs`, and its state from `p` into `p'`; on the way it declares the
names `ds` in `s`. -/
inductive Rewrites (o : Options) :
    ScopeId → PassState → Sites → Parts → PassState → Sites → Parts → List Text → Prop
  | keep (h : xs.LabelFree) : Rewrites o s p xs .nil p xs .nil []
  /-- Parts that the pass does not look at. Unless they are words, there may be labels inside. -/
  | hide (h : ∀ x ∈ xs.flat, x.isLabel = true → ∃ y ∈ ps.flat, y.isWord = false) :
    Rewrites o s p xs (.skip ps .nil) p xs (.skip ps .nil) []
  | append (hx : Rewrites o s p xs ps p₁ xs' qs ds) (hy : Rewrites o s p₁ ys ps' p₂ ys' qs' ds') :
    Rewrites o s p (xs ++ ys) (ps ++ ps') p₂ (xs' ++ ys') (qs ++ qs') (ds ++ ds')
  | hoist (hx : Rewrites o s p xs ps p' xs' qs []) :
    Rewrites o s p (.hoist xs .nil) ps p' (.hoist xs' .nil) qs []
  | scope (hx : Rewrites o ((p.table.scopeOf? n.mark).getD s) p xs ps p' xs' qs ds) :
    Rewrites o s p (.scope k n xs .nil) ps p' (.scope k n xs' .nil) qs []
  | part (hx : y.role = x.role) (hk : x.role.Kept o) (h : Rewrites o s p xs ps p' ys qs ds) :
    Rewrites o s p xs (above x ps) p' ys (above y qs) ds
  /-- Only what has all that matters is said to be there before and after. -/
  | recast (hp : ps'.Covers ps) (hq : qs.Covers qs') (h : Rewrites o s p xs ps p' ys qs ds) :
    Rewrites o s p xs ps' p' ys qs' ds
  | drop (hx : x.isPlain = true) : Rewrites o s p (.site x .nil) .nil p .nil .nil []
  | add (hx : x.isPlain = true) (hn : ∀ n ∈ x.nodes, n.mark.id = none) :
    Rewrites o s p .nil .nil p (.site x .nil) .nil []
  /-- A node that takes the place of another. -/
  | renode (hm : n'.mark = n.mark) :
    Rewrites o s p (.site (.node n) .nil) .nil p (.site (.node n') .nil) .nil []
  | relabel (h : o.classify i.name = .unmatched) :
    Rewrites o s p (.site (.label i b) .nil) .nil p (.site (.label i b') .nil) .nil []
  /-- Nothing is said about the sites of a member in a binding pattern. -/
  | stray (hx : x.isMember = true) (h : Rewrites o s p xs ps p' ys qs ds) :
    Rewrites o s p (.site x .nil) ps p' (.site y .nil) qs []
  /-- The state function is called with what was there before. -/
  | call (hm : ∃ n ∈ xs.nodes, n.mark = m) (hf : (factory o.stateFactory span).head = .name f)
    (hx : Rewrites o s p xs ps p' ys qs ds) :
    Rewrites o s p xs ps p' (.site (.call f m q) ys) qs ds
  | note (h : p.Same p') : Rewrites o s p .nil .nil p' .nil .nil []
  /-- A new block shares the scope of its function. -/
  | share (span : Span) : Rewrites o s p .nil .nil (p.marked (p.table.bind (p.newMark span) s))
      (.site (.share (p.newMark span)) .nil) .nil []
  | state (hd : o.declared? l.name body = some target) (hpre : ∀ x ∈ pre, x.isPlain = true)
    (hy : Yields (declareState target s span) p b p') (hm : modifier.name = b.modifier.name)
    (hi : modifier.mark.id = none) (hl : o.classify l.name = .state) :
    Rewrites o s p (.site (.label l body) (.ofList pre)) .nil p'
      (.site (.bind .const b.ident) (.site (.bind .const modifier) .nil)) .nil
      [target.name, modifier.name]
  | memo (hd : o.declared? l.name body = some target) (hn : ident.name = target.name)
    (hi : ident.mark.id = none) (hx : Rewrites o s p (.site (.label l body) xs) ps p' ys qs ds) :
    Rewrites o s p (.site (.label l body) xs) ps
      { p' with table := p'.table.declare s target.name .const (some ident) }
      (.site (.bind .const ident) ys) qs (ds ++ [target.name])
  /-- A function under a watch label becomes an arrow without parameters. -/
  | watch {params : List Ident} {inner : Body} (hw : o.watched? l.name body = some n.mark)
    (hpre : ∀ x ∈ pre, x.isPlain = true)
    (hy : Yields (openWatcher n.mark span s) p (m, i) p₁)
    (hx : Rewrites o i p₁ inner.sites inner.parts p₂ ys qs ds) (hf : y.role = .function) :
    Rewrites o s p
      (.site (.label l body) (.ofList pre ++ .scope .function n
        (.ofList (params.map (.bind .param)) ++ inner.sites) .nil)) (above x (ps ++ inner.parts))
      p₂ (.scope .function ⟨.arrowFunc, m, []⟩ ys .nil) (above y qs) []
  /-- A mutation of a name that finds no state. -/
  | miss (hb : p.done.bindings.reactive? p.table i.name s = none) (hx : x.role = .mutation i)
    (hy : y.role = .mutation i) (h : Rewrites o s p xs ps p' ys qs ds) :
    Rewrites o s p (.site (.use i) xs) (above x ps) p' (.site (.use i) ys) (above y qs) ds
  /-- A mutation of a state, or a part of it, moves into an arrow function. -/
  | callback {moved : Expr} (hb : p.done.bindings.reactive? p.table q.name s = some b)
    (hy : Yields (openCallback b q moved s span) p c p₁) (hq : q.mark.id = none)
    (hx : Rewrites o c.scope p₁ moved.sites (moved.parts true) p₂ ys qs [])
    (hf : f.name = b.modifier.name) (hi : f.mark.id = none) (hp : ps.Covers (moved.parts true))
    (hs : ∀ k ∈ (moved.parts true).suspensions, (q.name, k) ∈ ps.holding Part.base?)
    (ha : y.role = .arrow c.mark) :
    Rewrites o s p moved.sites ps p₂
      (.site (.call f c.mark q) (.site (.use f)
        (.scope .function ⟨.arrowFunc, c.mark, []⟩ (.site (.bind .param q) ys) .nil)))
      (above y qs) []

namespace Rewrites

variable {o : Options} {s : ScopeId} {p p' p₁ : PassState} {xs ys : Sites} {ps qs : Parts}
  {ds : List Text}

theorem nothing : Rewrites o s p .nil .nil p .nil .nil [] := keep .nil

theorem site (h : Rewrites o s p xs ps p' ys qs ds) (hx : x.isLabel = false := by rfl) :
    Rewrites o s p (.site x xs) ps p' (.site x ys) qs ds :=
  append (keep (.site hx .nil) :
    Rewrites o s p (.site x .nil) .nil p (.site x .nil) .nil []) h

theorem adding (h : Rewrites o s p xs ps p' ys qs ds) (hx : x.isPlain = true)
    (hn : ∀ n ∈ x.nodes, n.mark.id = none) : Rewrites o s p xs ps p' (.site x ys) qs ds :=
  append (add hx hn) h

theorem addingNode (h : Rewrites o s p xs ps p' ys qs ds) (hn : n.mark.id = none) :
    Rewrites o s p xs ps p' (.site (.node n) ys) qs ds :=
  h.adding rfl (by simpa [Site.nodes] using hn)

theorem dropping (h : Rewrites o s p xs ps p' ys qs ds) (hx : x.isPlain = true) :
    Rewrites o s p (.site x xs) ps p' ys qs ds :=
  append (drop hx : Rewrites o s p (.site x .nil) .nil p .nil .nil []) h

theorem renoding (h : Rewrites o s p xs ps p' ys qs ds) (hm : r.mark = n.mark) :
    Rewrites o s p (.site (.node n) xs) ps p' (.site (.node r) ys) qs ds :=
  append (renode hm :
    Rewrites o s p (.site (.node n) .nil) .nil p (.site (.node r) .nil) .nil []) h

theorem skipping (h : Rewrites o s p xs ps p' ys qs ds) (unseen : Parts) :
    Rewrites o s p xs (.skip unseen .nil ++ ps) p' ys (.skip unseen .nil ++ qs) ds :=
  append (hide fun _ h => nomatch h :
    Rewrites o s p .nil (.skip unseen .nil) p .nil (.skip unseen .nil) []) h

theorem noting (h : Rewrites o s p xs ps p₁ ys qs ds) (hs : p₁.Same p') :
    Rewrites o s p xs ps p' ys qs ds := by
  have := append h (note hs)
  rwa [Sites.append_nil, Sites.append_nil, List.append_nil, Parts.append_nil,
    Parts.append_nil] at this

theorem ofCallback (moved : Expr) (body : Body)
    (hb : p.done.bindings.reactive? p.table q.name s = some b) (hq : q.mark.id = none)
    (hc : Yields (openCallback b q moved s span) p c p₁)
    (hx : Rewrites o c.scope p₁ moved.sites (moved.parts true) p₂ body.sites body.parts [])
    (hs : p₂.Same p') (hps : ps.Covers (moved.parts true))
    (hbase : ∀ k ∈ (moved.parts true).suspensions, (q.name, k) ∈ ps.holding Part.base?) :
    Rewrites o s p moved.sites ps p' (c.call body).sites ((c.call body).parts true) [] := by
  have hcall := callback hb hc hq hx (f := .ofName b.modifier.name c.mark.span)
    (y := .expr (.arrow c.mark false [.ident q] body)) rfl rfl hps hbase rfl
  obtain ⟨rfl, -⟩ := yields_openCallback hc
  refine .recast (.refl _) ?_ ((hcall.addingNode (n := ⟨.callExpr, .ofSpan span, []⟩)
    rfl).noting hs)
  have hword : Parts.Covers .nil (Expr.partsList false [.ident q]) :=
    .append (.ident q) (.nil _)
  refine .plain (.before (.after (.inside (.before (.refl _) hword) _) (.nil _)) ?_) rfl rfl
  exact .plain (.nil _) rfl rfl

theorem ofMember (hc : Yields (memberCallback? o mutation x s) p c p₁)
    (hx : Rewrites o (insideOf c s) p₁ mutation.sites (mutation.parts true) p₂ mutation'.sites
      (mutation'.parts true) []) (he : Yields (finishMember c mutation') p₂ e p')
    (hh : mutation'.head = .other)
    (hbase : ∀ base, x.rootIdent? = some base → ∀ k ∈ (mutation.parts true).suspensions,
      (base.name, k) ∈ (mutation.parts true).holding Part.base?) :
    Rewrites o s p mutation.sites (mutation.parts true) p' e.sites (e.parts true) [] ∧
      e.head = .other := by
  obtain ⟨rfl, rfl, rfl⟩ | ⟨cb, block, rfl, hs, rfl⟩ := yields_finishMember he
  · obtain ⟨-, rfl⟩ | ⟨_, _, _, _, -, -, -, hsome, -⟩ := yields_memberCallback? hc
    · exact ⟨hx, hh⟩
    · cases hsome
  · obtain ⟨hnone, -⟩ | ⟨base, b, c, p₃, hroot, hb, hopen, hsome, rfl⟩ := yields_memberCallback? hc
    · cases hnone
    · cases hsome
      refine ⟨ofCallback _ _ (q := .ofName base.name base.mark.span) hb rfl hopen ?_ hs (.refl _)
        (hbase base hroot), rfl⟩
      have hbody := append (share mutation.span) (hx.addingNode
        (n := ⟨.exprStmt, .ofSpan mutation.span, []⟩) rfl)
      rw [← Sites.append_nil (.site (.node ⟨.exprStmt, .ofSpan mutation.span, []⟩) _)] at hbody
      exact .recast (.refl _) (.after (.plain (.refl _) rfl rfl) (.nil _)) hbody

theorem updated (h : Rewrites o s p xs ps p' (Expr.sites right) (right.parts true) ds) (m : Mark)
    (op : AssignOp) (i : Ident) : Rewrites o s p xs ps p' (Pass.updated m op i right).sites
      ((Pass.updated m op i right).parts true) ds := by
  unfold Pass.updated
  split
  · exact h
  · refine .recast (.refl _) (.plain (.before (.refl _) (.plain (.nil _) rfl rfl)) rfl rfl) ?_
    exact .addingNode (h.adding (x := .use (.ofName i.name i.mark.span)) rfl
      (by simp [Site.nodes, Node.ofIdent, Ident.ofName, Mark.ofSpan])) rfl

theorem stepped (m : Mark) (op : UpdateOp) (i : Ident) :
    Rewrites o s p .nil .nil p (Pass.stepped m op i).sites
      ((Pass.stepped m op i).parts true) [] := by
  have hcovers : Parts.Covers .nil ((Pass.stepped m op i).parts true) :=
    .plain (.before (.plain (.nil _) rfl rfl) (.plain (.nil _) rfl rfl)) rfl rfl
  refine .recast (.refl _) hcovers ?_
  exact .addingNode (.adding (x := .use (.ofName i.name i.mark.span)) (.addingNode nothing rfl) rfl
    (by simp [Site.nodes, Node.ofIdent, Ident.ofName, Mark.ofSpan])) rfl

end Rewrites

namespace Registry

variable {r : Registry} {t : Table} {name : Text} {s : ScopeId} {b : Reactive}

theorem better_eq_some (h : better t name s best a = some b) :
    best = some b ∨ (b = a ∧ a.name = name ∧ t.encloses a.scope s = true) := by
  unfold better at h
  split at h
  · next ha =>
    simp only [Bool.and_eq_true, decide_eq_true_eq] at ha
    split at h
    · cases h
      exact .inr ⟨rfl, ha⟩
    · split at h
      · cases h
        exact .inr ⟨rfl, ha⟩
      · exact .inl h
  · exact .inl h

theorem foldl_better_eq_some (h : r.foldl (better t name s) best = some b) :
    best = some b ∨ (b ∈ r ∧ b.name = name ∧ t.encloses b.scope s = true) := by
  induction r generalizing best with
  | nil => exact .inl h
  | cons a r ih =>
    obtain hbest | ⟨hmem, hb⟩ := ih h
    · obtain hbest | ⟨rfl, hb⟩ := better_eq_some hbest
      · exact .inl hbest
      · exact .inr ⟨List.mem_cons_self, hb⟩
    · exact .inr ⟨List.mem_cons_of_mem _ hmem, hb⟩

theorem of_reactive? (h : r.reactive? t name s = some b) :
    b ∈ r ∧ b.name = name ∧ t.encloses b.scope s = true := by
  have hl : r.lookup? t name s = some b := (Option.filter_eq_some_iff.1 h).1
  obtain hnone | hb := foldl_better_eq_some hl
  · cases hnone
  · exact hb

end Registry

theorem Pass.yields_return {α β : Type} {x : Pass α} {f : α → β} {p p' : PassState} {b : β}
    (h : Yields (do return f (← x)) p b p') : ∃ a, Yields x p a p' ∧ f a = b := by
  obtain ⟨a, p₁, hx, h⟩ := yields_bind.1 h
  obtain ⟨rfl, rfl⟩ := yields_pure.1 h
  exact ⟨a, hx, rfl⟩

namespace Expr

theorem mem_flat_parts {e : Expr} (seen : Bool) (h : e ≠ .hole) :
    .expr e ∈ (e.parts seen).flat := by
  cases e with
  | hole => exact absurd rfl h
  | _ => cases seen <;> exact List.mem_cons_self

theorem exists_not_word_of_label {e : Expr} (seen : Bool) (h : z ∈ e.sites.flat)
    (hz : z.isLabel = true) : ∃ y ∈ (e.parts seen).flat, y.isWord = false := by
  cases e with
  | hole => cases h
  | ident | literal =>
    obtain rfl := List.mem_singleton.1 h
    cases hz
  | _ => exact ⟨_, mem_flat_parts seen (by simp), rfl⟩

theorem mem_holding_base (hx : x.base? = some name) (hk : k ∈ ps.suspensions) :
    (name, k) ∈ (above x ps).holding Part.base? := by
  simp [Parts.holding_above, hx, hk]

end Expr

namespace Sites

theorem ofList_append (l l' : List Site) : ofList (l ++ l') = ofList l ++ ofList l' := by
  induction l with
  | nil => rfl
  | cons x l ih => rw [List.cons_append, ofList, ih]; rfl

theorem bindingList_idents (k : BindingKind) (is : List Ident) :
    Expr.bindingList k (is.map .ident) = ofList (is.map (.bind k)) := by
  induction is with
  | nil => rfl
  | cons i is ih =>
    rw [List.map_cons, Expr.bindingList, ih]
    rfl

end Sites

namespace Expr

/-- Generated code that opens no scope, declares nothing and has nothing to be rewritten. -/
structure Extra (e : Expr) : Prop where
  sites : ∃ zs, e.sites = .ofList zs ∧ ∀ z ∈ zs, z.isPlain = true ∧ ∀ n ∈ z.nodes, n.mark.id = none
  parts : Parts.Covers .nil (e.parts true)

theorem Extra.ofName (name : Text) (span : Span) : (Expr.ofName name span).Extra where
  sites := ⟨[.use (.ofName name span)], rfl, by
    simp [Site.isPlain, Site.nodes, Node.ofIdent, Ident.ofName, Mark.ofSpan]⟩
  parts := .plain (.nil _) rfl rfl

theorem Extra.member {x : Expr} (hx : x.Extra) (name : Text) (span : Span) :
    (member (.ofSpan span) x (.ofName name span) false false).Extra where
  sites := by
    obtain ⟨zs, hzs, hextra⟩ := hx.sites
    refine ⟨.node ⟨.memberExpr, .ofSpan span, []⟩ ::
      (zs ++ [.node (.ofIdent (.ofName name span))]), ?_, ?_⟩
    · rw [Sites.ofList, Sites.ofList_append, ← hzs]
      rfl
    · simp only [List.mem_cons, List.mem_append, List.not_mem_nil, or_false]
      rintro z (rfl | hz | rfl)
      · simp [Site.isPlain, Site.nodes, Mark.ofSpan]
      · exact hextra z hz
      · simp [Site.isPlain, Site.nodes, Node.ofIdent, Ident.ofName, Mark.ofSpan]
  parts := .plain (.append hx.parts (.word rfl)) rfl rfl

theorem extra_extend {span : Span} {path : Option Expr} (h : ∀ e, path = some e → e.Extra) :
    ∀ e, extend span path part = some e → e.Extra := by
  intro e he
  unfold extend at he
  split at he
  · exact h e he
  · split at he
    · cases he
      exact .ofName part span
    · next x =>
      cases he
      exact (h x rfl).member part span

theorem extra_foldl_extend {span : Span} {path : Option Expr} {parts : List Text}
    (h : ∀ e, path = some e → e.Extra) :
    ∀ e, parts.foldl (extend span) path = some e → e.Extra := by
  induction parts generalizing path with
  | nil => exact h
  | cons part parts ih => exact ih (extra_extend h)

theorem extra_factory (path : Text) (span : Span) : (factory path span).Extra := by
  unfold factory
  cases h : ofPath? path span with
  | none => exact ⟨⟨[], rfl, by simp⟩, .nil _⟩
  | some e => exact extra_foldl_extend (by simp) e h

theorem extra_names (span : Span) (is : List Ident) :
    (array (.ofSpan span) (is.map fun i => .ofName i.name i.mark.span)).Extra := by
  refine ⟨⟨.node ⟨.arrayLit, .ofSpan span, []⟩ ::
    is.map fun i => .use (.ofName i.name i.mark.span), ?_, ?_⟩, .plain ?_ rfl rfl⟩
  · have hlist : sitesList (is.map fun i => .ofName i.name i.mark.span) =
        .ofList (is.map fun i => .use (.ofName i.name i.mark.span)) := by
      induction is with
      | nil => rfl
      | cons i is ih =>
        rw [List.map_cons, sitesList, ih]
        rfl
    rw [Sites.ofList, ← hlist]
    rfl
  · simp only [List.mem_cons, List.mem_map]
    rintro z (rfl | ⟨i, -, rfl⟩)
    · simp [Site.isPlain, Site.nodes, Mark.ofSpan]
    · simp [Site.isPlain, Site.nodes, Node.ofIdent, Ident.ofName, Mark.ofSpan]
  · induction is with
    | nil => exact .nil _
    | cons i is ih => exact .append (Extra.ofName i.name i.mark.span).parts ih

end Expr

namespace Rewrites

variable {o : Options} {s : ScopeId} {p p' : PassState} {xs ys : Sites} {ps qs : Parts}
  {ds : List Text} {e e' : Expr}

theorem extra (he : e.Extra) (h : Rewrites o s p xs ps p' ys qs ds) :
    Rewrites o s p xs ps p' (e.sites ++ ys) qs ds := by
  obtain ⟨zs, hzs, hextra⟩ := he.sites
  rw [hzs]
  clear hzs
  induction zs with
  | nil => exact h
  | cons z zs ih =>
    obtain ⟨hz, hextra⟩ := List.forall_mem_cons.1 hextra
    exact (ih hextra).adding hz.1 hz.2

theorem extraAfter (he : e.Extra) (h : Rewrites o s p xs ps p' ys qs ds) :
    Rewrites o s p xs ps p' (ys ++ e.sites) qs ds := by
  have hextra : Rewrites o s p' .nil .nil p' (e.sites ++ .nil) .nil [] := extra he .nothing
  rw [Sites.append_nil] at hextra
  have := append h hextra
  rwa [Sites.append_nil, List.append_nil, Parts.append_nil, Parts.append_nil] at this

theorem calling (span : Span) (hh : e'.head = e.head)
    (h : Rewrites o s p e.sites ps p' ys qs ds) :
    Rewrites o s p e.sites ps p' (Sites.ofCall (factory o.stateFactory span) [e'] ++ ys) qs ds := by
  unfold Sites.ofCall
  split
  · next f m q hf hargs =>
    rw [List.map_singleton, hh] at hargs
    exact call (Expr.exists_node_of_head (List.cons.inj hargs).1) hf h
  · exact h

end Rewrites

theorem Sites.ofCall_pair (c a b : Expr) : Sites.ofCall c [a, b] = .nil := by
  unfold Sites.ofCall
  split
  · next hargs => simp at hargs
  · rfl

theorem Expr.sites_callOf (f e : Expr) (span : Span) :
    (Expr.callOf f [e] span).sites =
      .site (.node ⟨.callExpr, .ofSpan span, []⟩) (Sites.ofCall f [e] ++ (f.sites ++ e.sites)) := by
  simp only [Expr.callOf, Expr.sites, Expr.sitesList, Sites.append_nil, Sites.append_assoc]

theorem Expr.sites_callOf_pair (f a b : Expr) (span : Span) :
    (Expr.callOf f [a, b] span).sites =
      .site (.node ⟨.callExpr, .ofSpan span, []⟩) (f.sites ++ (a.sites ++ b.sites)) := by
  simp only [Expr.callOf, Expr.sites, Expr.sitesList, Sites.append_nil, Sites.ofCall_pair,
    Sites.nil_append]

theorem VarDecl.sites_const (target init : Expr) (m : Mark) :
    (VarDecl.const target init m).sites =
      .site (.node ⟨.varDecl, m, []⟩) (.site (.node ⟨.declarator, .ofSpan m.span, []⟩)
        (target.binding .const ++ init.sites)) := by
  simp only [VarDecl.const, VarDecl.sites, Declarator.sitesList, Sites.ofDecl, Expr.sites?,
    Sites.append_nil]
  rfl

namespace Parts.Covers

theorem callOf {qs : Parts} {args : List Expr} (hf : f.Extra)
    (h : qs.Covers (Expr.partsList true args)) (span : Span) :
    qs.Covers ((Expr.callOf f args span).parts true) :=
  .plain (h.before hf.parts) rfl rfl

theorem const {qs : Parts} (ht : Covers .nil (target.parts false)) (h : qs.Covers (init.parts true))
    (m : Mark) : qs.Covers (Stmt.varDecl (.const target init m)).parts :=
  .plain (.after (h.before ht) (.nil _)) rfl rfl

end Parts.Covers

namespace Rewrites

variable {o : Options} {x : Expr} {l : Ident} {s : ScopeId} {p p' : PassState}

theorem watchCall {w array : Expr} {pre : List Site}
    (h : Rewrites o s p (.site (.label l body) (.ofList pre ++ x.sites)) ps p' w.sites
      (w.parts true) []) (ha : array.Extra) (path : Text) (m : Mark) (span : Span) :
    Rewrites o s p (.site (.label l body) (.ofList pre ++ x.sites)) ps p'
      (Expr.callOf (factory path m.span) [w, array] span).sites
      ((Expr.callOf (factory path m.span) [w, array] span).parts true) [] := by
  rw [Expr.sites_callOf_pair]
  refine .recast (.refl _) (.callOf (Expr.extra_factory _ _) ?_ _)
    (((h.extraAfter ha).extra (Expr.extra_factory path m.span)).addingNode rfl)
  exact .after (.refl _) (.append ha.parts (.nil _))

theorem bindings_subset (h : Rewrites o s p xs ps p' ys qs ds) :
    ∀ b ∈ p.done.bindings, b ∈ p'.done.bindings := by
  induction h with
  | keep | hide | drop | add | renode | relabel | share => exact fun _ hb => hb
  | note hs => exact fun _ hb => hs.bindings ▸ hb
  | append _ _ ihx ihy => exact fun b hb => ihy b (ihx b hb)
  | hoist _ ih | scope _ ih | part _ _ _ ih | recast _ _ _ ih | stray _ _ ih | call _ _ _ ih
  | memo _ _ _ _ ih | miss _ _ _ _ ih => exact ih
  | state _ _ hy =>
    obtain ⟨name, -, -, rfl⟩ := yields_declareState hy
    exact fun b hb => List.mem_append_left _ hb
  | watch _ _ hy _ _ ih =>
    intro b hb
    exact ih b (done_openWatcher hy ▸ hb)
  | callback _ hy _ _ _ _ _ _ _ ih =>
    obtain ⟨-, rfl⟩ := yields_openCallback hy
    exact ih

end Rewrites
end LabelHooks
