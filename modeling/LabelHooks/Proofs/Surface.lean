import LabelHooks.Proofs.Placement

/-!
What sites show to the scope around them: the scopes they open there and the kinds of names they
declare there. Expressions declare nothing and open functions only, and nothing but a function
declares parameters.
-/

namespace LabelHooks
set_option autoImplicit true

namespace Sites

def tops (t : Table) : Sites → List ScopeId
  | .nil => []
  | .site _ rest => rest.tops t
  | .hoist inner rest => inner.tops t ++ rest.tops t
  | .scope _ n _ rest => (t.scopeOf? n.mark).toList ++ rest.tops t

@[simp] theorem tops_append (t : Table) (xs ys : Sites) :
    (xs ++ ys).tops t = xs.tops t ++ ys.tops t := by
  induction xs with
  | nil => rfl
  | site x rest ih => simp only [site_append, tops, ih]
  | hoist inner rest _ ih => simp only [hoist_append, tops, ih, List.append_assoc]
  | scope kind n inner rest _ ih => simp only [scope_append, tops, ih, List.append_assoc]

theorem tops_ofList (t : Table) (l : List Site) : (ofList l).tops t = [] := by
  induction l with
  | nil => rfl
  | cons x l ih => exact ih

end Sites

namespace Table

variable {t : Table} {n : Node} {c : ScopeId}

@[simp] theorem outermostInList_append (os os' : List Outline) :
    t.outermostInList (os ++ os') = t.outermostInList os ++ t.outermostInList os' := by
  induction os with
  | nil => rfl
  | cons o os ih => simp only [List.cons_append, outermostInList, ih, List.append_assoc]

theorem outermost_above_owner (h : t.scopeOf? n.mark = some c) (os : List Outline) :
    t.outermostInList (Outline.above n os) = [c] := by
  simp [Outline.above, outermostInList, outermostIn, h]

theorem outermost_above (h : t.scopeOf? n.mark = none) (os : List Outline) :
    t.outermostInList (Outline.above n os) = t.outermostInList os := by
  simp [Outline.above, outermostInList, outermostIn, h]

mutual

theorem outermostIn_eq_nil : ∀ (o : Outline),
    (∀ n ∈ o.walk (fun _ => true), t.scopeOf? n.mark = none) → t.outermostIn o = []
  | .mk n inner, h => by
    have hn := h n (by simp [Outline.walk])
    simp only [outermostIn, hn]
    exact outermostInList_eq_nil inner fun m hm => h m (by simp [Outline.walk, hm])

theorem outermostInList_eq_nil : ∀ (os : List Outline),
    (∀ n ∈ Outline.walkList (fun _ => true) os, t.scopeOf? n.mark = none) →
    t.outermostInList os = []
  | [], _ => rfl
  | o :: os, h => by
    rw [Outline.walkList, List.forall_mem_append] at h
    rw [outermostInList, outermostIn_eq_nil o h.1, outermostInList_eq_nil os h.2]
    rfl

end

end Table

namespace Sites

def Outermost (t : Table) (xs : Sites) (os : List Outline) : Prop :=
  ∀ ⦃ok : ScopeId → Scope → Sites → Prop⦄ ⦃s : ScopeId⦄, xs.Placed ok t s →
    t.outermostInList os = xs.tops t

namespace Outermost

variable {t : Table} {xs ys : Sites} {os os' : List Outline} {n : Node} {k : ScopeKind}

theorem nil : Outermost t .nil [] := fun _ _ _ => rfl

theorem append (hx : Outermost t xs os) (hy : Outermost t ys os') :
    Outermost t (xs ++ ys) (os ++ os') := by
  intro ok s h
  obtain ⟨hpx, hpy⟩ := placed_append.1 h
  rw [tops_append, Table.outermostInList_append, hx hpx, hy hpy]

theorem node (hx : Outermost t xs os) : Outermost t (.site (.node n) xs) (Outline.above n os) := by
  rintro ok s ⟨hn, h⟩
  rw [Table.outermost_above (hn n List.mem_cons_self)]
  exact hx h

theorem scope (os : List Outline) : Outermost t (.scope k n xs .nil) (Outline.above n os) := by
  rintro ok s ⟨⟨c, sc, hopen, -, -⟩, -⟩
  rw [Table.outermost_above_owner hopen.owner, tops, hopen.owner]
  rfl

theorem leaf (x : Site) (hx : ∀ s, x.Placed t s → ∀ m ∈ x.nodes, t.scopeOf? m.mark = none)
    (hn : x.nodes = [n]) : Outermost t (.site x .nil) [Outline.leaf n] := by
  rintro ok s ⟨hp, -⟩
  exact Table.outermost_above (hx s hp n (by simp [hn])) []

theorem use (i : Ident) : Outermost t (.site (.use i) .nil) [Outline.ofIdent i] :=
  leaf (.use i) (fun _ hp => hp) rfl

theorem words (os : List Outline) :
    Outermost t (ofNodes (Outline.walkList (fun _ => true) os)) os := by
  intro ok s h
  rw [ofNodes, tops_ofList]
  refine Table.outermostInList_eq_nil os ?_
  generalize Outline.walkList (fun _ => true) os = ns at h ⊢
  induction ns with
  | nil => exact List.forall_mem_nil _
  | cons n ns ih => exact List.forall_mem_cons.2 ⟨h.1 n List.mem_cons_self, ih h.2⟩

theorem noCall (c : Expr) (as : List Expr) : Outermost t (ofCall c as) [] := by
  intro ok s _
  unfold ofCall
  split <;> rfl

end Outermost

end Sites

section

open Sites Sites.Outermost

variable {t : Table}

mutual

theorem Expr.outermost : ∀ e : Expr, Outermost t e.sites e.outline
  | .hole => nil
  | .ident i => use i
  | .literal _ | .this _ | .super _ => node nil
  | .template _ tag _ es => node ((Expr.outermost? tag).append (Expr.outermostList es))
  | .array _ es | .object _ es | .seq _ es | .arrayPattern _ es | .objectPattern _ es =>
    node (Expr.outermostList es)
  | .property _ shape key value => by
    have hk : Outermost t (if shape.computed then key.sites else ofNodes key.nodes)
        key.outline := by
      split
      · exact key.outermost
      · exact words _
    exact node (hk.append value.outermost)
  | .spread _ x | .unary _ _ x | .update _ _ _ x | .await _ x | .rest _ x => node x.outermost
  | .function _ (.mk _ _ _ _ _ _) => node (scope _)
  | .arrow _ _ _ _ => scope _
  | .binary _ _ x y | .assign _ _ x y | .assignPattern _ x y =>
    node (x.outermost.append y.outermost)
  | .cond _ x y z => node ((x.outermost.append y.outermost).append z.outermost)
  | .call _ c as _ => node (((noCall c as).append c.outermost).append (Expr.outermostList as))
  | .new _ c as => node (c.outermost.append (Expr.outermostList as))
  | .member _ x p computed _ => by
    have hp : Outermost t (if computed then p.sites else ofNodes p.nodes) p.outline := by
      split
      · exact p.outermost
      · exact words _
    exact node (x.outermost.append hp)
  | .yield _ _ x => node (Expr.outermost? x)

theorem Expr.outermost? : ∀ e : Option Expr, Outermost t (Expr.sites? e) (Expr.outline? e)
  | none => nil
  | some e => e.outermost

theorem Expr.outermostList : ∀ es : List Expr,
    Outermost t (Expr.sitesList es) (Expr.outlineList es)
  | [] => nil
  | e :: es => e.outermost.append (Expr.outermostList es)

end

end

namespace Site

def isInert : Site → Bool
  | .node _ | .use _ | .call _ _ _ => true
  | .bind _ _ | .label _ _ | .share _ | .stray _ => false

end Site

namespace Sites

def Inert : Sites → Prop
  | .nil => True
  | .site x rest => x.isInert = true ∧ rest.Inert
  | .hoist _ _ => False
  | .scope k _ _ rest => k = .function ∧ rest.Inert

namespace Inert

variable {xs ys : Sites} {x : Site}

theorem nil : Inert .nil := trivial

theorem append (hx : xs.Inert) (hy : ys.Inert) : (xs ++ ys).Inert := by
  induction xs with
  | nil => exact hy
  | site x rest ih => exact ⟨hx.1, ih hx.2⟩
  | hoist inner rest _ _ => exact hx.elim
  | scope k n inner rest _ ih => exact ⟨hx.1, ih hx.2⟩

theorem node (n : Node) (hx : xs.Inert) : Inert (.site (.node n) xs) := ⟨rfl, hx⟩

theorem function (n : Node) (inner : Sites) : Inert (.scope .function n inner .nil) :=
  ⟨rfl, trivial⟩

theorem words (ns : List Node) : Inert (ofNodes ns) := by
  induction ns with
  | nil => exact nil
  | cons n ns ih => exact node n ih

theorem noCall (c : Expr) (as : List Expr) : Inert (ofCall c as) := by
  unfold ofCall
  split
  · exact ⟨rfl, trivial⟩
  · exact nil

end Inert

end Sites

section

open Sites Sites.Inert

mutual

theorem Expr.inert : ∀ e : Expr, e.sites.Inert
  | .hole => nil
  | .ident _ => ⟨rfl, trivial⟩
  | .literal _ | .this _ | .super _ => node _ nil
  | .template _ tag _ es => node _ ((Expr.inert? tag).append (Expr.inertList es))
  | .array _ es | .object _ es | .seq _ es | .arrayPattern _ es | .objectPattern _ es =>
    node _ (Expr.inertList es)
  | .property _ shape key value => by
    have hk : Inert (if shape.computed then key.sites else ofNodes key.nodes) := by
      split
      · exact key.inert
      · exact words _
    exact node _ (hk.append value.inert)
  | .spread _ x | .unary _ _ x | .update _ _ _ x | .await _ x | .rest _ x => node _ x.inert
  | .function _ (.mk _ _ _ _ _ _) => node _ (Inert.function _ _)
  | .arrow _ _ _ _ => Inert.function _ _
  | .binary _ _ x y | .assign _ _ x y | .assignPattern _ x y => node _ (x.inert.append y.inert)
  | .cond _ x y z => node _ ((x.inert.append y.inert).append z.inert)
  | .call _ c as _ => node _ (((noCall c as).append c.inert).append (Expr.inertList as))
  | .new _ c as => node _ (c.inert.append (Expr.inertList as))
  | .member _ x p computed _ => by
    have hp : Inert (if computed then p.sites else ofNodes p.nodes) := by
      split
      · exact p.inert
      · exact words _
    exact node _ (x.inert.append hp)
  | .yield _ _ x => node _ (Expr.inert? x)

theorem Expr.inert? : ∀ e : Option Expr, (Expr.sites? e).Inert
  | none => nil
  | some e => e.inert

theorem Expr.inertList : ∀ es : List Expr, (Expr.sitesList es).Inert
  | [] => nil
  | e :: es => e.inert.append (Expr.inertList es)

end

end

namespace Sites

def Declares (K : BindingKind → Prop) (xs : Sites) : Prop :=
  ∀ own far, ∀ d ∈ xs.decls own far, K d.kind

@[simp] theorem decls_append (own far : Bool) (xs ys : Sites) :
    (xs ++ ys).decls own far = xs.decls own far ++ ys.decls own far := by
  induction xs with
  | nil => rfl
  | site x rest ih => simp only [site_append, decls, ih, List.append_assoc]
  | hoist inner rest _ ih => simp only [hoist_append, decls, ih, List.append_assoc]
  | scope kind n inner rest _ ih => simp only [scope_append, decls, ih, List.append_assoc]

namespace Declares

variable {K : BindingKind → Prop} {xs ys : Sites} {x : Site}

theorem nil : Declares K .nil := fun _ _ _ h => nomatch h

theorem append (hx : Declares K xs) (hy : Declares K ys) : Declares K (xs ++ ys) := by
  intro own far d hd
  rw [decls_append, List.mem_append] at hd
  exact hd.elim (hx own far d) (hy own far d)

theorem site (h : ∀ d ∈ x.decl?, K d.kind) (hx : Declares K xs) : Declares K (.site x xs) := by
  intro own far d hd
  rw [decls, List.mem_append] at hd
  obtain hd | hd := hd
  · split at hd
    · exact h d (by simpa using hd)
    · cases hd
  · exact hx own far d hd

theorem other (h : x.decl? = none) (hx : Declares K xs) : Declares K (.site x xs) :=
  site (by simp [h]) hx

theorem declaration (h : K k) (i : Ident) : Declares K (.site (.bind k i) .nil) :=
  site (fun _ hd => Option.some.inj hd ▸ h) nil

theorem hoist (hx : Declares K xs) : Declares K (.hoist xs .nil) := by
  intro own far d hd
  rw [decls, List.mem_append] at hd
  obtain hd | hd := hd
  · exact hx far far d hd
  · cases hd

theorem scope (hx : Declares K xs) : Declares K (.scope k n xs .nil) := by
  intro own far d hd
  rw [decls, List.mem_append] at hd
  obtain hd | hd := hd
  · split at hd
    · cases hd
    · exact hx false far d hd
  · cases hd

theorem closed (n : Node) (xs : Sites) : Declares K (.scope .function n xs .nil) := by
  intro own far d hd
  cases hd

theorem words (ns : List Node) : Declares K (ofNodes ns) := by
  induction ns with
  | nil => exact nil
  | cons n ns ih => exact other rfl ih

theorem ofDecl (hx : Declares K xs) (k : DeclKind) : Declares K (ofDecl k xs) := by
  cases k with
  | var => exact hoist hx
  | let_ => exact hx
  | const => exact hx

theorem imports (h : K .import_) (specs : List ImportSpec) : Declares K (ofImports specs) := by
  induction specs with
  | nil => exact nil
  | cons spec specs ih =>
    cases spec with
    | named m imported binding => exact other rfl (other rfl ((declaration h _).append ih))
    | default m binding => exact other rfl ((declaration h _).append ih)
    | star m binding => exact other rfl ((declaration h _).append ih)

theorem exports (used : Bool) (specs : List ExportSpec) : Declares K (ofExports used specs) := by
  induction specs with
  | nil => exact nil
  | cons spec specs ih => cases used <;> exact other rfl (other rfl (other rfl ih))

end Declares

theorem Inert.declares (h : xs.Inert) : Declares K xs := by
  induction xs with
  | nil => exact .nil
  | site x rest ih =>
    refine .other ?_ (ih h.2)
    cases x with
    | node | use | call => rfl
    | bind | label | share | stray => cases h.1
  | hoist inner rest _ _ => exact h.elim
  | scope k n inner rest _ ih =>
    obtain ⟨rfl, h⟩ := h
    exact (Declares.closed n inner).append (ih h)

end Sites

section

open Sites Sites.Declares

variable {K : BindingKind → Prop}

theorem Expr.declares (e : Expr) : Declares K e.sites := e.inert.declares

theorem Expr.declares? : ∀ e : Option Expr, Declares K (Expr.sites? e)
  | none => nil
  | some e => e.declares

variable {k : BindingKind}

mutual

theorem Expr.declares_binding (hk : K k) : ∀ e : Expr, Declares K (e.binding k)
  | .hole => nil
  | .ident i => declaration hk i
  | .arrayPattern _ es | .objectPattern _ es => other rfl (Expr.declares_bindingList hk es)
  | .property _ shape key value => by
    have hkey : Declares K (if shape.computed then key.sites else ofNodes key.nodes) := by
      split
      · exact key.declares
      · exact words _
    exact other rfl (hkey.append (value.declares_binding hk))
  | .assignPattern _ x y => other rfl ((x.declares_binding hk).append y.declares)
  | .rest _ x => other rfl (x.declares_binding hk)
  | .literal _ | .this _ | .super _ | .template _ _ _ _ | .array _ _ | .object _ _ | .seq _ _
  | .spread _ _ | .unary _ _ _ | .update _ _ _ _ | .await _ _ | .function _ _ | .arrow _ _ _ _
  | .binary _ _ _ _ | .assign _ _ _ _ | .cond _ _ _ _ | .call _ _ _ _ | .new _ _ _
  | .member _ _ _ _ _ | .yield _ _ _ => other rfl nil

theorem Expr.declares_bindingList (hk : K k) : ∀ es : List Expr,
    Declares K (Expr.bindingList k es)
  | [] => nil
  | e :: es => (e.declares_binding hk).append (Expr.declares_bindingList hk es)

end

theorem Declarator.declaresList (hk : K k) (ds : List Declarator) :
    Declares K (Declarator.sitesList k ds) := by
  induction ds with
  | nil => exact nil
  | cons d ds ih =>
    cases d with
    | mk m target init =>
      exact other rfl (((target.declares_binding hk).append (Expr.declares? init)).append ih)

theorem VarDecl.declares (d : VarDecl) : Declares (· ≠ .param) d.sites := by
  cases d with
  | mk m kind ds =>
    have hds : Declares (· ≠ .param) (Declarator.sitesList (Analysis.declKind kind) ds) :=
      Declarator.declaresList (by cases kind <;> simp [Analysis.declKind]) ds
    exact other rfl (ofDecl hds kind)

theorem ForHead.declares (h : ForHead) : Declares (· ≠ .param) h.sites := by
  cases h with
  | decl d => exact d.declares
  | expr e => exact e.declares

theorem ForHead.declares? (h : Option ForHead) : Declares (· ≠ .param) (ForHead.sites? h) := by
  cases h with
  | none => exact nil
  | some h => exact h.declares

mutual

theorem Stmt.declares : ∀ st : Stmt, Declares (· ≠ .param) st.sites
  | .varDecl d => d.declares
  | .funcDecl _ (.mk _ none _ _ _ _) => other rfl (closed _ _)
  | .funcDecl _ (.mk _ (some i) _ _ _ _) =>
    other rfl ((declaration (by simp) i).append (closed _ _))
  | .expr _ x | .throw _ x | .exportValue _ x => other rfl x.declares
  | .block b => b.declares
  | .labeled _ _ body => other rfl (other rfl body.declares)
  | .ret _ x => other rfl (Expr.declares? x)
  | .ifElse _ test yes no =>
    other rfl ((test.declares.append yes.declares).append (Stmt.declares? no))
  | .forLoop _ init test post body =>
    scope ((((ForHead.declares? init).append (Expr.declares? test)).append
      (Expr.declares? post)).append body.declares)
  | .forIn _ left right body _ _ =>
    scope ((left.declares.append right.declares).append body.declares)
  | .whileLoop _ test body => other rfl (test.declares.append body.declares)
  | .doWhile _ body test => other rfl (body.declares.append test.declares)
  | .branch _ _ none => other rfl nil
  | .branch _ _ (some _) => other rfl (other rfl nil)
  | .tryCatch _ block handler finalizer =>
    other rfl ((block.declares.append (Catch.declares? handler)).append
      (Block.declares? finalizer))
  | .switch _ disc cases => disc.declares.append (scope (Case.declaresList cases))
  | .empty _ | .debugger _ => other rfl nil
  | .imports _ specs _ => other rfl ((hoist (imports (by simp) specs)).append (other rfl nil))
  | .exportDecl _ _ decl => other rfl decl.declares
  | .exportAll _ none _ => other rfl (other rfl nil)
  | .exportAll _ (some _) _ => other rfl (other rfl (other rfl nil))
  | .exportNames _ specs _ => other rfl ((exports _ specs).append (words _))

theorem Stmt.declares? : ∀ st : Option Stmt, Declares (· ≠ .param) (Stmt.sites? st)
  | none => nil
  | some st => st.declares

theorem Stmt.declaresList : ∀ sts : List Stmt, Declares (· ≠ .param) (Stmt.sitesList sts)
  | [] => nil
  | st :: sts => st.declares.append (Stmt.declaresList sts)

theorem Block.declares : ∀ b : Block, Declares (· ≠ .param) b.sites
  | .mk _ list => scope (Stmt.declaresList list)

theorem Block.declares? : ∀ b : Option Block, Declares (· ≠ .param) (Block.sites? b)
  | none => nil
  | some b => b.declares

theorem Block.declares_sharing : ∀ b : Block, Declares (· ≠ .param) b.sharing
  | .mk _ list => other rfl (Stmt.declaresList list)

theorem Catch.declares? : ∀ c : Option Catch, Declares (· ≠ .param) (Catch.sites? c)
  | none => nil
  | some (.mk _ none body) => scope (nil.append body.declares_sharing)
  | some (.mk _ (some param) body) =>
    scope ((param.declares_binding (by simp)).append body.declares_sharing)

theorem Case.declaresList : ∀ cs : List Case, Declares (· ≠ .param) (Case.sitesList cs)
  | [] => nil
  | .mk _ test body :: cs =>
    other rfl (((Expr.declares? test).append (Stmt.declaresList body)).append
      (Case.declaresList cs))

end

theorem Body.declares (b : Body) : Declares (· ≠ .param) b.sites := by
  cases b with
  | block b => exact b.declares_sharing
  | expr e => exact e.declares

end

end LabelHooks
