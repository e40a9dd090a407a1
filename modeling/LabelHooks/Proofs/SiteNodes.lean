import LabelHooks.Proofs.Sites
import Mathlib.Data.List.Perm.Basic

/-!
The sites of a tree hold exactly the nodes that a walk meets.
-/

namespace LabelHooks
set_option autoImplicit true

open List

namespace Sites

@[simp] theorem nil_append (ys : Sites) : .nil ++ ys = ys := rfl

@[simp] theorem site_append (x : Site) (xs ys : Sites) :
    .site x xs ++ ys = .site x (xs ++ ys) := rfl

@[simp] theorem hoist_append (inner xs ys : Sites) :
    .hoist inner xs ++ ys = .hoist inner (xs ++ ys) := rfl

@[simp] theorem scope_append (k : ScopeKind) (n : Node) (inner xs ys : Sites) :
    .scope k n inner xs ++ ys = .scope k n inner (xs ++ ys) := rfl

@[simp] theorem append_nil (xs : Sites) : xs ++ .nil = xs := by
  induction xs with
  | nil => rfl
  | site x rest ih => rw [site_append, ih]
  | hoist inner rest _ ih => rw [hoist_append, ih]
  | scope kind n inner rest _ ih => rw [scope_append, ih]

theorem append_assoc (xs ys zs : Sites) : xs ++ ys ++ zs = xs ++ (ys ++ zs) := by
  induction xs with
  | nil => rfl
  | site x rest ih => simp only [site_append, ih]
  | hoist inner rest _ ih => simp only [hoist_append, ih]
  | scope kind n inner rest _ ih => simp only [scope_append, ih]

@[simp] theorem nodes_append (xs ys : Sites) : (xs ++ ys).nodes = xs.nodes ++ ys.nodes := by
  induction xs with
  | nil => rfl
  | site x rest ih => simp only [site_append, nodes, ih, List.append_assoc]
  | hoist inner rest _ ih => simp only [hoist_append, nodes, ih, List.append_assoc]
  | scope kind n inner rest _ ih =>
    simp only [scope_append, nodes, ih, List.append_assoc, List.cons_append]

@[simp] theorem flat_append (xs ys : Sites) : (xs ++ ys).flat = xs.flat ++ ys.flat := by
  induction xs with
  | nil => rfl
  | site x rest ih => simp only [site_append, flat, ih, cons_append]
  | hoist inner rest _ ih => simp only [hoist_append, flat, ih, List.append_assoc]
  | scope kind n inner rest _ ih => simp only [scope_append, flat, ih, List.append_assoc]

@[simp] theorem flat_ofList (l : List Site) : (ofList l).flat = l := by
  induction l with
  | nil => rfl
  | cons x l ih => simp only [ofList, flat, ih]

@[simp] theorem mentions_append (xs ys : Sites) :
    (xs ++ ys).mentions = xs.mentions ++ ys.mentions := by
  simp only [mentions, flat_append, filterMap_append]

@[simp] theorem anchors_append (xs ys : Sites) :
    (xs ++ ys).anchors = xs.anchors ++ ys.anchors := by
  simp only [anchors, flat_append, filterMap_append]

theorem anchors_site (x : Site) (xs : Sites) :
    (site x xs).anchors = x.anchor?.toList ++ xs.anchors := by
  cases h : x.anchor? <;> simp [anchors, flat, h]

@[simp] theorem memberFree_append {xs ys : Sites} :
    (xs ++ ys).MemberFree ↔ xs.MemberFree ∧ ys.MemberFree := by
  simp only [MemberFree, flat_append, forall_mem_append]

@[simp] theorem nodes_ofList (l : List Site) : (ofList l).nodes = l.flatMap Site.nodes := by
  induction l with
  | nil => rfl
  | cons x l ih => simp only [ofList, nodes, ih, flatMap_cons]

@[simp] theorem nodes_ofNodes (ns : List Node) : (ofNodes ns).nodes = ns := by
  simp [ofNodes, flatMap_map, Site.nodes]

@[simp] theorem nodes_ofCall (c : Expr) (as : List Expr) : (ofCall c as).nodes = [] := by
  unfold ofCall
  split <;> rfl

theorem mentions_ofNodes (ns : List Node) : (ofNodes ns).mentions = [] := by
  simp [mentions, ofNodes, filterMap_eq_nil_iff, Site.mention?]

theorem anchors_ofNodes (ns : List Node) : (ofNodes ns).anchors = [] := by
  simp [anchors, ofNodes, filterMap_eq_nil_iff, Site.anchor?]

theorem memberFree_ofNodes (ns : List Node) : (ofNodes ns).MemberFree := by
  simp [MemberFree, ofNodes, Site.isMember]

theorem mentions_ofCall (c : Expr) (as : List Expr) : (ofCall c as).mentions = [] := by
  unfold ofCall
  split <;> rfl

theorem anchors_ofCall (c : Expr) (as : List Expr) : (ofCall c as).anchors = [] := by
  unfold ofCall
  split <;> rfl

theorem memberFree_ofCall (c : Expr) (as : List Expr) : (ofCall c as).MemberFree := by
  unfold ofCall MemberFree
  split <;> simp [flat, Site.isMember]

end Sites

namespace Outline

@[simp] theorem walkList_append (f : Node → Bool) (os os' : List Outline) :
    walkList f (os ++ os') = walkList f os ++ walkList f os' := by
  induction os with
  | nil => rfl
  | cons o os ih => simp only [cons_append, walkList, ih, append_assoc]

@[simp] theorem walkList_above (n : Node) (os : List Outline) :
    walkList (fun _ => true) (above n os) = n :: walkList (fun _ => true) os := by
  simp [above, walkList, walk]

end Outline

namespace Site

def isSingle : Site → Bool
  | .call _ _ _ | .label _ _ => false
  | .node _ | .use _ | .bind _ _ | .share _ | .stray _ => true

theorem anchor_sublist (x : Site) : (x.anchor?.toList.map Node.ofIdent).Sublist x.nodes := by
  cases x with
  | use | label => exact .refl _
  | node | bind | call | share | stray => exact nil_sublist _

end Site

namespace Expr

theorem exists_node_of_head {e : Expr} (h : e.head = .arrow m q) :
    ∃ n ∈ e.sites.nodes, n.mark = m := by
  cases e with
  | arrow k a ps body =>
    refine ⟨⟨.arrowFunc, k, []⟩, by simp [Expr.sites, Sites.nodes], ?_⟩
    simp only [head] at h
    split at h <;> cases h
    rfl
  | _ => cases h

theorem eq_ident_of_head {e : Expr} (h : e.head = .name f) : e = .ident f := by
  cases e with
  | ident i =>
    cases h
    rfl
  | arrow k a ps body =>
    simp only [head] at h
    split at h <;> cases h
  | _ => cases h

end Expr

namespace Sites

/-- The function that a call shows and its argument are among the sites, and so are the sites of a
statement whose label is. -/
structure Whole (xs : Sites) : Prop where
  calls : ∀ f m q, .call f m q ∈ xs.flat → ∃ n ∈ xs.nodes, n.mark = m
  callees : ∀ f m q, .call f m q ∈ xs.flat → .use f ∈ xs.flat
  labels : ∀ l body, .label l body ∈ xs.flat → ∀ y ∈ body.sites.flat, y ∈ xs.flat

namespace Whole

variable {xs ys : Sites}

theorem nil : Whole .nil :=
  ⟨fun _ _ _ h => (nomatch h), fun _ _ _ h => (nomatch h), fun _ _ h => (nomatch h)⟩

theorem append (hx : Whole xs) (hy : Whole ys) : Whole (xs ++ ys) := by
  refine ⟨fun f m q h => ?_, fun f m q h => ?_, fun l body h => ?_⟩
  · rw [flat_append, mem_append] at h
    simp only [nodes_append, mem_append]
    obtain h | h := h
    · obtain ⟨n, hn, hm⟩ := hx.calls f m q h
      exact ⟨n, .inl hn, hm⟩
    · obtain ⟨n, hn, hm⟩ := hy.calls f m q h
      exact ⟨n, .inr hn, hm⟩
  · simp only [flat_append, mem_append] at h ⊢
    exact h.imp (hx.callees f m q) (hy.callees f m q)
  · simp only [flat_append, mem_append] at h ⊢
    exact h.elim (fun h y hl => .inl (hx.labels l body h y hl))
      fun h y hl => .inr (hy.labels l body h y hl)

theorem single (hx : x.isSingle = true) : Whole (.site x .nil) := by
  refine ⟨fun f m q h => ?_, fun f m q h => ?_, fun l body h => ?_⟩ <;>
  · cases mem_singleton.1 h
    cases hx

theorem site (hx : x.isSingle = true) (h : Whole xs) : Whole (.site x xs) := (single hx).append h

theorem hoist (h : Whole xs) : Whole (.hoist xs .nil) :=
  ⟨by simpa [flat, nodes] using h.calls, by simpa [flat] using h.callees,
    by simpa [flat] using h.labels⟩

theorem scope (h : Whole xs) : Whole (.scope k n xs .nil) := by
  refine ⟨fun f m q hc => ?_, by simpa [flat] using h.callees, by simpa [flat] using h.labels⟩
  obtain ⟨n', hn, hm⟩ := h.calls f m q (by simpa [flat] using hc)
  exact ⟨n', mem_cons_of_mem _ (mem_append_left _ hn), hm⟩

theorem label (h : Whole body.sites) : Whole (.site (.label l body) body.sites) := by
  refine ⟨fun f m q hc => ?_, fun f m q hc => ?_, fun l' body' hl y hy => ?_⟩
  · obtain ⟨n, hn, hm⟩ := h.calls f m q (by simpa [flat] using hc)
    exact ⟨n, mem_append_right _ hn, hm⟩
  · exact mem_cons_of_mem _ (h.callees f m q (by simpa [flat] using hc))
  · obtain hl | hl := mem_cons.1 hl
    · cases hl
      exact mem_cons_of_mem _ hy
    · exact mem_cons_of_mem _ (h.labels l' body' hl y hy)

theorem call {as : List Expr} (hc : Whole c.sites) (has : Whole (Expr.sitesList as)) :
    Whole (ofCall c as ++ c.sites ++ Expr.sitesList as) := by
  have hparts := hc.append has
  rw [append_assoc]
  unfold ofCall
  split
  · next f m q hf hargs =>
    refine ⟨fun f' m' q' h => ?_, fun f' m' q' h => ?_, fun l body h y hy => ?_⟩
    · obtain h | h := mem_cons.1 h
      · cases h
        -- the only argument is the arrow function
        obtain ⟨a, rfl⟩ : ∃ a, as = [a] :=
          length_eq_one_iff.1 (by simpa using congrArg length hargs)
        obtain ⟨n, hn, hm⟩ := Expr.exists_node_of_head (cons.inj hargs).1
        exact ⟨n, by simp [nodes, Site.nodes, Expr.sitesList, hn], hm⟩
      · obtain ⟨n, hn, hm⟩ := hparts.calls f' m' q' h
        exact ⟨n, by simpa [nodes, Site.nodes] using hn, hm⟩
    · obtain h | h := mem_cons.1 h
      · cases h
        rw [Expr.eq_ident_of_head hf]
        exact mem_cons_of_mem _ mem_cons_self
      · exact mem_cons_of_mem _ (hparts.callees f' m' q' h)
    · obtain h | h := mem_cons.1 h
      · cases h
      · exact mem_cons_of_mem _ (hparts.labels l body h y hy)
  · exact hparts

end Whole

/-- The sites hold the nodes of an outline, and no others. A walk meets uses and labels in their
order. -/
structure Shows (xs : Sites) (os : List Outline) : Prop where
  nodes : xs.nodes.Perm (Outline.walkList (fun _ => true) os)
  anchors : (xs.anchors.map Node.ofIdent).Sublist (Outline.walkList (fun _ => true) os)
  whole : xs.Whole

namespace Shows

variable {xs ys : Sites}

theorem nil : Shows .nil [] := ⟨List.Perm.nil, List.Sublist.slnil, .nil⟩

theorem append (hx : Shows xs os) (hy : Shows ys os') : Shows (xs ++ ys) (os ++ os') := by
  refine ⟨?_, ?_, hx.whole.append hy.whole⟩
  · rw [nodes_append, Outline.walkList_append]
    exact List.Perm.append hx.nodes hy.nodes
  · rw [anchors_append, Outline.walkList_append, map_append]
    exact hx.anchors.append hy.anchors

theorem node (hx : Shows xs os) : Shows (.site (.node n) xs) (Outline.above n os) := by
  refine ⟨?_, ?_, .site rfl hx.whole⟩
  · rw [Outline.walkList_above]
    exact hx.nodes.cons n
  · rw [Outline.walkList_above]
    exact hx.anchors.cons n

theorem scope (hx : Shows xs os) : Shows (.scope k n xs .nil) (Outline.above n os) := by
  refine ⟨?_, ?_, hx.whole.scope⟩
  · rw [Outline.walkList_above]
    simpa only [Sites.nodes, List.append_nil] using hx.nodes.cons n
  · rw [Outline.walkList_above]
    simpa only [Sites.anchors, Sites.flat, List.append_nil] using hx.anchors.cons n

theorem outside (hy : Shows ys os) (hx : Shows xs os') :
    Shows (ys ++ .scope k n xs .nil) (Outline.above n (os ++ os')) := by
  refine ⟨?_, ?_, hy.whole.append hx.whole.scope⟩
  · rw [Outline.walkList_above, nodes_append, Outline.walkList_append]
    simp only [Sites.nodes, List.append_nil]
    exact List.perm_middle.trans ((List.Perm.append hy.nodes hx.nodes).cons n)
  · rw [Outline.walkList_above, anchors_append, Outline.walkList_append, List.map_append]
    have hboth := (hy.anchors.append hx.anchors).cons n
    simpa only [Sites.anchors, Sites.flat, List.append_nil] using hboth

theorem share (hx : Shows xs os) :
    Shows (.site (.share m) xs) (Outline.above ⟨.blockStmt, m, []⟩ os) := by
  refine ⟨?_, ?_, .site rfl hx.whole⟩
  · rw [Outline.walkList_above]
    exact hx.nodes.cons _
  · rw [Outline.walkList_above]
    exact hx.anchors.cons _

theorem leaf (h : x.nodes = [n]) (hx : x.isSingle = true) :
    Shows (.site x .nil) [Outline.leaf n] := by
  have hwalk : Outline.walkList (fun _ => true) [Outline.leaf n] = [n] := rfl
  refine ⟨?_, ?_, .single hx⟩
  · rw [hwalk, Sites.nodes, h]
    exact .refl _
  · rw [hwalk, anchors_site, ← h]
    simpa [Sites.anchors, Sites.flat] using x.anchor_sublist

theorem label (hx : Shows body.sites os) :
    Shows (.site (.label i body) body.sites) (Outline.ofIdent i :: os) :=
  ⟨hx.nodes.cons _, hx.anchors.cons_cons _, hx.whole.label⟩

theorem words (os : List Outline) : Shows (ofNodes (Outline.walkList (fun _ => true) os)) os := by
  refine ⟨by rw [nodes_ofNodes], ?_, ?_⟩
  · rw [anchors_ofNodes]
    exact nil_sublist _
  · generalize Outline.walkList (fun _ => true) os = ns
    induction ns with
    | nil => exact .nil
    | cons n ns ih => exact .site rfl ih

theorem stray (e : Expr) : Shows (.site (.stray e) .nil) e.outline := by
  refine ⟨?_, List.nil_sublist _, .single rfl⟩
  simp only [Sites.nodes, List.append_nil]
  rfl

theorem ident? (h : ∀ i, (f i).nodes = [.ofIdent i]) (hf : ∀ i, (f i).isSingle = true)
    (i : Option Ident) : Shows (ofIdent? f i) (i.toList.map Outline.ofIdent) := by
  cases i with
  | none => exact nil
  | some i => exact leaf (h i) (hf i)

theorem call (hc : Shows c.sites os) (has : Shows (Expr.sitesList as) os') :
    Shows (ofCall c as ++ c.sites ++ Expr.sitesList as) (os ++ os') := by
  refine ⟨?_, ?_, .call hc.whole has.whole⟩
  · rw [nodes_append, nodes_append, nodes_ofCall, Outline.walkList_append]
    exact List.Perm.append hc.nodes has.nodes
  · rw [anchors_append, anchors_append, anchors_ofCall, Outline.walkList_append, map_append]
    exact hc.anchors.append has.anchors

theorem hoist (hx : Shows xs os) : Shows (.hoist xs .nil) os := by
  refine ⟨?_, ?_, hx.whole.hoist⟩
  · simpa only [Sites.nodes, List.append_nil] using hx.nodes
  · simpa only [Sites.anchors, Sites.flat, List.append_nil] using hx.anchors

theorem decl (hx : Shows xs os) (k : DeclKind) : Shows (ofDecl k xs) os := by
  cases k with
  | var => exact hoist hx
  | let_ => exact hx
  | const => exact hx

theorem imports (specs : List ImportSpec) :
    Shows (ofImports specs) (specs.flatMap (·.outline)) := by
  induction specs with
  | nil => exact nil
  | cons spec specs ih =>
    cases spec with
    | named m imported binding => exact (node (append (leaf rfl rfl) (leaf rfl rfl))).append ih
    | default m binding => exact (node (leaf rfl rfl)).append ih
    | star m binding => exact (node (leaf rfl rfl)).append ih

theorem literal? (l : Option Literal) :
    Shows (ofNodes (l.toList.map .ofLiteral)) (l.toList.map Outline.ofLiteral) := by
  cases l with
  | none => exact nil
  | some l => exact leaf rfl rfl

theorem exports (used : Bool) (specs : List ExportSpec) :
    Shows (ofExports used specs) (specs.flatMap (·.outline)) := by
  induction specs with
  | nil => exact nil
  | cons spec specs ih =>
    cases used <;> exact (node (append (leaf rfl rfl) (leaf rfl rfl))).append ih

end Shows

end Sites

open Sites Sites.Shows

mutual

theorem Expr.shows : ∀ e : Expr, Shows e.sites e.outline
  | .hole => nil
  | .ident _ | .literal _ | .this _ | .super _ => leaf rfl rfl
  | .template _ tag _ es => node ((Expr.shows? tag).append (Expr.showsList es))
  | .array _ es | .object _ es | .seq _ es | .arrayPattern _ es | .objectPattern _ es =>
    node (Expr.showsList es)
  | .property _ shape key value => by
    have hk : Shows (if shape.computed then key.sites else ofNodes key.nodes) key.outline := by
      split
      · exact key.shows
      · exact words _
    exact node (hk.append value.shows)
  | .spread _ x | .unary _ _ x | .update _ _ _ x | .await _ x | .rest _ x => node x.shows
  | .function _ f => node f.shows
  | .arrow _ _ ps body => scope ((Expr.showsBindings .param ps).append body.shows)
  | .binary _ _ x y | .assign _ _ x y | .assignPattern _ x y => node (x.shows.append y.shows)
  | .cond _ x y z => node ((x.shows.append y.shows).append z.shows)
  | .call _ _ as _ => node (Shows.call (Expr.shows _) (Expr.showsList as))
  | .new _ c as => node (c.shows.append (Expr.showsList as))
  | .member _ x p computed _ => by
    have hp : Shows (if computed then p.sites else ofNodes p.nodes) p.outline := by
      split
      · exact p.shows
      · exact words _
    exact node (x.shows.append hp)
  | .yield _ _ x => node (Expr.shows? x)

theorem Expr.shows? : ∀ e : Option Expr, Shows (Expr.sites? e) (Expr.outline? e)
  | none => nil
  | some e => e.shows

theorem Expr.showsList : ∀ es : List Expr, Shows (Expr.sitesList es) (Expr.outlineList es)
  | [] => nil
  | e :: es => e.shows.append (Expr.showsList es)

theorem Expr.showsBinding (kind : BindingKind) : ∀ e : Expr, Shows (e.binding kind) e.outline
  | .hole => nil
  | .ident _ => leaf rfl rfl
  | .arrayPattern _ es | .objectPattern _ es => node (Expr.showsBindings kind es)
  | .property _ shape key value => by
    have hk : Shows (if shape.computed then key.sites else ofNodes key.nodes) key.outline := by
      split
      · exact key.shows
      · exact words _
    exact node (hk.append (value.showsBinding kind))
  | .assignPattern _ left right => node ((left.showsBinding kind).append right.shows)
  | .rest _ x => node (x.showsBinding kind)
  | .literal _ | .template _ _ _ _ | .this _ | .super _ | .array _ _ | .object _ _ | .spread _ _
  | .function _ _ | .arrow _ _ _ _ | .unary _ _ _ | .update _ _ _ _ | .binary _ _ _ _
  | .assign _ _ _ _ | .cond _ _ _ _ | .call _ _ _ _ | .new _ _ _ | .member _ _ _ _ _ | .seq _ _
  | .await _ _ | .yield _ _ _ => stray _

theorem Expr.showsBinding? (kind : BindingKind) :
    ∀ e : Option Expr, Shows (Expr.binding? kind e) (Expr.outline? e)
  | none => nil
  | some e => e.showsBinding kind

theorem Expr.showsBindings (kind : BindingKind) :
    ∀ es : List Expr, Shows (Expr.bindingList kind es) (Expr.outlineList es)
  | [] => nil
  | e :: es => (e.showsBinding kind).append (Expr.showsBindings kind es)

theorem Func.shows : ∀ f : Func, Shows (f.sites true) f.outline
  | .mk _ name ps body _ _ =>
    scope (((ident? (fun _ => rfl) (fun _ => rfl) name).append
      (Expr.showsBindings .param ps)).append body.showsSharing)

theorem Func.showsDecl : ∀ f : Func,
    Shows (ofIdent? (.bind .function) f.name? ++ f.sites false) f.outline
  | .mk m name ps body _ _ => by
    have h : Shows (Expr.bindingList .param ps ++ body.sharing) _ :=
      (Expr.showsBindings .param ps).append body.showsSharing
    have h := outside (k := .function) (n := ⟨.function, m, []⟩)
      (ident? (f := .bind .function) (fun _ => rfl) (fun _ => rfl) name) h
    rw [← List.append_assoc] at h
    exact h

theorem Block.showsSharing : ∀ b : Block, Shows b.sharing b.outline
  | .mk _ list => share (Stmt.showsList list)

theorem Block.shows : ∀ b : Block, Shows b.sites b.outline
  | .mk _ list => scope (Stmt.showsList list)

theorem Block.shows? : ∀ b : Option Block, Shows (Block.sites? b) (Block.outline? b)
  | none => nil
  | some b => b.shows

theorem Body.shows : ∀ b : Body, Shows b.sites b.outline
  | .block b => b.showsSharing
  | .expr e => e.shows

theorem Declarator.showsList (kind : BindingKind) :
    ∀ ds : List Declarator, Shows (Declarator.sitesList kind ds) (Declarator.outlineList ds)
  | [] => nil
  | .mk _ target init :: ds =>
    (node ((target.showsBinding kind).append (Expr.shows? init))).append
      (Declarator.showsList kind ds)

theorem VarDecl.shows : ∀ d : VarDecl, Shows d.sites d.outline
  | .mk _ kind ds => node (decl (Declarator.showsList _ ds) kind)

theorem ForHead.shows : ∀ h : ForHead, Shows h.sites h.outline
  | .decl d => d.shows
  | .expr e => e.shows

theorem ForHead.shows? : ∀ h : Option ForHead, Shows (ForHead.sites? h) (ForHead.outline? h)
  | none => nil
  | some h => h.shows

theorem Catch.shows? : ∀ c : Option Catch, Shows (Catch.sites? c) (Catch.outline? c)
  | none => nil
  | some (.mk _ param body) => scope ((Expr.showsBinding? .catch_ param).append body.showsSharing)

theorem Case.showsList : ∀ cs : List Case, Shows (Case.sitesList cs) (Case.outlineList cs)
  | [] => nil
  | .mk _ test body :: cs =>
    (node ((Expr.shows? test).append (Stmt.showsList body))).append (Case.showsList cs)

theorem Stmt.shows : ∀ s : Stmt, Shows s.sites s.outline
  | .varDecl d => d.shows
  | .funcDecl _ f => node f.showsDecl
  | .expr _ x | .throw _ x | .exportValue _ x => node x.shows
  | .block b => b.shows
  | .labeled _ _ body => node (label body.shows)
  | .ret _ x => node (Expr.shows? x)
  | .ifElse _ test yes no => node ((test.shows.append yes.shows).append (Stmt.shows? no))
  | .forLoop _ init test post body =>
    scope ((((ForHead.shows? init).append (Expr.shows? test)).append (Expr.shows? post)).append
      body.shows)
  | .forIn _ left right body _ _ => scope ((left.shows.append right.shows).append body.shows)
  | .whileLoop _ test body => node (test.shows.append body.shows)
  | .doWhile _ body test => node (body.shows.append test.shows)
  | .branch _ _ label => node (ident? (fun _ => rfl) (fun _ => rfl) label)
  | .tryCatch _ b handler finalizer =>
    node ((b.shows.append (Catch.shows? handler)).append (Block.shows? finalizer))
  | .switch _ disc cases => outside disc.shows (Case.showsList cases)
  | .empty _ | .debugger _ => leaf rfl rfl
  | .imports _ specs _ => node ((hoist (imports specs)).append (leaf rfl rfl))
  | .exportDecl _ _ decl => node decl.shows
  | .exportAll _ name _ => node ((ident? (fun _ => rfl) (fun _ => rfl) name).append (leaf rfl rfl))
  | .exportNames _ specs source => node ((exports _ specs).append (literal? source))

theorem Stmt.shows? : ∀ s : Option Stmt, Shows (Stmt.sites? s) (Stmt.outline? s)
  | none => nil
  | some s => s.shows

theorem Stmt.showsList : ∀ ss : List Stmt, Shows (Stmt.sitesList ss) (Stmt.outlineList ss)
  | [] => nil
  | s :: ss => s.shows.append (Stmt.showsList ss)

end

theorem Program.nodes_perm (p : Program) :
    p.nodes.Perm (⟨.program, p.mark, []⟩ :: p.sites.nodes) :=
  (Stmt.showsList p.body).nodes.symm.cons _

theorem Program.anchors_sublist (p : Program) :
    (p.sites.anchors.map Node.ofIdent).Sublist p.nodes :=
  (Stmt.showsList p.body).anchors.cons _

theorem Program.whole (p : Program) : p.sites.Whole := (Stmt.showsList p.body).whole

end LabelHooks
