import LabelHooks.Proofs.Tracking

/-!
Where the parts of a tree stand among its sites.
-/

namespace LabelHooks
set_option autoImplicit true

open Parts (above)

namespace Sites

inductive Holds (t : Table) : ScopeId → Sites → ScopeId → Sites → Prop
  | refl : Holds t s xs s xs
  | left (h : Holds t s xs r zs) : Holds t s (xs ++ ys) r zs
  | right (h : Holds t s ys r zs) : Holds t s (xs ++ ys) r zs
  | hoist (h : Holds t s xs r zs) : Holds t s (.hoist xs .nil) r zs
  | scope (h : Holds t ((t.scopeOf? n.mark).getD s) xs r zs) : Holds t s (.scope k n xs .nil) r zs

namespace Holds

variable {t : Table} {s r : ScopeId} {xs zs : Sites}

theorem mem_placed (h : Holds t s xs r zs) : ∀ a ∈ zs.placed t r, a ∈ xs.placed t s := by
  induction h with
  | refl => exact fun _ ha => ha
  | left _ ih =>
    intro a ha
    rw [placed_eq_append]
    exact List.mem_append_left _ (ih a ha)
  | right _ ih =>
    intro a ha
    rw [placed_eq_append]
    exact List.mem_append_right _ (ih a ha)
  | hoist _ ih | scope _ ih => exact fun a ha => List.mem_append_left _ (ih a ha)

theorem mem_flat (h : Holds t s xs r zs) (hx : x ∈ zs.flat) : x ∈ xs.flat := by
  rw [← map_snd_placed t r zs] at hx
  obtain ⟨a, ha, rfl⟩ := List.mem_map.1 hx
  exact mem_flat_of_placed (h.mem_placed a ha)

theorem placed (h : Holds t s xs r zs) (hp : xs.Placed ok t s) : zs.Placed ok t r := by
  induction h with
  | refl => exact hp
  | left _ ih => exact ih (placed_append.1 hp).1
  | right _ ih => exact ih (placed_append.1 hp).2
  | hoist _ ih => exact ih hp.1
  | scope _ ih =>
    obtain ⟨⟨c, sc, hopen, -, hin⟩, -⟩ := hp
    rw [hopen.owner] at ih
    exact ih hin

theorem trans (h : Holds t s xs r zs) (h' : Holds t r zs r' ws) : Holds t s xs r' ws := by
  induction h with
  | refl => exact h'
  | left _ ih => exact .left (ih h')
  | right _ ih => exact .right (ih h')
  | hoist _ ih => exact .hoist (ih h')
  | scope _ ih => exact .scope (ih h')

theorem site (h : Holds t s xs r zs) : Holds t s (.site x xs) r zs :=
  (h.right : Holds t s (.site x .nil ++ xs) r zs)

theorem path (h : Holds t s xs r zs) (hp : xs.Placed ok t s) (hl : t.Path s l) :
    ∃ m, t.Path r (m ++ l) := by
  induction h generalizing l with
  | refl => exact ⟨[], hl⟩
  | left _ ih => exact ih (placed_append.1 hp).1 hl
  | right _ ih => exact ih (placed_append.1 hp).2 hl
  | hoist _ ih => exact ih hp.1 hl
  | scope _ ih =>
    obtain ⟨⟨c, sc, hopen, -, hin⟩, -⟩ := hp
    rw [hopen.owner] at ih
    obtain ⟨m, hm⟩ := ih hin (.child hopen.scope hopen.parent hl)
    refine ⟨m ++ [c], ?_⟩
    rwa [List.append_assoc]

end Holds
end Sites

namespace Expr

def isRigid : Expr → Bool
  | .hole | .ident _ | .literal _ | .property _ _ _ _ | .member _ _ _ _ _ | .arrayPattern _ _
  | .objectPattern _ _ | .assignPattern _ _ _ | .rest _ _ => false
  | _ => true

end Expr

namespace Part

def sites : Part → Sites
  | .expr e => e.sites
  | .stmt s => s.sites

def parts : Part → Parts
  | .expr e => e.parts true
  | .stmt s => s.parts

def isRigid : Part → Bool
  | .expr e => e.isRigid
  | .stmt _ => true

theorem isRigid_of_isWord {x : Part} (h : x.isWord = true) : x.isRigid = false := by
  cases x with
  | stmt s => cases h
  | expr e =>
    cases e with
    | ident | literal => rfl
    | _ => cases h

end Part

namespace Parts

variable {ps qs : Parts} {xs ys : Sites} {x : Part}

/-- A part is one of `ps` with all that is inside it, and stands among the sites `xs` with all of
its own. -/
structure Stands (ps : Parts) (xs : Sites) (x : Part) : Prop where
  visited : x.parts.Visited
  inside : ∀ y ∈ x.parts.flat, y ∈ ps.flat
  holds : ∀ (t : Table) (s : ScopeId), ∃ r, Sites.Holds t s xs r x.sites

theorem Stands.imp (h : Stands ps xs x) (hsub : ∀ y ∈ ps.flat, y ∈ qs.flat)
    (hh : ∀ t s, ∃ s', ∀ r, Sites.Holds t s' xs r x.sites → Sites.Holds t s ys r x.sites) :
    Stands qs ys x where
  visited := h.visited
  inside y hy := hsub y (h.inside y hy)
  holds t s := by
    obtain ⟨s', hs'⟩ := hh t s
    obtain ⟨r, hr⟩ := h.holds t s'
    exact ⟨r, hs' r hr⟩

def Shown (ps : Parts) (xs : Sites) : Prop :=
  ps.Visited → xs.MemberFree → ∀ x ∈ ps.flat, x.isRigid = true → Stands ps xs x

namespace Shown

theorem nil : Shown .nil xs := fun _ _ _ h => by cases h

theorem append (hx : Shown ps xs) (hy : Shown qs ys) : Shown (ps ++ qs) (xs ++ ys) := by
  intro hv hm x hmem hr
  obtain ⟨hvx, hvy⟩ := visited_append.1 hv
  obtain ⟨hmx, hmy⟩ := Sites.memberFree_append.1 hm
  rw [flat_append, List.mem_append] at hmem
  obtain hmem | hmem := hmem
  · exact (hx hvx hmx x hmem hr).imp (by simp +contextual) fun t s => ⟨s, fun _ h => h.left⟩
  · exact (hy hvy hmy x hmem hr).imp (by simp +contextual) fun t s => ⟨s, fun _ h => h.right⟩

theorem after (ys : Sites) (h : Shown ps xs) : Shown ps (ys ++ xs) :=
  append (.nil : Shown .nil ys) h

theorem site (z : Site) (h : Shown ps xs) : Shown ps (.site z xs) := after (.site z .nil) h

theorem hoist (h : Shown ps xs) : Shown ps (.hoist xs .nil) := by
  intro hv hm x hmem hr
  have hfree : xs.MemberFree := fun y hy => hm y (by simpa [Sites.flat] using hy)
  exact (h hv hfree x hmem hr).imp (fun _ h => h) fun t s => ⟨s, fun _ h => h.hoist⟩

theorem scope (k : ScopeKind) (n : Node) (h : Shown ps xs) : Shown ps (.scope k n xs .nil) := by
  intro hv hm x hmem hr
  have hfree : xs.MemberFree := fun y hy => hm y (by simpa [Sites.flat] using hy)
  exact (h hv hfree x hmem hr).imp (fun _ h => h) fun t s => ⟨_, fun _ h => h.scope⟩

theorem part (hx : x.sites = xs) (hp : x.parts = above x ps) (h : Shown ps xs) :
    Shown (above x ps) xs := by
  intro hv hm y hmem hr
  rw [flat_above, List.mem_cons] at hmem
  obtain rfl | hmem := hmem
  · exact ⟨hp ▸ hv, hp ▸ fun _ h => h, fun t s => ⟨s, hx ▸ .refl⟩⟩
  · exact (h (visited_above.1 hv) hm y hmem hr).imp (by simp +contextual)
      fun t s => ⟨s, fun _ h => h⟩

theorem soft (hx : x.isRigid = false) (h : Shown ps xs) : Shown (above x ps) xs := by
  intro hv hm y hmem hr
  rw [flat_above, List.mem_cons] at hmem
  obtain rfl | hmem := hmem
  · cases hx.symm.trans hr
  · exact (h (visited_above.1 hv) hm y hmem hr).imp (by simp +contextual)
      fun t s => ⟨s, fun _ h => h⟩

theorem skip : Shown (.skip ps .nil) xs := by
  intro hv _ x hmem hr
  have hword := visited_skip.1 hv x (by simpa [flat] using hmem)
  cases (Part.isRigid_of_isWord hword).symm.trans hr

theorem stray {e : Expr} (he : (Site.stray e).isMember = true) :
    Shown ps (.site (.stray e) .nil) := by
  intro _ hm
  cases he.symm.trans (hm _ List.mem_cons_self)

theorem key {k : Expr} (h : Shown (k.parts true) k.sites) (computed : Bool) :
    Shown (when computed (k.parts true))
      (if computed = true then k.sites else .ofNodes k.nodes) := by
  cases computed with
  | true => exact h
  | false => exact skip

theorem decl (h : Shown ps xs) (k : DeclKind) : Shown ps (Sites.ofDecl k xs) := by
  cases k with
  | var => exact h.hoist
  | let_ | const => exact h

end Shown
end Parts

open Parts (Shown)

mutual

theorem Expr.shown : ∀ e : Expr, Shown (e.parts true) e.sites
  | .hole => .nil
  | .ident _ | .literal _ => .soft rfl .nil
  | .this _ | .super _ => .part rfl rfl .nil
  | .template _ tag _ es => .part rfl rfl (.site _ (.append (Expr.shown? tag) (Expr.shownList es)))
  | .array _ es | .object _ es | .seq _ es => .part rfl rfl (.site _ (Expr.shownList es))
  | .property _ _ key value => .soft rfl (.site _ (.append (.key key.shown _) value.shown))
  | .spread _ x | .unary _ _ x | .await _ x => .part rfl rfl (.site _ x.shown)
  | .function _ f => .part rfl rfl (.site _ (f.shown true))
  | .arrow _ _ ps body =>
    .part rfl rfl (.scope _ _ (.append (Expr.shownBindings .param ps) body.shown))
  | .update _ _ _ x => .part rfl rfl (.site _ (by
      cases x with
      | ident i => exact .skip
      | member => exact Expr.shownTarget _
      | _ => exact .skip))
  | .binary _ _ x y => .part rfl rfl (.site _ (.append x.shown y.shown))
  | .assign _ _ x y => .part rfl rfl (.site _ (.append x.shownTarget y.shown))
  | .cond _ x y z => .part rfl rfl (.site _ (.append (.append x.shown y.shown) z.shown))
  | .call _ c as _ =>
    .part rfl rfl (.site _ (.append (.after (Sites.ofCall c as) c.shown) (Expr.shownList as)))
  | .new _ c as => .part rfl rfl (.site _ (.append c.shown (Expr.shownList as)))
  | .member _ x prop _ _ => .soft rfl (.site _ (.append x.shown (.key prop.shown _)))
  | .yield _ _ x => .part rfl rfl (.site _ (Expr.shown? x))
  | .arrayPattern _ es | .objectPattern _ es => .soft rfl (.site _ (Expr.shownTargets es))
  | .assignPattern _ x y => .soft rfl (.site _ (.append x.shownTarget y.shown))
  | .rest _ x => .soft rfl (.site _ x.shownTarget)

theorem Expr.shown? : ∀ e : Option Expr, Shown (Expr.parts? true e) (Expr.sites? e)
  | none => .nil
  | some e => e.shown

theorem Expr.shownList : ∀ es : List Expr, Shown (Expr.partsList true es) (Expr.sitesList es)
  | [] => .nil
  | e :: es => .append e.shown (Expr.shownList es)

theorem Expr.shownTarget : ∀ e : Expr, Shown (e.parts false) e.sites
  | .hole => .nil
  | .property _ _ key value => .soft rfl (.site _ (.append (.key key.shown _) value.shownTarget))
  | .member _ x prop _ _ => .soft rfl (.site _ (.append x.shown (.key prop.shown _)))
  | .arrayPattern _ es | .objectPattern _ es => .soft rfl (.site _ (Expr.shownTargets es))
  | .assignPattern _ x y => .soft rfl (.site _ (.append x.shownTarget y.shown))
  | .rest _ x => .soft rfl (.site _ x.shownTarget)
  | .ident _ | .literal _ | .template _ _ _ _ | .this _ | .super _ | .array _ _ | .object _ _
  | .spread _ _ | .function _ _ | .arrow _ _ _ _ | .unary _ _ _ | .update _ _ _ _
  | .binary _ _ _ _ | .assign _ _ _ _ | .cond _ _ _ _ | .call _ _ _ _ | .new _ _ _ | .seq _ _
  | .await _ _ | .yield _ _ _ => .skip

theorem Expr.shownTargets : ∀ es : List Expr, Shown (Expr.partsList false es) (Expr.sitesList es)
  | [] => .nil
  | e :: es => .append e.shownTarget (Expr.shownTargets es)

theorem Expr.shownBinding (k : BindingKind) : ∀ e : Expr, Shown (e.parts false) (e.binding k)
  | .hole => .nil
  | .property _ _ key value =>
    .soft rfl (.site _ (.append (.key key.shown _) (value.shownBinding k)))
  | .member _ _ _ _ _ => .stray rfl
  | .arrayPattern _ es | .objectPattern _ es => .soft rfl (.site _ (Expr.shownBindings k es))
  | .assignPattern _ x y => .soft rfl (.site _ (.append (x.shownBinding k) y.shown))
  | .rest _ x => .soft rfl (.site _ (x.shownBinding k))
  | .ident _ | .literal _ | .template _ _ _ _ | .this _ | .super _ | .array _ _ | .object _ _
  | .spread _ _ | .function _ _ | .arrow _ _ _ _ | .unary _ _ _ | .update _ _ _ _
  | .binary _ _ _ _ | .assign _ _ _ _ | .cond _ _ _ _ | .call _ _ _ _ | .new _ _ _ | .seq _ _
  | .await _ _ | .yield _ _ _ => .skip

theorem Expr.shownBinding? (k : BindingKind) :
    ∀ e : Option Expr, Shown (Expr.parts? false e) (Expr.binding? k e)
  | none => .nil
  | some e => e.shownBinding k

theorem Expr.shownBindings (k : BindingKind) :
    ∀ es : List Expr, Shown (Expr.partsList false es) (Expr.bindingList k es)
  | [] => .nil
  | e :: es => .append (e.shownBinding k) (Expr.shownBindings k es)

theorem Func.shown (isExpr : Bool) : ∀ f : Func, Shown f.parts (f.sites isExpr)
  | .mk _ _ ps body _ _ =>
    .scope _ _ (.append (.after _ (Expr.shownBindings .param ps)) body.shownSharing)

theorem Block.shownSharing : ∀ b : Block, Shown b.parts b.sharing
  | .mk _ list => .site _ (Stmt.shownList list)

theorem Body.shown : ∀ b : Body, Shown b.parts b.sites
  | .block b => b.shownSharing
  | .expr e => e.shown

theorem Declarator.shownList (k : BindingKind) :
    ∀ ds : List Declarator, Shown (Declarator.partsList ds) (Declarator.sitesList k ds)
  | [] => .nil
  | .mk _ target init :: ds =>
    .site _ (.append (.append (target.shownBinding k) (Expr.shown? init))
      (Declarator.shownList k ds))

theorem VarDecl.shown : ∀ d : VarDecl, Shown d.parts d.sites
  | .mk _ kind ds => .site _ (.decl (Declarator.shownList _ ds) kind)

theorem ForHead.shown? : ∀ h : Option ForHead, Shown (ForHead.parts? h) (ForHead.sites? h)
  | none => .nil
  | some (.decl d) => d.shown
  | some (.expr e) => e.shown

theorem ForHead.shownTarget : ∀ h : ForHead, Shown (h.parts false) h.sites
  | .decl d => d.shown
  | .expr e => e.shownTarget

theorem Case.shownList : ∀ cs : List Case, Shown (Case.partsList cs) (Case.sitesList cs)
  | [] => .nil
  | .mk _ test body :: cs =>
    .site _ (.append (.append (Expr.shown? test) (Stmt.shownList body)) (Case.shownList cs))

theorem Block.shown : ∀ b : Block, Shown b.parts b.sites
  | .mk _ list => .scope _ _ (Stmt.shownList list)

theorem Block.shown? : ∀ b : Option Block, Shown (Block.parts? b) (Block.sites? b)
  | none => .nil
  | some b => b.shown

theorem Catch.shown? : ∀ c : Option Catch, Shown (Catch.parts? c) (Catch.sites? c)
  | none => .nil
  | some (.mk _ param body) =>
    .scope _ _ (.append (Expr.shownBinding? .catch_ param) body.shownSharing)

theorem Stmt.shown : ∀ st : Stmt, Shown st.parts st.sites
  | .varDecl d => .part rfl rfl d.shown
  | .funcDecl _ f => .part rfl rfl (.site _ (.after _ (f.shown false)))
  | .expr _ x | .throw _ x | .exportValue _ x => .part rfl rfl (.site _ x.shown)
  | .block b => .part rfl rfl b.shown
  | .labeled _ _ body => .part rfl rfl (.site _ (.site _ body.shown))
  | .ret _ x => .part rfl rfl (.site _ (Expr.shown? x))
  | .ifElse _ test yes no =>
    .part rfl rfl (.site _ (.append (.append test.shown yes.shown) (Stmt.shown? no)))
  | .forLoop _ init test post body =>
    .part rfl rfl (.scope _ _ (.append (.append (.append (ForHead.shown? init) (Expr.shown? test))
      (Expr.shown? post)) body.shown))
  | .forIn _ left right body _ _ =>
    .part rfl rfl (.scope _ _ (.append (.append left.shownTarget right.shown) body.shown))
  | .whileLoop _ test body => .part rfl rfl (.site _ (.append test.shown body.shown))
  | .doWhile _ body test => .part rfl rfl (.site _ (.append body.shown test.shown))
  | .tryCatch _ b handler finalizer =>
    .part rfl rfl (.site _ (.append (.append b.shown (Catch.shown? handler))
      (Block.shown? finalizer)))
  | .switch _ disc cs => .part rfl rfl (.append disc.shown (.scope _ _ (Case.shownList cs)))
  | .exportDecl _ _ decl => .part rfl rfl (.site _ decl.shown)
  | .branch _ _ _ | .empty _ | .debugger _ | .imports _ _ _ | .exportAll _ _ _
  | .exportNames _ _ _ => .part rfl rfl .nil

theorem Stmt.shown? : ∀ st : Option Stmt, Shown (Stmt.parts? st) (Stmt.sites? st)
  | none => .nil
  | some st => st.shown

theorem Stmt.shownList : ∀ sts : List Stmt, Shown (Stmt.partsList sts) (Stmt.sitesList sts)
  | [] => .nil
  | st :: sts => .append st.shown (Stmt.shownList sts)

end

end LabelHooks
