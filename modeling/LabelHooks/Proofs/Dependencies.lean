import LabelHooks.Proofs.Counts
import LabelHooks.Proofs.Following
import LabelHooks.Proofs.PartSites
import LabelHooks.Proofs.Rejection

/-!
The functions under watch labels. Each becomes an arrow function without parameters, called with
the list of the names that its parameters had, and in its body these names refer to what they refer
to in the list.
-/

namespace LabelHooks
set_option autoImplicit true

open Pass Relation

/-- The function with mark `k` stood under a label in scope `r`. An arrow function without
parameters has its scope `w` now. -/
structure Taken (p : PassState) (xs : Sites) (p' : PassState) (ys : Sites) (k : Mark)
    (r w : ScopeId) : Prop where
  node : ∃ n ∈ xs.nodes, n.mark = k
  owner : p.table.scopeOf? k = some w
  opened : ys.Opened p'.table w
  parent : ∃ sc, p'.table.scopes[w]? = some sc ∧ sc.parent = some r
  bare : ∀ x, ¬ p'.table.HasParam w x

namespace Taken

variable {N : Nat} {s r w : ScopeId} {p p' p₁ p₂ : PassState} {xs xs' ys ys' : Sites} {k : Mark}

theorem recast (h : Taken p xs p' ys k r w) (hn : ∀ n ∈ xs.nodes, n ∈ xs'.nodes)
    (hi : ∀ i ∈ ys.ids, i ∈ ys'.ids) : Taken p xs' p' ys' k r w := by
  obtain ⟨n, hmem, hk⟩ := h.node
  exact { h with node := ⟨n, hn n hmem, hk⟩, opened := h.opened.mono hi }

theorem later (h : Taken p xs p₁ ys k r w) (hr : xs.Ready N p s) (he : Effect s p xs p₁ ys ds)
    (ha : ∀ j ∈ ys.ids, j ∉ is ∧ j < p₁.nextNode) (hf : p₁.Frame p₂ s is ds') :
    Taken p xs p₂ ys k r w := by
  obtain ⟨i, hi, hopen⟩ := h.opened
  obtain ⟨hnot, hlt⟩ := ha i hi
  have hne : w ≠ s := by
    rintro rfl
    obtain ⟨j, hs, hj, hjlt⟩ := hr.around
    obtain rfl := (he.frame.openedBy_self hs).unique hopen
    exact he.not_mem_ids hj hjlt hi
  have hscope := hf.scopes w i hopen hne hnot hlt
  refine { h with
    opened := ⟨i, hi, hf.openedBy hopen hnot hlt⟩
    parent := hscope ▸ h.parent
    bare := fun x => ?_ }
  rw [Table.HasParam, hf.own?_outside hopen hnot hlt hne]
  exact h.bare x

theorem earlier (h : Taken p₁ xs p' ys k r w)
    (hn : ∀ n ∈ xs.nodes, p₁.table.scopeOf? n.mark = p.table.scopeOf? n.mark) :
    Taken p xs p' ys k r w := by
  refine { h with owner := ?_ }
  obtain ⟨n, hmem, rfl⟩ := h.node
  rw [← hn n hmem]
  exact h.owner

theorem here {inner : Sites} (hn : n ∈ xs.nodes) (ho : p.table.Opens s .function n w sc)
    (hin : inner.Ready N (p.marked (p.table.watched n.mark (p.newMark span) w)) w)
    (hw : inner.Within o T W)
    (hx : Rewrites o w (p.marked (p.table.watched n.mark (p.newMark span) w)) inner ps p' ys qs
      ds) :
    Taken p xs p' (.scope .function ⟨.arrowFunc, p.newMark span, []⟩ ys .nil) n.mark s w := by
  have hopen := ho.watched (m := p.newMark span) rfl
  have hframe := (hx.effect hin).frame
  obtain ⟨sc', hsc', -, -, hparent, -⟩ := hframe.self _ hopen.scope
  refine ⟨⟨n, hn, rfl⟩, ho.owner,
    ⟨p.nextNode, by simp [PassState.newMark], hframe.openedBy_self (hopen.openedBy rfl)⟩,
    ⟨sc', hsc', hparent.trans hopen.parent⟩, fun x hparam => ?_⟩
  have hsome : ((p.table.watched n.mark (p.newMark span) w).scopes[w]?).isSome := by
    rw [hopen.scope]
    rfl
  exact Table.not_hasParam_watched ho.owner
    (PassState.hasParam_of_edits (hx.edits hin hw) hsome hparam)

end Taken

theorem Sites.label_of_watch {params : List Ident} {inner : Sites}
    (hpre : ∀ x ∈ pre, Site.isPlain x = true) (ho : t.scopeOf? n.mark = some c)
    (h : (r, .label i b) ∈ placed t s (.site (.label l body) (.ofList pre ++ .scope .function n
      (.ofList (params.map (.bind .param)) ++ inner) .nil))) :
    (r = s ∧ i = l ∧ b = body) ∨ (r, .label i b) ∈ inner.placed t c := by
  obtain h | h := List.mem_cons.1 h
  · cases h
    exact .inl ⟨rfl, rfl, rfl⟩
  rw [placed_eq_append, List.mem_append] at h
  obtain h | h := h
  · have hmem := mem_flat_of_placed h
    rw [flat_ofList] at hmem
    cases hpre _ hmem
  rw [placed, placed, List.append_nil, ho, Option.getD_some, placed_eq_append, List.mem_append] at h
  obtain h | h := h
  · have hmem := mem_flat_of_placed h
    rw [flat_ofList] at hmem
    simp at hmem
  · exact .inr h

theorem Rewrites.taken (h : Rewrites o s p xs ps p' ys qs ds) (hr : xs.Ready N p s)
    (hw : xs.Within o T W) (hv : ps.Visited) (hl : (r, .label l body) ∈ xs.placed p.table s)
    (hk : o.watched? l.name body = some k) : ∃ w, Taken p xs p' ys k r w := by
  -- by induction on the rewriting: a label is looked at, and then it is this one or the next
  induction h with
  | keep hfree => cases hfree _ (Sites.mem_flat_of_placed hl)
  | hide hx =>
    obtain ⟨y, hy, hword⟩ := hx _ (Sites.mem_flat_of_placed hl) rfl
    rw [Parts.visited_skip.1 hv y hy] at hword
    cases hword
  | append hx hy ihx ihy =>
    obtain ⟨hvx, hvy⟩ := Parts.visited_append.1 hv
    have hex := hx.effect hr.left
    have hnext := hr.next hex.frame
    rw [Sites.placed_eq_append, List.mem_append] at hl
    obtain hl | hl := hl
    · obtain ⟨w, hw⟩ := ihx hr.left hw.left hvx hl
      exact ⟨w, (hw.later hr.left hex (hex.apart hr) (hy.effect hnext).frame).recast
        (by simp +contextual) (by simp +contextual)⟩
    · have howners := hex.frame.owners_of_nodes hr.apart
      rw [← Sites.placed_congr howners] at hl
      obtain ⟨w, hw⟩ := ihy hnext hw.right hvy hl
      exact ⟨w, (hw.earlier howners).recast (by simp +contextual) (by simp +contextual)⟩
  | hoist _ ih =>
    rw [Sites.placed, Sites.placed, List.append_nil] at hl
    obtain ⟨w, hw⟩ := ih hr.ofHoist (hw.mono (by simp [Sites.flat])) hv hl
    exact ⟨w, hw.recast (by simp [Sites.nodes]) (by simp +contextual)⟩
  | scope hx ih =>
    obtain ⟨c, sc, j, hopen, -, -, -, -, hin⟩ := hr.ofScope
    rw [hopen.owner] at ih
    rw [Sites.placed, Sites.placed, List.append_nil, hopen.owner] at hl
    obtain ⟨w, hw⟩ := ih hin hw.inside hv hl
    exact ⟨w, hw.recast (by simp +contextual [Sites.nodes]) (by simp +contextual)⟩
  | part _ _ _ ih => exact ih hr hw (Parts.visited_above.1 hv) hl
  | recast hp _ _ ih => exact ih hr hw (hp.visited hv) hl
  | drop hx =>
    obtain ⟨-, rfl⟩ := Prod.mk.inj (List.mem_singleton.1 hl)
    cases hx
  | add | note | share => cases hl
  | renode => simp [Sites.placed] at hl
  | relabel hu =>
    obtain ⟨-, heq⟩ := Prod.mk.inj (List.mem_singleton.1 hl)
    cases heq
    cases hu.symm.trans (Options.classify_of_watched? hk)
  | stray hx => cases hx.symm.trans (hr.memberFree _ List.mem_cons_self)
  | call _ _ _ ih =>
    obtain ⟨w, hw⟩ := ih hr hw hv hl
    exact ⟨w, hw.recast (fun _ h => h) (by simp +contextual)⟩
  | state hd hpre hy hm hi hstate =>
    obtain hl | hl := List.mem_cons.1 hl
    · cases hl
      cases hstate.symm.trans (Options.classify_of_watched? hk)
    · have hmem := Sites.mem_flat_of_placed hl
      rw [Sites.flat_ofList] at hmem
      cases hpre _ hmem
  | memo _ _ _ hx ih =>
    obtain ⟨w, hw⟩ := ih hr hw hv hl
    have hex := hx.effect hr
    have hlt : ∀ j ∈ Sites.ids _, j ∉ [] ∧ j < _ :=
      fun j hj => ⟨List.not_mem_nil, hex.lt_next hr j hj⟩
    exact ⟨w, (hw.later hr hex hlt (.declare _ _ _ _ _ _)).recast (fun _ h => h)
      (by simp +contextual)⟩
  | watch hm hpre hy hx hf ih =>
    have hscope := hr.underLabel
    obtain ⟨rfl, rfl, hin, sc, j, hopen, hj, -⟩ := hscope.ofWatch hy
    rw [Parts.visited_above, Parts.visited_append] at hv
    obtain ⟨rfl, rfl, rfl⟩ | hl := Sites.label_of_watch hpre hopen.owner hl
    · cases hm.symm.trans hk
      exact ⟨_, .here (by simp [Sites.nodes]) hopen hin
        (hw.mono (by simp +contextual [Sites.flat])) hx⟩
    · obtain ⟨w, hinner⟩ := ih hin (hw.mono (by simp +contextual [Sites.flat])) hv.2
        (by rwa [PassState.marked, Sites.placed_congr (hscope.owners_watched hopen)])
      exact ⟨w, (hinner.earlier (hscope.owners_watched hopen)).recast
        (by simp +contextual [Sites.nodes]) (by simp +contextual)⟩
  | miss _ _ _ _ ih =>
    obtain hl | hl := List.mem_cons.1 hl
    · cases hl
    obtain ⟨w, hw⟩ := ih hr.split.right (hw.mono fun _ h => List.mem_cons_of_mem _ h)
      (Parts.visited_above.1 hv) hl
    exact ⟨w, hw.recast (by simp +contextual [Sites.nodes]) (by simp +contextual)⟩
  | callback hb hy _ hx _ _ hp _ _ ih =>
    obtain ⟨rfl, hin, t, cs, rfl, hwraps⟩ := hr.ofCallback hy
    have howners := hr.owners_wrapped hwraps
    rw [← Expr.inert _ |>.mem_placed_label hr.placed _, ← Sites.placed_congr howners] at hl
    obtain ⟨w, hw⟩ := ih hin hw (hp.visited hv) hl
    exact ⟨w, (hw.earlier howners).recast (fun _ h => h) (by simp +contextual)⟩

theorem mem_of_sublist_split (h : (k₁ ++ w :: k₂).Sublist (l₁ ++ w :: l₂))
    (hn : (l₁ ++ w :: l₂).Nodup) (ha : a ∈ l₁) (hk : a ∈ k₁ ++ w :: k₂) : a ∈ k₁ := by
  obtain ⟨-, -, hdisj⟩ := List.nodup_append'.1 hn
  obtain ⟨x, y, heq, hx, hy⟩ := List.sublist_append_iff.1 h
  have hw : w ∉ x := fun hmem => hdisj (hx.subset hmem) List.mem_cons_self
  rw [heq, List.mem_append] at hk
  have hax : a ∈ x := hk.resolve_right fun hmem => hdisj ha (hy.subset hmem)
  obtain ⟨z, rfl, hz⟩ | ⟨z, rfl, -⟩ := List.append_eq_append_iff.1 heq
  · cases z with
    | nil => simpa using hax
    | cons b z =>
      cases hz
      simp at hw
  · exact List.mem_append_left _ hax

namespace Followed

variable {o : Options} {N : Nat} {x : Text} {s r r' w : ScopeId} {p p' : PassState} {xs ys : Sites}
  {l m m' : List ScopeId} {u : Ident} {e : Declaration}

theorem outside (h : Followed o N x s p xs p' ys l u r r' m m')
    (hfound : p.table.lookup? r x = some (w, e)) (hwl : w ∉ l)
    (hw : p'.table.own? w x ≠ some e)
    (hlabel : ∀ a, p.table.encloses w a = true → ¬ xs.Labels o p.table s a x)
    (hupdate : ∀ a, p'.table.encloses a r' = true → ¬ ys.Updates N p'.table s a x) :
    ∃ k, p'.table.Path w (w :: k) ∧ p'.table.lookup? r' x = p'.table.along x k := by
  obtain ⟨k₁, k₂, rfl, hnone⟩ : ∃ k₁ k₂, m = k₁ ++ w :: k₂ ∧ ∀ a ∈ k₁, p.table.own? a x = none := by
    obtain ⟨k₁, l₂, hsplit, hnone⟩ := Table.lookup?_split h.before hfound
    obtain ⟨z, -, rfl⟩ | ⟨z, rfl, hz⟩ := List.append_eq_append_iff.1 hsplit
    · simp at hwl
    · cases z with
      | nil =>
        obtain rfl : w :: l₂ = l := hz
        simp at hwl
      | cons b z =>
        cases hz
        exact ⟨k₁, z, rfl, hnone⟩
  obtain ⟨l₁, l₂, rfl⟩ := List.append_of_mem (h.sublist.subset (by simp : w ∈ k₁ ++ w :: k₂))
  have hbefore := h.before
  have hafter := h.after
  rw [List.append_assoc, List.cons_append] at hbefore hafter
  have hfree : ∀ a ∈ k₁ ++ [w], ¬ xs.Labels o p.table s a x :=
    fun a ha => hlabel a (hbefore.encloses_of_mem ha)
  have houter : ∀ a ∈ l₁ ++ w :: l₂, ¬ ys.Updates N p'.table s a x :=
    fun a ha => hupdate a ((Table.encloses_iff h.after).2 (List.mem_append_left _ ha))
  have hinside : ∀ a ∈ l₁, p'.table.own? a x = none := by
    intro a ha
    have hmem := List.mem_append_left (w :: l₂) ha
    obtain hnone' | hup | ⟨hold, hkept⟩ := h.own a hmem
    · exact hnone'
    · exact absurd hup (houter a hmem)
    · have ha₁ := mem_of_sublist_split h.sublist (List.nodup_append'.1 h.after.nodup).1 ha hold
      obtain heq | hlab := hkept
      · exact heq.trans (hnone a ha₁)
      · exact absurd hlab (hfree a (List.mem_append_left _ ha₁))
  have hhere : p'.table.own? w x = none := by
    obtain hnone' | hup | ⟨-, heq | hlab⟩ := h.own w (by simp)
    · exact hnone'
    · exact absurd hup (houter w (by simp))
    · exact absurd (heq.trans (Table.own?_of_lookup? hfound)) hw
    · exact absurd hlab (hfree w (by simp))
  refine ⟨l₂ ++ l, hafter.from_mem, ?_⟩
  rw [Table.lookup?_of_path hafter, Table.along_append_of_none hinside, Table.along_cons_none hhere]

end Followed

namespace Stmt

def function? : Stmt → Option Expr
  | .expr _ (.assign _ _ _ f) => some f
  | .expr _ f => some f
  | _ => none

def value? : Stmt → Option Expr
  | .expr _ e => some e
  | .varDecl (.mk _ .const [.mk _ _ init]) => init
  | _ => none

end Stmt

/-- Among the parts there is a call of an effect or memo function, in a statement with mark `m`, on
an arrow function without parameters and a list of names. -/
def Parts.Watches (o : Options) (qs : Parts) (m : Mark) (is : List Ident) : Prop :=
  ∃ st path k body am callSpan, .stmt st ∈ qs.flat ∧ st.mark = m ∧
    (path = o.effectFactory ∨ path = o.memoFactory) ∧
    st.value? = some (.callOf (factory path m.span)
      [.arrow k false [] body, .array am (names is)] callSpan)

theorem Parts.Watches.mono {qs qs' : Parts} (h : qs.Watches o m is)
    (hsub : ∀ y ∈ qs.flat, y ∈ qs'.flat) : qs'.Watches o m is := by
  obtain ⟨st, path, k, body, am, callSpan, hst, hrest⟩ := h
  exact ⟨st, path, k, body, am, callSpan, hsub _ hst, hrest⟩

section Inside

variable {y : Part}

theorem Expr.function?_of_anonymous (h : x.anonymous? = some a) (xm : Mark) :
    (Stmt.expr xm x).function? = some x := by
  cases x with
  | assign => cases h
  | _ => rfl

theorem Expr.mem_of_anonymous {x : Expr} {is : List Ident}
    (h : x.anonymous? = some (is.map .ident, body)) (hx : .stmt st ∈ (x.parts true).flat) :
    .stmt st ∈ body.parts.flat := by
  rw [parts_of_anonymous h, Parts.flat_above, List.mem_cons, Parts.flat_append,
    List.mem_append] at hx
  obtain hx | hx | hx := hx
  · cases hx
  · cases isWord_of_params hx
  · exact hx

theorem Pass.mem_flat_call {c : Callback} (h : y ∈ body.parts.flat) :
    y ∈ ((c.call body).parts true).flat := by
  simp [Callback.call, Expr.callOf, Expr.parts, Expr.partsList, Parts.when, Parts.flat, h]

theorem Pass.mem_flat_updated (h : y ∈ (right.parts true).flat) (m : Mark) (op : AssignOp)
    (i : Ident) : y ∈ ((updated m op i right).parts true).flat := by
  unfold updated
  split
  · exact h
  · simp [Expr.parts, Parts.when, h]

theorem Pass.mem_flat_watchCall (h : y ∈ body.parts.flat) (path : Text) (m k : Mark)
    (is : List Ident) (span callSpan : Span) :
    y ∈ ((watchCall path m k body is span callSpan).parts true).flat := by
  simp [watchCall, Expr.callOf, Expr.parts, Expr.partsList, Parts.when, h]

end Inside

theorem Expands.watches (h : Expands o r ps r' qs) (hv : ps.Visited)
    (hx : .stmt (.labeled m l body) ∈ ps.flat) (hl : o.classify l.name = .watch) :
    ∃ f is inner, body.function? = some f ∧ f.anonymous? = some (is.map .ident, inner) ∧
      qs.Watches o m is := by
  induction h with
  | nil => cases hx
  | skip =>
    cases Parts.visited_skip.1 hv _ (by simpa [Parts.flat] using hx)
  | append _ _ ihx ihy =>
    obtain ⟨hvx, hvy⟩ := Parts.visited_append.1 hv
    rw [Parts.flat_append, List.mem_append] at hx
    obtain hx | hx := hx
    · obtain ⟨f, is, inner, hf, ha, hw⟩ := ihx hvx hx
      exact ⟨f, is, inner, hf, ha, hw.mono (by simp +contextual)⟩
    · obtain ⟨f, is, inner, hf, ha, hw⟩ := ihy hvy hx
      exact ⟨f, is, inner, hf, ha, hw.mono (by simp +contextual)⟩
  | part _ hu _ _ ih =>
    rw [Parts.flat_above, List.mem_cons] at hx
    obtain rfl | hx := hx
    · cases (hu l rfl).symm.trans hl
    · obtain ⟨f, is, inner, hf, ha, hw⟩ := ih (Parts.visited_above.1 hv) hx
      exact ⟨f, is, inner, hf, ha, hw.mono (by simp +contextual)⟩
  | assign _ _ _ ih =>
    have hright := (Parts.visited_append.1 (Parts.visited_above.1 hv)).2
    obtain ⟨f, is, inner, hf, ha, hw⟩ := ih hright (by
      simpa [Expr.parts, Parts.when, Parts.flat] using hx)
    exact ⟨f, is, inner, hf, ha, hw.mono fun y hy => mem_flat_call (mem_flat_updated hy _ _ _)⟩
  | step => simp [Expr.parts, Parts.when, Parts.flat, Expr.isReference] at hx
  | wrap _ _ _ ih =>
    obtain ⟨f, is, inner, hf, ha, hw⟩ := ih hv hx
    refine ⟨f, is, inner, hf, ha, hw.mono fun y hy => mem_flat_call ?_⟩
    simp [Body.parts, Block.parts, Stmt.partsList, Stmt.parts, hy]
  | state hs _ _ ih =>
    have hright := (Parts.visited_append.1 (Parts.visited_above.1 (Parts.visited_above.1
      (Parts.visited_above.1 hv)))).2
    simp only [Stmt.parts, Expr.parts, Parts.when, Parts.flat, Parts.flat_above, Parts.flat_append,
      List.mem_cons, List.mem_append, Part.stmt.injEq, Stmt.labeled.injEq, reduceCtorEq, false_or,
      List.append_nil, List.not_mem_nil, or_false] at hx
    obtain ⟨-, rfl, -⟩ | hx := hx
    · cases hs.symm.trans hl
    · obtain ⟨f, is, inner, hf, ha, hw⟩ := ih hright hx
      refine ⟨f, is, inner, hf, ha, hw.mono fun y hy => ?_⟩
      simp [stateDecl, VarDecl.const, Stmt.parts, VarDecl.parts, Declarator.partsList, Expr.parts?,
        Expr.callOf, Expr.parts, Expr.partsList, Parts.when, hy]
  | effect hw hanon _ _ ih =>
    have hbody := Expr.visited_of_anonymous hanon (Parts.visited_above.1 (Parts.visited_above.1 hv))
    rw [Stmt.parts, Parts.flat_above, List.mem_cons, Stmt.parts, Parts.flat_above,
      List.mem_cons] at hx
    obtain hx | hx | hx := hx
    · cases hx
      exact ⟨_, _, _, Expr.function?_of_anonymous hanon _, hanon, _, _, _, _, _, _,
        List.mem_cons_self, rfl, .inl rfl, rfl⟩
    · cases hx
    · obtain ⟨f, is, inner, hf, ha, hw⟩ := ih hbody (Expr.mem_of_anonymous hanon hx)
      refine ⟨f, is, inner, hf, ha, hw.mono fun y hy => ?_⟩
      rw [Stmt.parts, Parts.flat_above]
      exact List.mem_cons_of_mem _ (mem_flat_watchCall hy ..)
  | memo hw hanon _ _ ih =>
    have hright := (Parts.visited_append.1 (Parts.visited_above.1 (Parts.visited_above.1
      (Parts.visited_above.1 hv)))).2
    simp only [Stmt.parts, Expr.parts, Parts.when, Parts.flat, Parts.flat_above, Parts.flat_append,
      List.mem_cons, List.mem_append, Part.stmt.injEq, Stmt.labeled.injEq, reduceCtorEq, false_or,
      List.append_nil, List.not_mem_nil, or_false] at hx
    obtain ⟨rfl, rfl, rfl⟩ | hx := hx
    · exact ⟨_, _, _, rfl, hanon, _, _, _, _, _, _, List.mem_cons_self, rfl, .inr rfl, rfl⟩
    · obtain ⟨f, is, inner, hf, ha, hw⟩ := ih (Expr.visited_of_anonymous hanon hright)
        (Expr.mem_of_anonymous hanon hx)
      refine ⟨f, is, inner, hf, ha, hw.mono fun y hy => ?_⟩
      simp [VarDecl.const, Stmt.parts, VarDecl.parts, Declarator.partsList, Expr.parts?,
        mem_flat_watchCall hy]

theorem Options.watched?_of_function {o : Options} (hl : o.classify l = .watch)
    (hf : body.function? = some f) : o.watched? l body = f.functionMark? := by
  unfold watched?
  rw [if_pos hl]
  cases body with
  | expr m e =>
    cases e with
    | assign =>
      cases hf
      rfl
    | _ =>
      cases hf
      rfl
  | _ => cases hf

theorem Expr.functionMark?_of_anonymous {x : Expr} (h : x.anonymous? = some a) :
    ∃ k, x.functionMark? = some k := by
  cases x with
  | arrow m => exact ⟨m, rfl⟩
  | function m f => exact ⟨f.mark, rfl⟩
  | _ => cases h

/-- The scope stands in a callback with a parameter of this name, and the function of the callback
is not one of the program `p`. -/
def Desugared.InUpdate (d : Desugared) (p : Program) (r : ScopeId) (x : Text) : Prop :=
  ∃ s f m q c, (s, f, m, q) ∈ d.program.sites.calls d.table Table.root ∧
    (∀ n ∈ p.nodes, n.mark ≠ m) ∧ q.name = x ∧ d.table.scopeOf? m = some c ∧
    d.table.encloses c r = true

namespace Program

variable {o : Options} {src : Text} {p : Program} {d : Desugared} {log : List LogRecord}
  {p' : PassState} {ds : List Text} {u : Ident}

theorem exists_id_numbered (h : n ∈ p.numbered.1.nodes) :
    ∃ i < p.numbered.2, n.mark.id = some i := by
  obtain ⟨-, hroot, hnodes⟩ := p.distinct_numbered
  obtain rfl | h := List.mem_cons.1 (p.numbered.1.nodes_perm.subset h)
  · exact hroot
  · exact hnodes n h

theorem Run.followed (h : p.Run o d p' ds) (hfree : p.sites.MemberFree)
    (hu : (r', .use u) ∈ d.program.sites.placed p'.table Table.root) (hi : u.mark.id = some i)
    (hx : x ∈ p.numbered.1.sites.mentions.map (·.2)) :
    ∃ r m m', Followed o p.numbered.2 x Table.root (start p.numbered) p.numbered.1.sites p'
      d.program.sites [Table.root] u r r' m m' := by
  have hr := ready_numbered hfree
  obtain ⟨sc, hsc, -, -, hparent, -⟩ := p.distinct_numbered.1.analysed.root
  have hclear : (start p.numbered).Clear p.numbered.1.sites.ids [Table.root] := by
    intro a ha
    obtain rfl := List.mem_singleton.1 ha
    exact hr.around
  exact h.rewrites.followed hr (Sites.within_self o _) (standing_start o p) (.root hsc hparent)
    hclear hx hu hi

/-- A watch function becomes an arrow function without parameters, called together with the list of
the names of its parameters. A use that is left of what was found as a parameter of it finds what
the name in the list finds from the scope `s` of the label. This needs that no label inside the
function declares the name, and that the use is not in an update of the name. -/
theorem desugar_watches_names {body : Stmt} (hp : Program.parse src = .ok p)
    (hfree : p.sites.MemberFree) (h : p.desugar o = (log, .ok d))
    (hx : .stmt (.labeled m l body) ∈ p.numbered.1.parts.flat)
    (hl : o.withDefaults.classify l.name = .watch)
    (hs : (s, .label l body) ∈ p.numbered.1.sites.placed p.numbered.1.analyze Table.root) :
    ∃ f is inner k w, body.function? = some f ∧ f.anonymous? = some (is.map .ident, inner) ∧
      f.functionMark? = some k ∧ p.numbered.1.analyze.scopeOf? k = some w ∧
      d.program.parts.Watches o.withDefaults m is ∧
      ∀ r u e, (r, u) ∈ p.numbered.1.sites.uses p.numbered.1.analyze Table.root →
        (∃ n ∈ d.program.nodes, n.mark.id = u.mark.id) →
        p.numbered.1.analyze.lookup? r u.name = some (w, e) → e.kind = .param →
        (∀ a, p.numbered.1.analyze.encloses w a = true →
          ¬ p.numbered.1.sites.Labels o.withDefaults p.numbered.1.analyze Table.root a u.name) →
        ∃ r', (∀ q, (q, u) ∈ d.program.sites.uses d.table Table.root ↔ q = r') ∧
          (¬ d.InUpdate p.numbered.1 r' u.name →
            d.table.lookup? r' u.name = d.table.lookup? s u.name) := by
  obtain ⟨p', ds, hrun⟩ := run_of_desugar h
  have hv := visited_numbered (visited_of_parse hp)
  obtain ⟨f, is, inner, hf, hanon, hwatches⟩ := (expands_of_desugar h).watches hv hx hl
  obtain ⟨k, hk⟩ := Expr.functionMark?_of_anonymous hanon
  obtain ⟨w, htaken⟩ := hrun.rewrites.taken (ready_numbered hfree) (Sites.within_self _ _) hv hs
    ((Options.watched?_of_function hl hf).trans hk)
  refine ⟨f, is, inner, k, w, hf, hanon, hk, htaken.owner, hwatches, ?_⟩
  intro r u e hu hn hfound hparam hlabels
  rw [Sites.mem_uses] at hu
  have hmem := Sites.mem_flat_of_placed hu
  obtain ⟨i, hlt, hi⟩ := p.distinct_numbered.2.2 (.ofIdent u)
    (Sites.mem_nodes_of_flat hmem List.mem_cons_self)
  obtain ⟨n, hn, hid⟩ := hn
  obtain ⟨u', hu', hi'⟩ := hrun.exists_use hfree hmem hi hlt hn (hid.trans hi)
  obtain ⟨r', hr'⟩ := Sites.exists_placed p'.table Table.root hu'
  have hmention : u.name ∈ p.numbered.1.sites.mentions.map (·.2) :=
    List.mem_map.2 ⟨_, List.mem_filterMap.2 ⟨_, hmem, rfl⟩, rfl⟩
  obtain ⟨r₁, k₁, k', hfollow⟩ := hrun.followed hfree hr' hi' hmention
  obtain ⟨rfl, heq⟩ := p.distinct_numbered.1.sites.use_unique hfollow.use hu hi' hi
  obtain rfl := Site.use.inj heq
  refine ⟨r', fun q => ⟨fun hq => ?_, fun hq => Sites.mem_uses.2 (hrun.table ▸ hq ▸ hr')⟩, ?_⟩
  · rw [hrun.table] at hq
    exact ((hrun.distinct hfree).sites.use_unique (Sites.mem_uses.1 hq) hr' hi hi).1
  intro hupdate
  obtain ⟨sc, hsc, hparent⟩ := htaken.parent
  have hroot : w ≠ Table.root := by
    rintro rfl
    have hpath : p'.table.Path Table.root [Table.root] := hfollow.after.from_mem
    cases hpath with
    | root hs hnone =>
      cases hsc.symm.trans hs
      cases hparent.symm.trans hnone
    | child _ _ hl => cases hl
  have hbare : p'.table.own? w u'.name ≠ some e := fun heq => htaken.bare _ ⟨e, heq, hparam⟩
  obtain ⟨k, hpath, hlookup⟩ := hfollow.outside hfound (by simpa using hroot) hbare hlabels (by
    rintro a ha ⟨q, f, mk, i, j, hcall, hmk, -, hj, hname, howner⟩
    refine hupdate ⟨q, f, mk, i, a, ?_, fun n hn heq => ?_, hname, ?_, ?_⟩
    · rw [hrun.table]
      exact Sites.mem_calls.2 hcall
    · obtain ⟨i, hlt, hid⟩ := exists_id_numbered hn
      rw [heq, hmk] at hid
      cases hid
      exact Nat.not_le.2 hlt hj
    · rwa [hrun.table]
    · rwa [hrun.table])
  rw [hrun.table, hlookup]
  cases hpath with
  | root hs hnone =>
    cases hsc.symm.trans hs
    cases hparent.symm.trans hnone
  | child hs hp hl =>
    cases hsc.symm.trans hs
    cases hparent.symm.trans hp
    rw [Table.lookup?_of_path hl]

/-- A parameter is used in the update of another one, which is a state too. -/
theorem desugar_watches_names_moved :
    ∃ p log d m l body s w r u e, Program.parse
        ("ref: n = 0; ref: k = 0; watch: (n, k) => \x7b k = n \x7d" : Text) = .ok p ∧
      p.sites.MemberFree ∧ p.desugar .empty = (log, .ok d) ∧
      .stmt (.labeled m l body) ∈ p.numbered.1.parts.flat ∧
      Options.empty.withDefaults.classify l.name = .watch ∧
      (s, .label l body) ∈ p.numbered.1.sites.placed p.numbered.1.analyze Table.root ∧
      (r, u) ∈ p.numbered.1.sites.uses p.numbered.1.analyze Table.root ∧
      p.numbered.1.analyze.lookup? r u.name = some (w, e) ∧ e.kind = .param ∧
      ∃ is r', is.map (·.name) = [("n" : Text), ("k" : Text)] ∧
        d.program.parts.Watches Options.empty.withDefaults m is ∧
        (r', u) ∈ d.program.sites.uses d.table Table.root ∧ r' ≠ r ∧
        d.table.lookup? r' u.name = d.table.lookup? s u.name := by
  obtain ⟨p, log, d, hp, hd, h⟩ := Text.exists_of_desugars .empty
    "ref: n = 0; ref: k = 0; watch: (n, k) => \x7b k = n \x7d"
    (fun p d => decide p.sites.MemberFree && p.numbered.1.labeled.any fun y => decide (
      Options.empty.withDefaults.classify y.label.name = .watch ∧
      (y.body.function?.bind Expr.anonymous?).map (·.1.map fun i => i.ident?.map (·.name)) =
        some [some ("n" : Text), some ("k" : Text)] ∧
      ∃ a ∈ p.numbered.1.sites.uses p.numbered.1.analyze Table.root,
        a ∉ d.program.sites.uses d.table Table.root ∧
        (∃ n ∈ d.program.nodes, n.mark.id = a.2.mark.id) ∧
        (p.numbered.1.analyze.lookup? a.1 a.2.name).map (fun f => (some f.1, f.2.kind)) =
          some ((y.body.function?.bind Expr.functionMark?).bind p.numbered.1.analyze.scopeOf?,
            .param) ∧
        (∀ b ∈ p.numbered.1.sites.placed p.numbered.1.analyze Table.root,
          (b.2.declared? Options.empty.withDefaults).map (·.name) = some a.2.name →
            ∀ f ∈ p.numbered.1.analyze.lookup? a.1 a.2.name,
              p.numbered.1.analyze.encloses f.1 b.1 = false) ∧
        ∀ c ∈ d.program.sites.calls d.table Table.root, c.2.2.2.name ≠ a.2.name))
    (by decide +kernel)
  rw [Bool.and_eq_true, decide_eq_true_iff, List.any_eq_true] at h
  obtain ⟨hfree, ⟨m, l, body⟩, hy, h⟩ := h
  have hx := mem_labeled.1 hy
  obtain ⟨hl, hparams, ⟨r, u⟩, hu, hmoved, hn, hfound, hlabels, hcalls⟩ := of_decide_eq_true h
  obtain ⟨⟨w, e⟩, hw, hkind⟩ := Option.map_eq_some_iff.1 hfound
  obtain ⟨s, hs⟩ : ∃ s, (s, .label l body) ∈
      p.numbered.1.sites.placed p.numbered.1.analyze Table.root := by
    have hstands := Stmt.shownList p.numbered.1.body (visited_numbered (visited_of_parse hp))
      (memberFree_numbered hfree) _ hx rfl
    obtain ⟨s, hs⟩ := hstands.holds p.numbered.1.analyze Table.root
    exact ⟨s, hs.mem_placed _ (by simp [Part.sites, Stmt.sites, Sites.placed])⟩
  obtain ⟨f, is, inner, k, w', hf, hanon, hk, howner, hwatches, hnames⟩ :=
    desugar_watches_names hp hfree hd hx hl hs
  simp only [hf, hk, Option.bind_some, howner, Prod.mk.injEq, Option.some.injEq] at hkind
  obtain ⟨rfl, hparam⟩ := hkind
  obtain ⟨r', hr', hsame⟩ := hnames r u e hu hn hw hparam (by
    rintro a ha ⟨i, b, target, hlabel, htarget, hname⟩
    have hout := hlabels _ hlabel (by simp [Site.declared?, htarget, hname]) _ hw
    rw [ha] at hout
    cases hout)
  have hr'u := (hr' r').2 rfl
  refine ⟨p, log, d, m, l, body, s, w, r, u, e, hp, hfree, hd, hx, hl, hs, hu, hw, hparam, is, r',
    ?_, hwatches, hr'u, ?_, hsame ?_⟩
  · apply List.map_injective_iff.2 fun _ _ => Option.some.inj
    simpa [hf, hanon, Function.comp_def, Expr.ident?] using hparams
  · rintro rfl
    exact hmoved hr'u
  · rintro ⟨_, _, _, q, _, hcall, -, hname, -⟩
    exact hcalls _ hcall hname

end Program
end LabelHooks
