import LabelHooks.Proofs.Misses

/-!
The callbacks of modifiers in the rewritten program. Each one has the name of its state as its
parameter, and no other parameter of that name stands between it and the state.
-/

namespace LabelHooks
set_option autoImplicit true

open Pass Relation

namespace Table

variable {t t' : Table} {s a c : ScopeId} {x : Text}

def HasParam (t : Table) (s : ScopeId) (x : Text) : Prop :=
  ∃ e, t.own? s x = some e ∧ e.kind = .param

theorem Path.isSome_scope (h : t.Path s l) (ha : a ∈ l) : (t.scopes[a]?).isSome := by
  rw [List.getElem?_eq_getElem (h.lt_length a ha)]
  rfl

theorem HasParam.of_declare (hk : k ≠ .param) (h : (t.declare s name k i).HasParam a x) :
    t.HasParam a x := by
  obtain ⟨e, he, hparam⟩ := h
  rw [own?_declare] at he
  split at he
  · cases he
    exact absurd hparam hk
  · exact ⟨e, he, hparam⟩

theorem not_hasParam_watched (ho : t.scopeOf? old = some c) :
    ¬ (t.watched old m c).HasParam c x := by
  rintro ⟨e, he, hparam⟩
  obtain ⟨sc, hsc, hown⟩ := Option.bind_eq_some_iff.1 he
  rw [scopes_watched ho] at hsc
  obtain ⟨sc', -, rfl⟩ := Option.map_eq_some_iff.1 hsc
  rw [if_pos rfl] at hown
  have hmem := List.mem_of_find?_eq_some hown
  have hkind : e.kind ≠ .param := by simpa [Scope.removeKind] using (List.mem_filter.1 hmem).2
  exact hkind hparam

theorem own?_watched_of_ne (ho : t.scopeOf? old = some c) (h : s ≠ c) (x : Text) :
    (t.watched old m c).own? s x = t.own? s x := by
  rw [own?, scopes_watched ho, own?]
  cases t.scopes[s]? with
  | none => rfl
  | some sc => rw [Option.map_some, if_neg h.symm]

theorem HasParam.of_watched (ho : t.scopeOf? old = some c)
    (h : (t.watched old m c).HasParam a x) : t.HasParam a x := by
  by_cases ha : a = c
  · exact absurd (ha ▸ h) (not_hasParam_watched ho)
  · rwa [HasParam, own?_watched_of_ne ho ha] at h

theorem OpenedBy.ne_of_opens (h : t.OpenedBy s i) (ho : t.Opens a k n c sc)
    (hj : n.mark.id = some j) (hne : i ≠ j) : s ≠ c := by
  rintro rfl
  exact hne (h.unique (ho.openedBy hj))

theorem OpenedBy.ne_length (h : t.OpenedBy s i) : s ≠ t.scopes.length := by
  obtain ⟨sc, _, hsc, -⟩ := h
  exact Nat.ne_of_lt (List.getElem?_eq_some_iff.1 hsc).1

end Table

namespace PassState

variable {N : Nat} {T : List Text} {W : List Mark} {p p' : PassState} {a : ScopeId} {x : Text}

theorem Edit.isSome_scope (h : p.Edit N T W p') (ha : (p.table.scopes[a]?).isSome) :
    (p'.table.scopes[a]?).isSome := by
  cases h with
  | note hs => rwa [hs.table]
  | share => rwa [marked, Table.scopes_bind]
  | state _ _ hy =>
    obtain ⟨name, -, -, rfl⟩ := yields_declareState hy
    rwa [Table.scopes_declare, Option.isSome_map, Table.scopes_declare, Option.isSome_map]
  | memo => rwa [Table.scopes_declare, Option.isSome_map]
  | watch _ _ _ ho => rwa [marked, Table.scopes_watched ho.owner, Option.isSome_map]
  | callback _ _ hw =>
    obtain ⟨sc, hsc⟩ := Option.isSome_iff_exists.1 ha
    rw [marked, hw.scopes_old hsc]
    rfl

theorem Edit.hasParam_of (h : p.Edit N T W p') (ha : (p.table.scopes[a]?).isSome)
    (hx : p'.table.HasParam a x) : p.table.HasParam a x := by
  cases h with
  | note hs => exact hs.table ▸ hx
  | share =>
    obtain ⟨e, he, hk⟩ := hx
    exact ⟨e, (Table.own?_bind _ _ _ _ _).symm.trans he, hk⟩
  | state _ _ hy =>
    obtain ⟨name, -, -, rfl⟩ := yields_declareState hy
    have hx := Table.HasParam.of_declare (by decide) hx
    exact .of_declare (by decide) hx
  | memo => exact .of_declare (by decide) hx
  | watch _ _ _ ho => exact .of_watched ho.owner hx
  | callback _ _ hw =>
    obtain ⟨e, he, hk⟩ := hx
    obtain ⟨sc, hsc⟩ := Option.isSome_iff_exists.1 ha
    have hlt := (List.getElem?_eq_some_iff.1 hsc).1
    exact ⟨e, ((hw.own? a x).trans (if_neg (Nat.ne_of_lt hlt))).symm.trans he, hk⟩

theorem hasParam_of_edits (h : ReflTransGen (Edit N T W) p p')
    (ha : (p.table.scopes[a]?).isSome)
    (hx : p'.table.HasParam a x) : p.table.HasParam a x := by
  induction h using ReflTransGen.head_induction_on with
  | refl => exact hx
  | head hedit _ ih => exact hedit.hasParam_of ha (ih (hedit.isSome_scope ha))

end PassState

namespace Registry

variable {r : Registry} {t : Table} {s a : ScopeId} {b : Reactive} {l l₁ l₂ : List ScopeId}

theorem mem_of_reaches (h : reaches t b (l₁ ++ a :: l₂) = true) (ha : t.HasParam a b.name) :
    b.scope ∈ l₁ ++ [a] := by
  induction l₁ with
  | nil =>
    rw [List.nil_append, reaches] at h
    split at h
    · next heq => simp [heq]
    · obtain ⟨e, he, hk⟩ := ha
      simp [he, hk, BindingKind.isOrdinary] at h
  | cons c l₁ ih =>
    rw [List.cons_append, reaches] at h
    split at h
    · next heq => simp [heq]
    · split at h
      · cases h
      · exact List.mem_cons_of_mem _ (ih h)

theorem reaches_of_reactive? (hl : t.Path s l) (h : r.reactive? t name s = some b) :
    reaches t b l = true := by
  have hfilter := (Option.filter_eq_some_iff.1 h).2
  rwa [resolves, hl.chain_eq] at hfilter

end Registry

section Inside

variable {o : Options} {p p' : PassState} {s c : ScopeId} {xs ys : Sites} {x : Text}

theorem PassState.Frame.own?_outside (h : p.Frame p' c is ds) (hs : p.table.OpenedBy s i)
    (hi : i ∉ is) (hlt : i < p.nextNode) (hne : s ≠ c) (x : Text) :
    p'.table.own? s x = p.table.own? s x := by
  rw [Table.own?, h.scopes s i hs hne hi hlt, Table.own?]

theorem Rewrites.own?_self (h : Rewrites o s p xs ps p' ys qs ds) (hr : xs.Ready N p s)
    (hx : x ∉ ds) : p'.table.own? s x = p.table.own? s x := by
  induction h with
  | keep | hide | drop | add | renode | relabel => rfl
  | part _ _ _ ih | recast _ _ _ ih | call _ _ _ ih => exact ih hr hx
  | miss _ _ _ _ ih => exact ih hr.split.right hx
  | append h _ ihx ihy =>
    rw [List.mem_append, not_or] at hx
    exact (ihy (hr.next (h.effect hr.left).frame) hx.2).trans (ihx hr.left hx.1)
  | hoist _ ih => exact ih hr.ofHoist hx
  | scope h _ =>
    obtain ⟨c, sc, j, hopen, -, hj, -, -, hin⟩ := hr.ofScope
    rw [hopen.owner] at h
    obtain ⟨i, hs, hi, hlt⟩ := hr.around
    rw [Sites.ids_scope, hj, List.mem_append, List.mem_append, not_or, not_or] at hi
    apply (h.effect hin).frame.own?_outside hs hi.2.1 hlt
    exact hs.ne_of_opens hopen hj fun heq => hi.1 (by simp [heq])
  | stray hm => cases hm.symm.trans (hr.memberFree _ List.mem_cons_self)
  | note h => rw [h.table]
  | share => exact Table.own?_bind _ _ _ _ _
  | state _ _ hy hm =>
    obtain ⟨name, -, rfl, rfl⟩ := yields_declareState hy
    simp only [List.mem_cons, List.not_mem_nil, or_false, not_or, hm] at hx
    exact ((Table.own?_declare _ _ _ _ _ _ _).trans (if_neg fun h => hx.1 h.2.1.symm)).trans
      ((Table.own?_declare _ _ _ _ _ _ _).trans (if_neg fun h => hx.2 h.2.1.symm))
  | memo _ _ _ _ ih =>
    rw [List.mem_append, not_or, List.mem_singleton] at hx
    exact ((Table.own?_declare _ _ _ _ _ _ _).trans (if_neg fun h => hx.2 h.2.1.symm)).trans
      (ih hr hx.1)
  | watch hm hpre hy h hf _ =>
    have hscope := hr.underLabel
    obtain ⟨rfl, rfl, hin, sc, j, hopen, hj, -⟩ := hscope.ofWatch hy
    obtain ⟨i, hs, hi, hlt⟩ := hscope.around
    have hne := hs.ne_of_opens hopen hj fun heq => hi (by simp [hj, heq])
    have hframe := PassState.Frame.watched _ hopen.owner hj (by simp [hj]) (hopen.openedBy hj) hs hi
    rw [Sites.ids_scope, Sites.ids_append, List.mem_append, List.mem_append, List.mem_append,
      not_or, not_or, not_or] at hi
    refine ((h.effect hin).frame.own?_outside ((hframe _).openedBy_self hs) hi.2.1.2
      (Nat.lt_succ_of_lt hlt) hne _).trans ?_
    exact Table.own?_watched_of_ne hopen.owner hne _
  | callback hb hy _ h =>
    obtain ⟨rfl, hin, t, cs, rfl, hwraps⟩ := hr.ofCallback hy
    obtain ⟨i, hs, hi, hlt⟩ := hr.around
    have hne := hs.ne_length
    have hframe := PassState.Frame.wrapped hwraps hs hi
    refine ((h.effect hin).frame.own?_outside (hframe.openedBy_self hs) hi
      (Nat.lt_succ_of_lt hlt) hne _).trans ?_
    exact (hwraps.own? _ _).trans (if_neg hne)

end Inside

/-- A call of the modifier of state `b` in scope `r`, among the sites `ys`: its callback has scope
`c`, where the name of the state is a parameter, and from `r` outward to the scope of the state no
scope has such a parameter. -/
structure Called (p : PassState) (ys : Sites) (r : ScopeId) (f : Ident) (m : Mark) (q : Ident)
    (b : Reactive) (c : ScopeId) (l : List ScopeId) : Prop where
  mem : b ∈ p.done.bindings
  modifier : f.name = b.modifier.name
  name : q.name = b.name
  owner : p.table.scopeOf? m = some c
  opened : ∃ i ∈ ys.ids, m.id = some i ∧ p.table.OpenedBy c i
  param : p.table.HasParam c b.name
  path : p.table.Path r l
  around : b.scope ∈ l
  clear : ∀ l₁ a l₂, l = l₁ ++ a :: l₂ → p.table.HasParam a b.name → b.scope ∉ l₂

namespace Called

variable {N : Nat} {T : List Text} {W : List Mark} {p p₁ p₂ : PassState} {xs ys zs : Sites}
  {s r c : ScopeId} {f q : Ident} {m : Mark} {b : Reactive} {l l' : List ScopeId}

theorem mono (h : Called p ys r f m q b c l) (hsub : ∀ i ∈ ys.ids, i ∈ zs.ids) :
    Called p zs r f m q b c l := by
  obtain ⟨i, hi, hm, ho⟩ := h.opened
  exact { h with opened := ⟨i, hsub i hi, hm, ho⟩ }

theorem later (h : Called p₁ ys r f m q b c l') (hcall : (r, .call f m q) ∈ ys.placed p₁.table s)
    (hr : xs.Ready N p s) (he : Effect s p xs p₁ ys ds) (hl : p₁.table.Path s l)
    (hc : p₁.Clear is l) (ha : ∀ j ∈ ys.ids, j ∉ is ∧ j < p₁.nextNode)
    (hf : p₁.Frame p₂ s is ds') (hedits : ReflTransGen (PassState.Edit N T W) p₁ p₂) :
    Called p₂ ys r f m q b c l' := by
  obtain ⟨m', hm', hway⟩ := he.placed.way he.distinct hl hcall
  obtain rfl := hm'.unique h.path
  have hclear : p₁.Clear is (m' ++ l) := by
    intro a hmem
    obtain hmem | hmem := List.mem_append.1 hmem
    · obtain ⟨i, hi, hopen⟩ := hway a hmem
      exact ⟨i, hopen, ha i hi⟩
    · exact hc a hmem
  obtain ⟨i, hi, hid, hopen⟩ := h.opened
  obtain ⟨hnot, hlt⟩ := ha i hi
  have hne : c ≠ s := by
    rintro rfl
    obtain ⟨j, hs, hj, hjlt⟩ := hr.around
    obtain rfl := (he.frame.openedBy_self hs).unique hopen
    exact he.not_mem_ids hj hjlt hi
  refine { h with
    mem := PassState.bindings_of_edits hedits b h.mem
    owner := hf.owner h.owner hid hnot hlt
    opened := ⟨i, hi, hid, hf.openedBy hopen hnot hlt⟩
    param := ?_
    path := hf.path h.path hclear
    clear := ?_ }
  · rw [Table.HasParam, hf.own?_outside hopen hnot hlt hne]
    exact h.param
  · intro l₁ a l₂ heq hparam
    have hsome := h.path.isSome_scope (show a ∈ m' ++ l by simp [heq])
    exact h.clear l₁ a l₂ heq (PassState.hasParam_of_edits hedits hsome hparam)

theorem here {t : Table} {f : Ident} {e : Expr} (hr : e.sites.Ready N p s)
    (hl : p.table.Path s l) (hc : p.Clear e.sites.ids l)
    (hb : p.done.bindings.reactive? p.table q.name s = some b) (hf : f.name = b.modifier.name)
    (hw : p.table.Wraps t (p.newMark span) q s e.sites cs)
    (hin : e.sites.Ready N (p.marked t) p.table.scopes.length)
    (hx : Rewrites o p.table.scopes.length (p.marked t) e.sites ps p₂ ys qs [])
    (hwithin : e.sites.Within o T W) :
    Called p₂ (.site (.call f (p.newMark span) q) (.site (.use f)
      (.scope .function ⟨.arrowFunc, p.newMark span, []⟩ (.site (.bind .param q) ys) .nil)))
      s f (p.newMark span) q b p.table.scopes.length l := by
  obtain ⟨hmem', hname, henc⟩ := Registry.of_reactive? hb
  obtain ⟨i, hs, hi, -⟩ := hr.around
  have hframe := (hx.effect hin).frame
  have hfirst := PassState.Frame.wrapped hw hs hi
  obtain ⟨hl₁, hc₁⟩ := PassState.Clear.wrapped hr hl hc hw
  have hnew : (p.marked t).table.OpenedBy p.table.scopes.length p.nextNode :=
    ⟨_, _, (hw.scopes _).trans (if_pos rfl), rfl, rfl⟩
  have hpath : p₂.table.Path s l := by
    apply hframe.path (hfirst.path hl hc)
    exact (hfirst.clear hc fun _ h => h)
  refine ⟨?_, hf, hname.symm, hr.owner_wrapped hw hframe, ⟨p.nextNode, ?_, rfl, ?_⟩, ?_, hpath,
    (Table.encloses_iff hl).1 henc, fun l₁ a l₂ heq hparam hmem => ?_⟩
  · exact PassState.bindings_of_edits (hx.edits hin hwithin) b hmem'
  · simp [PassState.newMark]
  · exact hframe.openedBy hnew hr.next_not_mem (Nat.lt_succ_self _)
  · refine ⟨⟨q.name, .param, some q⟩, (hx.own?_self hin List.not_mem_nil).trans ?_, rfl⟩
    exact (hw.own? _ _).trans (by simp [hname])
  · -- a parameter on the way was there when the state was found
    have hedits := (hx.edits hin hwithin).head (.callback hmem' hname hw)
    have hsome := hl.isSome_scope (show a ∈ l by simp [heq])
    have hreaches := Registry.reaches_of_reactive? hl hb
    rw [heq] at hreaches
    have hbefore := Registry.mem_of_reaches hreaches
      (PassState.hasParam_of_edits hedits hsome hparam)
    have hnodup := hl.nodup
    rw [heq, List.append_cons] at hnodup
    exact (List.nodup_append'.1 hnodup).2.2 hbefore hmem

end Called

def Sites.Explains (o : Options) (xs : Sites) (p : PassState) (ys : Sites) (r : ScopeId) (f : Ident)
    (m : Mark) (q : Ident) : Prop :=
  .call f m q ∈ xs.flat ∨ (∃ span, (factory o.stateFactory span).head = .name f) ∨
    ∃ b c l, Called p ys r f m q b c l

theorem Sites.Explains.mono {xs xs' ys ys' : Sites} (h : xs.Explains o p ys r f m q)
    (hx : ∀ x ∈ xs.flat, x ∈ xs'.flat) (hy : ∀ i ∈ ys.ids, i ∈ ys'.ids) :
    xs'.Explains o p ys' r f m q := by
  obtain h | h | ⟨b, c, l, h⟩ := h
  · exact .inl (hx _ h)
  · exact .inr (.inl h)
  · exact .inr (.inr ⟨b, c, l, h.mono hy⟩)

theorem Sites.Explains.later (h : Sites.Explains o xs p₁ ys r f m q)
    (hcall : (r, .call f m q) ∈ ys.placed p₁.table s) (hr : xs.Ready N p s)
    (he : Effect s p xs p₁ ys ds) (hl : p₁.table.Path s l) (hc : p₁.Clear is l)
    (ha : ∀ j ∈ ys.ids, j ∉ is ∧ j < p₁.nextNode) (hf : p₁.Frame p₂ s is ds')
    (hedits : ReflTransGen (PassState.Edit N T W) p₁ p₂) : xs.Explains o p₂ ys r f m q := by
  obtain h | h | ⟨b, c, l', h⟩ := h
  · exact .inl h
  · exact .inr (.inl h)
  · exact .inr (.inr ⟨b, c, l', h.later hcall hr he hl hc ha hf hedits⟩)

theorem Rewrites.called (h : Rewrites o s p xs ps p' ys qs ds) (hr : xs.Ready N p s)
    (hw : xs.Within o T W) (hl : p.table.Path s l) (hc : p.Clear xs.ids l)
    (hcall : (r, .call f m q) ∈ ys.placed p'.table s) : xs.Explains o p' ys r f m q := by
  induction h generalizing l with
  | keep | hide => exact .inl (Sites.mem_flat_of_placed hcall)
  | part _ _ _ ih | recast _ _ _ ih => exact ih hr hw hl hc hcall
  | miss _ _ _ _ ih =>
    obtain hcall | hcall := List.mem_cons.1 hcall
    · cases hcall
    · exact .mono (ih hr.split.right (hw.mono fun y hy => List.mem_cons_of_mem _ hy) hl
        (hc.mono (by simp +contextual)) hcall) (fun _ h => List.mem_cons_of_mem _ h)
        (by simp +contextual)
  | append hx hy ihx ihy =>
    have hex := hx.effect hr.left
    have hnext := hr.next hex.frame
    have hl₁ := hex.frame.path hl hc.left
    have hc₁ := hc.next hex.frame
    rw [Sites.placed_eq_append, List.mem_append] at hcall
    obtain hcall | hcall := hcall
    · have hframe := (hy.effect hnext).frame
      rw [Sites.placed_congr (hframe.owners_of_nodes (hex.apart hr))] at hcall
      have hleft := ihx hr.left hw.left hl hc.left hcall
      exact .mono (hleft.later hcall hr.left hex hl₁ hc₁ (hex.apart hr) hframe
        (hy.edits hnext hw.right)) (by simp +contextual) (by simp +contextual)
    · exact (ihy hnext hw.right hl₁ hc₁ hcall).mono (by simp +contextual) (by simp +contextual)
  | hoist _ ih =>
    rw [Sites.placed, Sites.placed, List.append_nil] at hcall
    exact (ih hr.ofHoist (hw.mono (by simp [Sites.flat])) hl (hc.mono (by simp +contextual))
      hcall).mono (by simp [Sites.flat]) (by simp +contextual)
  | scope hx ih =>
    obtain ⟨c, sc, j, hopen, -, hj, hji, hlt, hin⟩ := hr.ofScope
    have hlt := Nat.lt_of_lt_of_le hlt hr.bound
    rw [hopen.owner] at ih hx
    have howner := (hx.effect hin).frame.owner hopen.owner hj hji hlt
    rw [Sites.placed, Sites.placed, List.append_nil, howner] at hcall
    exact (ih hin hw.inside (.child hopen.scope hopen.parent hl) (hc.inside hopen hj hji hlt)
      hcall).mono (by simp +contextual [Sites.flat]) (by simp +contextual)
  | drop | note => cases hcall
  | add hx =>
    obtain hcall | hcall := List.mem_cons.1 hcall
    · cases hcall
      cases hx
    · cases hcall
  | renode | relabel | share | state => simp [Sites.placed] at hcall
  | stray hx => cases hx.symm.trans (hr.memberFree _ List.mem_cons_self)
  | call _ hf _ ih =>
    obtain hcall | hcall := List.mem_cons.1 hcall
    · cases hcall
      exact .inr (.inl ⟨_, hf⟩)
    · exact (ih hr hw hl hc hcall).mono (fun _ h => h) (by simp +contextual)
  | memo hd _ hi hx ih =>
    obtain hcall | hcall := List.mem_cons.1 hcall
    · cases hcall
    rw [Sites.placed_congr fun _ _ => Table.scopeOf?_declare _ _ _ _ _ _] at hcall
    have hex := hx.effect hr
    have hclear : PassState.Clear _ [] l :=
      (hex.frame.clear hc fun _ h => h).mono fun _ h => absurd h List.not_mem_nil
    have htarget := (hw _ List.mem_cons_self).1 _ hd
    exact .mono (.later (ih hr hw hl hc hcall) hcall hr hex (hex.frame.path hl hc) hclear
      (fun j hj => ⟨List.not_mem_nil, hex.lt_next hr j hj⟩) (.declare _ _ _ _ _ _)
      (.single (.memo htarget : PassState.Edit N T W _ _))) (fun _ h => h) (by simp +contextual)
  | watch hm hpre hy hx hf ih =>
    have hscope := hr.underLabel
    obtain ⟨rfl, rfl, hin, sc, j, hopen, hj, -⟩ := hscope.ofWatch hy
    obtain ⟨hl₁, hc₁⟩ := PassState.Clear.watched hscope hl (hc.mono (by simp +contextual)) hopen hj
    rw [Sites.placed, Sites.placed, List.append_nil,
      hscope.owner_watched hopen (hx.effect hin).frame] at hcall
    exact (ih hin (hw.mono (by simp +contextual [Sites.flat])) hl₁ hc₁ hcall).mono
      (by simp +contextual [Sites.flat]) (by simp +contextual)
  | callback hb hy _ hx hf _ _ _ _ ih =>
    obtain ⟨rfl, hin, t, cs, rfl, hwraps⟩ := hr.ofCallback hy
    obtain ⟨hl₁, hc₁⟩ := PassState.Clear.wrapped hr hl hc hwraps
    simp only [Sites.placed, hr.owner_wrapped hwraps (hx.effect hin).frame, Option.getD_some,
      List.append_nil, List.mem_cons, Prod.mk.injEq, reduceCtorEq, and_false, false_or] at hcall
    obtain ⟨rfl, hcall⟩ | hcall := hcall
    · cases hcall
      exact .inr (.inr ⟨_, _, _, .here hr hl hc hb hf hwraps hin hx hw⟩)
    · exact (ih hin hw hl₁ hc₁ hcall).mono (fun _ h => h) (by simp +contextual)

end LabelHooks
