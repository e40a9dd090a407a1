import LabelHooks.Proofs.Callbacks
import LabelHooks.Proofs.Resolution

/-!
The scopes around a use while the pass rewrites the program: those of the program stay around it,
in their order, and the only new ones are the scopes of callbacks. A scope that is around it
declares what it declared, but for the parameters of a watch function and the names of labels.
-/

namespace LabelHooks
set_option autoImplicit true

open Pass Relation

namespace Scope

variable {sc : Scope} {d e : Declaration}

theorem nodup_declare (h : (sc.declared.map (·.name)).Nodup) (d : Declaration) :
    ((sc.declare d).declared.map (·.name)).Nodup := by
  rw [declare, List.map_append, List.nodup_append']
  refine ⟨h.sublist (List.filter_sublist.map _), List.nodup_singleton _, ?_⟩
  rw [List.disjoint_right]
  simp

theorem nodup_declareAll (h : (sc.declared.map (·.name)).Nodup) (ds : List Declaration) :
    ((sc.declareAll ds).declared.map (·.name)).Nodup := by
  induction ds generalizing sc with
  | nil => exact h
  | cons d ds ih => exact ih (nodup_declare h d)

theorem own?_removeKind (hn : (sc.declared.map (·.name)).Nodup) (h : sc.own? x = some d) :
    (sc.removeKind d.kind).own? x = none := by
  rw [own?, List.find?_eq_none]
  intro e he hx
  obtain ⟨hmem, hkind⟩ := List.mem_filter.1 he
  have hname : e.name = d.name := by
    rw [own?] at h
    have hd : d.name = x := by simpa using List.find?_some h
    rw [of_decide_eq_true hx, hd]
  rw [List.inj_on_of_nodup_map hn hmem (List.mem_of_find?_eq_some h) hname] at hkind
  simp at hkind

end Scope

theorem Sites.Exact.nodup {sc : Scope} {inner : Sites} (h : Exact sc inner) :
    (sc.declared.map (·.name)).Nodup := by
  rw [Exact] at h
  rw [h]
  exact Scope.nodup_declareAll (by simp) _

namespace Table

variable {t : Table} {s c : ScopeId} {x : Text}

theorem own?_watched_self (ho : t.Opens s k n c sc) (hn : (sc.declared.map (·.name)).Nodup) :
    (t.watched n.mark m c).own? c x = none ∨ (t.watched n.mark m c).own? c x = t.own? c x := by
  have hown : t.own? c x = sc.own? x := by rw [own?, ho.scope, Option.bind_some]
  cases h : sc.own? x with
  | none =>
    left
    by_contra hne
    obtain ⟨d, hd⟩ := Option.ne_none_iff_exists'.1 hne
    have hsome := own?_of_watched ho.owner hd
    simp [hown, h] at hsome
  | some d =>
    by_cases hk : d.kind = .param
    · left
      rw [own?, scopes_watched ho.owner, ho.scope, Option.map_some, if_pos rfl, Option.bind_some]
      exact hk ▸ Scope.own?_removeKind hn h
    · right
      rw [own?_watched ho.owner (hown.trans h) hk, hown, h]

end Table

namespace Sites

variable {o : Options} {N : Nat} {t t' : Table} {s s' a c r : ScopeId} {xs ys : Sites} {x : Text}

def Labels (o : Options) (t : Table) (s : ScopeId) (xs : Sites) (a : ScopeId) (x : Text) : Prop :=
  ∃ l body i, (a, .label l body) ∈ xs.placed t s ∧ o.declared? l.name body = some i ∧ i.name = x

def Updates (N : Nat) (t : Table) (s : ScopeId) (ys : Sites) (a : ScopeId) (x : Text) : Prop :=
  ∃ r f m q i, (r, .call f m q) ∈ ys.placed t s ∧ m.id = some i ∧ i ∈ ys.ids ∧ N ≤ i ∧
    q.name = x ∧ t.scopeOf? m = some a

theorem Labels.mono (h : xs.Labels o t s a x)
    (hx : ∀ y ∈ xs.placed t s, y ∈ ys.placed t' s') : ys.Labels o t' s' a x := by
  obtain ⟨l, body, i, hmem, hi⟩ := h
  exact ⟨l, body, i, hx _ hmem, hi⟩

theorem Updates.mono (h : xs.Updates N t s a x) (hx : ∀ y ∈ xs.placed t s, y ∈ ys.placed t s')
    (hi : ∀ i ∈ xs.ids, i ∈ ys.ids) : ys.Updates N t s' a x := by
  obtain ⟨r, f, m, q, i, hmem, hm, hids, hrest⟩ := h
  exact ⟨r, f, m, q, i, hx _ hmem, hm, hi i hids, hrest⟩

theorem Inert.mem_placed_label (h : xs.Inert) (hp : xs.Placed ok t s) (c : ScopeId) :
    (r, .label l body) ∈ xs.placed t c ↔ (r, .label l body) ∈ xs.placed t s := by
  induction xs with
  | nil => rfl
  | site y rest ih =>
    have hy : ∀ b, (r, Site.label l body) ≠ (b, y) := by
      rintro b ⟨⟩
      cases h.1
    rw [placed, placed, List.mem_cons, List.mem_cons, ih h.2 hp.2]
    simp [hy]
  | hoist => exact h.elim
  | scope k n inner rest _ ih =>
    obtain ⟨⟨b, sc, hopen, -, -⟩, hrest⟩ := hp
    rw [placed, placed, hopen.owner, List.mem_append, List.mem_append, ih h.2 hrest]
    rfl

end Sites

/-- A use among the sites `xs` of scope `s` stood in scope `r`; among the sites `ys` that they were
rewritten into it stands in `r'`. The scopes around it were `m` and those around `s`, and they are
`m'` and those around `s`. -/
structure Followed (o : Options) (N : Nat) (x : Text) (s : ScopeId) (p : PassState) (xs : Sites)
    (p' : PassState) (ys : Sites) (l : List ScopeId) (u : Ident) (r r' : ScopeId)
    (m m' : List ScopeId) : Prop where
  use : (r, .use u) ∈ xs.placed p.table s
  before : p.table.Path r (m ++ l)
  after : p'.table.Path r' (m' ++ l)
  sublist : m.Sublist m'
  opened : ∀ a ∈ m', ys.Opened p'.table a
  own : ∀ a ∈ m', p'.table.own? a x = none ∨ ys.Updates N p'.table s a x ∨
    a ∈ m ∧ (p'.table.own? a x = p.table.own? a x ∨ xs.Labels o p.table s a x)

namespace Followed

variable {o : Options} {N : Nat} {T K : List Text} {W : List Mark} {x : Text}
  {s s' c r r' : ScopeId} {p p' p₁ p₂ : PassState} {xs xs' ys ys' : Sites} {l m m' : List ScopeId}
  {u : Ident}

theorem recast (h : Followed o N x s p xs p' ys l u r r' m m')
    (hx : ∀ a ∈ xs.placed p.table s, a ∈ xs'.placed p.table s')
    (hy : ∀ a ∈ ys.placed p'.table s, a ∈ ys'.placed p'.table s')
    (hi : ∀ i ∈ ys.ids, i ∈ ys'.ids) : Followed o N x s' p xs' p' ys' l u r r' m m' where
  use := hx _ h.use
  before := h.before
  after := h.after
  sublist := h.sublist
  opened a ha := (h.opened a ha).mono hi
  own a ha := (h.own a ha).imp_right fun hown =>
    hown.imp (·.mono hy hi) fun hkept => ⟨hkept.1, hkept.2.imp_right (·.mono hx)⟩

theorem keep (hr : xs.Ready N p s) (hl : p.table.Path s l)
    (hu : (r, .use u) ∈ xs.placed p.table s) : ∃ m, Followed o N x s p xs p xs l u r r m m := by
  obtain ⟨m, hm, hopen⟩ := hr.placed.way hr.distinct hl hu
  exact ⟨m, hu, hm, hm, .refl _, hopen, fun a ha => .inr (.inr ⟨ha, .inl rfl⟩)⟩

theorem later (h : Followed o N x s p xs p₁ ys l u r r' m m') (hr : xs.Ready N p s)
    (he : Effect s p xs p₁ ys ds) (hc : p₁.Clear is l)
    (ha : ∀ j ∈ ys.ids, j ∉ is ∧ j < p₁.nextNode) (hf : p₁.Frame p₂ s is ds') :
    Followed o N x s p xs p₂ ys l u r r' m m' := by
  have hclear : p₁.Clear is (m' ++ l) := by
    intro a hmem
    obtain hmem | hmem := List.mem_append.1 hmem
    · obtain ⟨i, hi, hopen⟩ := h.opened a hmem
      exact ⟨i, hopen, ha i hi⟩
    · exact hc a hmem
  have hown : ∀ a ∈ m', p₂.table.own? a x = p₁.table.own? a x := by
    intro a hmem
    obtain ⟨i, hi, hopen⟩ := h.opened a hmem
    refine hf.own?_outside hopen (ha i hi).1 (ha i hi).2 ?_ x
    rintro rfl
    obtain ⟨j, hs, hj, hlt⟩ := hr.around
    obtain rfl := (he.frame.openedBy_self hs).unique hopen
    exact he.not_mem_ids hj hlt hi
  refine { h with after := hf.path h.after hclear, opened := ?_, own := ?_ }
  · intro a hmem
    obtain ⟨i, hi, hopen⟩ := h.opened a hmem
    exact ⟨i, hi, hf.openedBy hopen (ha i hi).1 (ha i hi).2⟩
  · intro a hmem
    rw [hown a hmem]
    refine (h.own a hmem).imp_right (Or.imp_left ?_)
    rintro ⟨r, f, k, q, i, hcall, hk, hi, hN, hq, howner⟩
    refine ⟨r, f, k, q, i, ?_, hk, hi, hN, hq, hf.owner howner hk (ha i hi).1 (ha i hi).2⟩
    rw [Sites.placed_congr (hf.owners_of_nodes ha)]
    exact hcall

theorem earlier (h : Followed o N x s p₁ xs p' ys l u r r' m m') (hr : xs.Ready N p s)
    (hl : p.table.Path s l) (hc : p.Clear is l) (ha : ∀ j ∈ xs.ids, j ∉ is ∧ j < p.nextNode)
    (hf : p.Frame p₁ s is ds) : Followed o N x s p xs p' ys l u r r' m m' := by
  have hplaced : xs.placed p₁.table s = xs.placed p.table s :=
    Sites.placed_congr (hf.owners_of_nodes ha)
  have huse := h.use
  rw [hplaced] at huse
  obtain ⟨m₀, hm₀, hopened⟩ := hr.placed.way hr.distinct hl huse
  have hclear : p.Clear is (m₀ ++ l) := by
    intro a hmem
    obtain hmem | hmem := List.mem_append.1 hmem
    · obtain ⟨i, hi, hopen⟩ := hopened a hmem
      exact ⟨i, hopen, ha i hi⟩
    · exact hc a hmem
  obtain rfl := List.append_cancel_right (h.before.unique (hf.path hm₀ hclear))
  refine { h with use := huse, before := hm₀, own := ?_ }
  intro a hmem
  refine (h.own a hmem).imp_right (Or.imp_right ?_)
  rintro ⟨hm, hkept⟩
  refine ⟨hm, hkept.imp (fun heq => heq.trans ?_) (·.mono fun y hy => hplaced ▸ hy)⟩
  obtain ⟨i, hi, hopen⟩ := hopened a hm
  refine hf.own?_outside hopen (ha i hi).1 (ha i hi).2 ?_ x
  rintro rfl
  exact (List.nodup_append'.1 hm₀.nodup).2.2 hm hl.mem_self

theorem inside (h : Followed o N x s p xs p' ys (c :: l) u r r' m m')
    (ho : ys.Opened p'.table c)
    (hown : p'.table.own? c x = none ∨ p'.table.own? c x = p.table.own? c x ∨
      xs.Labels o p.table s c x) :
    Followed o N x s p xs p' ys l u r r' (m ++ [c]) (m' ++ [c]) where
  use := h.use
  before := by simpa using h.before
  after := by simpa using h.after
  sublist := h.sublist.append (.refl _)
  opened a ha := by
    obtain ha | ha := List.mem_append.1 ha
    · exact h.opened a ha
    · exact List.mem_singleton.1 ha ▸ ho
  own a ha := by
    obtain ha | ha := List.mem_append.1 ha
    · exact (h.own a ha).imp_right (Or.imp_right fun hkept =>
        ⟨List.mem_append_left _ hkept.1, hkept.2⟩)
    · obtain rfl := List.mem_singleton.1 ha
      exact hown.imp_right fun hkept => .inr ⟨List.mem_append_right _ ha, hkept⟩

theorem scope (h : Followed o N x c p xs p' ys (c :: l) u r r' m m')
    (ho : p.table.scopeOf? n.mark = some c) (ho' : p'.table.scopeOf? n'.mark = some c)
    (hopen : (Sites.scope k n' ys .nil).Opened p'.table c)
    (hown : p'.table.own? c x = none ∨ p'.table.own? c x = p.table.own? c x ∨
      xs.Labels o p.table c c x) :
    Followed o N x s p (.scope k n xs .nil) p' (.scope k n' ys .nil) l u r r' (m ++ [c])
      (m' ++ [c]) := by
  have hx : ∀ a ∈ xs.placed p.table c, a ∈ (Sites.scope k n xs .nil).placed p.table s := by
    simp [Sites.placed, ho]
  have hall : Followed o N x s p (.scope k n xs .nil) p' (.scope k n' ys .nil) (c :: l) u r r' m
      m' := h.recast hx (by simp [Sites.placed, ho']) (by simp +contextual)
  exact hall.inside hopen (hown.imp_right (Or.imp_right (·.mono hx)))

theorem watch {params inner : Sites}
    (h : Followed o N x c (p.marked (p.table.watched n.mark (p.newMark span) c)) inner p' ys
      (c :: l) u r r' m m')
    (hr : Sites.Ready N p s (.scope .function n (params ++ inner) .nil))
    (ho : p.table.Opens s .function n c sc) (hn : (sc.declared.map (·.name)).Nodup)
    (hl : p.table.Path s l)
    (hf : (p.marked (p.table.watched n.mark (p.newMark span) c)).Frame p' c inner.ids ds)
    (hown : p'.table.own? c x = (p.table.watched n.mark (p.newMark span) c).own? c x ∨
      inner.Labels o p.table c c x) :
    Followed o N x s p (.scope .function n (params ++ inner) .nil) p'
      (.scope .function ⟨.arrowFunc, p.newMark span, []⟩ ys .nil) l u r r' (m ++ [c])
      (m' ++ [c]) := by
  obtain ⟨c', _, j, hopen, -, hj, hji, -, hin⟩ := hr.ofScope
  cases hopen.owner.symm.trans ho.owner
  have hplaced : inner.placed (p.table.watched n.mark (p.newMark span) c) c =
      inner.placed p.table c := Sites.placed_congr (hr.owners_watched ho)
  have huse : (r, .use u) ∈ inner.placed p.table c := hplaced ▸ h.use
  obtain ⟨m₀, hm₀⟩ := hin.right.placed.path (.child ho.scope ho.parent hl) huse
  obtain rfl := h.before.unique (hm₀.of_parents (.watched ho.owner))
  have hinner : Followed o N x c p inner p' ys (c :: l) u r r' m m' := by
    refine { h with use := huse, before := hm₀, own := fun a ha => ?_ }
    refine (h.own a ha).imp_right (Or.imp_right ?_)
    rintro ⟨hm, hkept⟩
    refine ⟨hm, hkept.imp (fun heq => heq.trans ?_) (·.mono fun y hy => hplaced ▸ hy)⟩
    apply Table.own?_watched_of_ne ho.owner
    rintro rfl
    exact (List.nodup_append'.1 hm₀.nodup).2.2 hm List.mem_cons_self
  have hinside : ∀ a ∈ inner.placed p.table c, a ∈ (params ++ inner).placed p.table c := by
    intro a ha
    rw [Sites.placed_eq_append]
    exact List.mem_append_right _ ha
  have hall : Followed o N x c p (params ++ inner) p' ys (c :: l) u r r' m m' :=
    hinner.recast hinside (fun _ h => h) fun _ h => h
  refine hall.scope ho.owner
    (hr.owner_watched ho hf) ⟨p.nextNode, by simp [PassState.newMark], ?_⟩ ?_
  · refine hf.openedBy_self ((ho.watched (m := p.newMark span) rfl).openedBy rfl)
  · obtain hown | hlabel := hown
    · rw [hown]
      exact (Table.own?_watched_self ho hn).imp_right .inl
    · exact .inr (.inr (hlabel.mono hinside))

theorem callback {t : Table} {q f : Ident} {e : Expr}
    (h : Followed o N x p.table.scopes.length (p.marked t) e.sites p₂ ys
      (p.table.scopes.length :: l) u r r' m m')
    (hr : e.sites.Ready N p s) (hl : p.table.Path s l)
    (hw : p.table.Wraps t (p.newMark span) q s e.sites cs)
    (hf : (p.marked t).Frame p₂ p.table.scopes.length e.sites.ids ds)
    (hown : p₂.table.own? p.table.scopes.length x = t.own? p.table.scopes.length x) :
    ∃ r₀, Followed o N x s p e.sites p₂ (.site (.call f (p.newMark span) q) (.site (.use f)
      (.scope .function ⟨.arrowFunc, p.newMark span, []⟩ (.site (.bind .param q) ys) .nil)))
      l u r₀ r' m (m' ++ [p.table.scopes.length]) := by
  have hnew : (p.marked t).table.OpenedBy p.table.scopes.length p.nextNode :=
    ⟨_, _, (hw.scopes _).trans (if_pos rfl), rfl, rfl⟩
  have howner := hr.owner_wrapped hw hf
  have hplaced : ∀ c, e.sites.placed t c = e.sites.placed p.table c :=
    fun c => Sites.placed_congr (hr.owners_wrapped hw)
  -- a use that stood in `s` itself has only the callback around it, and other scopes have come
  -- with their uses
  have hbefore : ∃ r₀, (r₀, .use u) ∈ e.sites.placed p.table s ∧ p.table.Path r₀ (m ++ l) := by
    have huse : (r, .use u) ∈ e.sites.placed p.table p.table.scopes.length := hplaced _ ▸ h.use
    obtain ⟨rfl, hmem⟩ | hmem := hr.placed.elsewhere huse
    · refine ⟨s, hmem, ?_⟩
      have hnil : m = [] := List.append_cancel_right
        (h.before.unique (hw.path_new hl) : m ++ _ = [] ++ _)
      rwa [hnil]
    · refine ⟨r, hmem, ?_⟩
      obtain ⟨l₀, hl₀⟩ := hr.placed.path hl hmem
      obtain hsame | ⟨k, ls, hls, rfl, hmoved⟩ := hw.path_shift hl₀
      · obtain rfl := hsame.unique h.before
        exact absurd (hl₀.lt_length p.table.scopes.length (by simp)) (Nat.lt_irrefl _)
      · obtain rfl := hls.unique hl
        obtain rfl := List.append_cancel_right (hmoved.unique h.before)
        exact hl₀
  obtain ⟨r₀, huse, hpath⟩ := hbefore
  have hsites : ∀ a ∈ ys.placed p₂.table p.table.scopes.length,
      a ∈ (Sites.site (.call f (p.newMark span) q) (.site (.use f) (.scope .function
        ⟨.arrowFunc, p.newMark span, []⟩ (.site (.bind .param q) ys) .nil))).placed p₂.table s := by
    simp +contextual [Sites.placed, howner]
  have hids : p.nextNode ∈ (Sites.site (.call f (p.newMark span) q) (.site (.use f)
      (.scope .function ⟨.arrowFunc, p.newMark span, []⟩
        (.site (.bind .param q) ys) .nil))).ids := by
    simp [PassState.newMark]
  refine ⟨r₀, huse, hpath, by simpa using h.after,
    h.sublist.trans (List.sublist_append_left _ _), fun a ha => ?_, fun a ha => ?_⟩
  · obtain ha | ha := List.mem_append.1 ha
    · exact (h.opened a ha).mono (by simp +contextual)
    · obtain rfl := List.mem_singleton.1 ha
      exact ⟨p.nextNode, hids, hf.openedBy hnew hr.next_not_mem (Nat.lt_succ_self _)⟩
  · obtain ha | ha := List.mem_append.1 ha
    · obtain hnone | hupdate | ⟨hm, hkept⟩ := h.own a ha
      · exact .inl hnone
      · exact .inr (.inl (hupdate.mono hsites (by simp +contextual)))
      · refine .inr (.inr ⟨hm, ?_⟩)
        obtain heq | ⟨i, body, target, hlabel, htarget⟩ := hkept
        · exact .inl (heq.trans (hw.own?_old hpath x a (List.mem_append_left _ hm)))
        · rw [PassState.marked, hplaced] at hlabel
          exact .inr ⟨i, body, target, (e.inert.mem_placed_label hr.placed _).1 hlabel, htarget⟩
    · obtain rfl := List.mem_singleton.1 ha
      rw [hown]
      by_cases hx : x = q.name
      · exact .inr (.inl ⟨s, f, _, q, p.nextNode, List.mem_cons_self, rfl, hids, hr.bound, hx.symm,
          howner⟩)
      · exact .inl (hw.own?_new hx)

end Followed

namespace Rewrites

variable {o : Options} {N : Nat} {T K : List Text} {W : List Mark} {s : ScopeId}
  {p p' : PassState} {xs ys : Sites} {ds : List Text} {x : Text}

theorem labels (h : Rewrites o s p xs ps p' ys qs ds) (hr : xs.Ready N p s)
    (hw : xs.Within o T W) (hs : Standing N T K p s) (hx : x ∈ ds) (hK : x ∈ K) :
    xs.Labels o p.table s s x := by
  induction h with
  | keep | hide | drop | add | renode | relabel | note | share => cases hx
  | hoist | scope | stray | watch | callback => cases hx
  | part _ _ _ ih | recast _ _ _ ih | call _ _ _ ih => exact ih hr hw hs hx
  | miss _ _ _ _ ih =>
    exact (ih hr.split.right (hw.mono fun y hy => List.mem_cons_of_mem _ hy) hs hx).mono
      fun _ h => List.mem_cons_of_mem _ h
  | append hfirst _ ihx ihy =>
    obtain hx | hx := List.mem_append.1 hx
    · refine (ihx hr.left hw.left hs hx).mono fun a ha => ?_
      rw [Sites.placed_eq_append]
      exact List.mem_append_left _ ha
    · have hframe := (hfirst.effect hr.left).frame
      refine (ihy (hr.next hframe) hw.right (hs.edits (hfirst.edits hr.left hw.left)) hx).mono
        fun a ha => ?_
      rw [Sites.placed_congr (hframe.owners_of_nodes hr.apart)] at ha
      rw [Sites.placed_eq_append]
      exact List.mem_append_right _ ha
  | state hd hpre hy hm hi hl =>
    obtain rfl | hx := List.mem_cons.1 hx
    · exact ⟨_, _, _, List.mem_cons_self, hd, rfl⟩
    · -- the name of the modifier is new
      obtain rfl := List.mem_singleton.1 hx
      have hedits := (Rewrites.state hd hpre hy hm hi hl).edits hr hw
      obtain ⟨name, -, rfl, rfl⟩ := yields_declareState hy
      exact absurd hK ((hs.edits hedits).orderly.unseen _ (by simp [hm, Ident.ofName]))
  | memo hd _ _ _ ih =>
    obtain hx | hx := List.mem_append.1 hx
    · exact ih hr hw hs hx
    · obtain rfl := List.mem_singleton.1 hx
      exact ⟨_, _, _, List.mem_cons_self, hd, rfl⟩

theorem own?_or_labels (h : Rewrites o s p xs ps p' ys qs ds) (hr : xs.Ready N p s)
    (hw : xs.Within o T W) (hs : Standing N T K p s) (hK : x ∈ K) :
    p'.table.own? s x = p.table.own? s x ∨ xs.Labels o p.table s s x := by
  by_cases hd : x ∈ ds
  · exact .inr (h.labels hr hw hs hd hK)
  · exact .inl (h.own?_self hr hd)

theorem followed (h : Rewrites o s p xs ps p' ys qs ds) (hr : xs.Ready N p s)
    (hw : xs.Within o T W) (hs : Standing N T K p s) (hl : p.table.Path s l)
    (hc : p.Clear xs.ids l) (hK : x ∈ K) (hu : (r', .use u) ∈ ys.placed p'.table s)
    (hi : u.mark.id = some i) : ∃ r m m', Followed o N x s p xs p' ys l u r r' m m' := by
  -- by induction on the rewriting, with the scopes around it
  induction h generalizing l with
  | keep | hide =>
    obtain ⟨m, hm⟩ := Followed.keep hr hl hu
    exact ⟨_, m, m, hm⟩
  | part _ _ _ ih | recast _ _ _ ih => exact ih hr hw hs hl hc hu
  | drop | note => cases hu
  | add _ hn =>
    obtain ⟨-, rfl⟩ := Prod.mk.inj (List.mem_singleton.1 hu)
    cases (hn _ List.mem_cons_self).symm.trans hi
  | renode | relabel | share | state => simp [Sites.placed] at hu
  | stray hx => cases hx.symm.trans (hr.memberFree _ List.mem_cons_self)
  | append hx hy ihx ihy =>
    have hex := hx.effect hr.left
    have hnext := hr.next hex.frame
    have hframe := (hy.effect hnext).frame
    have hc₁ := hc.next hex.frame
    rw [Sites.placed_eq_append, List.mem_append] at hu
    obtain hu | hu := hu
    · rw [Sites.placed_congr (hframe.owners_of_nodes (hex.apart hr))] at hu
      obtain ⟨r, m, m', hm⟩ := ihx hr.left hw.left hs hl hc.left hu
      refine ⟨r, m, m', (hm.later hr.left hex hc₁ (hex.apart hr) hframe).recast ?_ ?_
        (by simp +contextual)⟩
      all_goals
        intro a ha
        rw [Sites.placed_eq_append]
        exact List.mem_append_left _ ha
    · obtain ⟨r, m, m', hm⟩ := ihy hnext hw.right (hs.edits (hx.edits hr.left hw.left))
        (hex.frame.path hl hc.left) hc₁ hu
      refine ⟨r, m, m', (hm.earlier hr.right hl hc.left hr.apart hex.frame).recast ?_ ?_
        (by simp +contextual)⟩
      all_goals
        intro a ha
        rw [Sites.placed_eq_append]
        exact List.mem_append_right _ ha
  | hoist _ ih =>
    rw [Sites.placed, Sites.placed, List.append_nil] at hu
    obtain ⟨r, m, m', hm⟩ := ih hr.ofHoist (hw.mono (by simp [Sites.flat])) hs hl
      (hc.mono (by simp +contextual)) hu
    exact ⟨r, m, m', hm.recast (by simp [Sites.placed]) (by simp [Sites.placed])
      (by simp +contextual)⟩
  | scope hx ih =>
    obtain ⟨c, sc, j, hopen, -, hj, hji, hjlt, hin⟩ := hr.ofScope
    have hjlt := Nat.lt_of_lt_of_le hjlt hr.bound
    rw [hopen.owner] at ih hx
    have hframe := (hx.effect hin).frame
    have howner := hframe.owner hopen.owner hj hji hjlt
    rw [Sites.placed, Sites.placed, List.append_nil, howner] at hu
    have hstanding := hs.inside hopen
    obtain ⟨r, m, m', hm⟩ := ih hin hw.inside hstanding (.child hopen.scope hopen.parent hl)
      (hc.inside hopen hj hji hjlt) hu
    exact ⟨r, _, _, hm.scope hopen.owner howner
      ⟨j, by simp [hj], hframe.openedBy_self (hopen.openedBy hj)⟩
      (.inr (hx.own?_or_labels hin hw.inside hstanding hK))⟩
  | call _ _ _ ih =>
    obtain hu | hu := List.mem_cons.1 hu
    · cases hu
    obtain ⟨r, m, m', hm⟩ := ih hr hw hs hl hc hu
    exact ⟨r, m, m', hm.recast (fun _ h => h) (fun _ h => List.mem_cons_of_mem _ h)
      (by simp +contextual)⟩
  | memo _ _ _ hx ih =>
    obtain hu | hu := List.mem_cons.1 hu
    · cases hu
    rw [Sites.placed_congr fun _ _ => Table.scopeOf?_declare _ _ _ _ _ _] at hu
    obtain ⟨r, m, m', hm⟩ := ih hr hw hs hl hc hu
    have hex := hx.effect hr
    have hclear : PassState.Clear _ [] l :=
      (hex.frame.clear hc fun _ h => h).mono fun _ h => absurd h List.not_mem_nil
    exact ⟨r, m, m', (hm.later hr hex hclear
      (fun j hj => ⟨List.not_mem_nil, hex.lt_next hr j hj⟩) (.declare _ _ _ _ _ _)).recast
      (fun _ h => h) (fun _ h => List.mem_cons_of_mem _ h) (by simp +contextual)⟩
  | watch hm hpre hy hx hf ih =>
    have hscope := hr.underLabel
    obtain ⟨rfl, rfl, hin, sc, j, hopen, hj, hexact⟩ := hscope.ofWatch hy
    obtain ⟨hl₁, hc₁⟩ := PassState.Clear.watched hscope hl (hc.mono (by simp +contextual)) hopen hj
    have hframe := (hx.effect hin).frame
    rw [Sites.placed, Sites.placed, List.append_nil, hscope.owner_watched hopen hframe] at hu
    have hmem := (hw _ List.mem_cons_self).2 _ hm
    have hlt : j < N := hscope.old j (by simp [hj])
    obtain ⟨r, m, m', hfollow⟩ := ih hin (hw.mono (by simp +contextual [Sites.flat]))
      (hs.watched hmem hj hlt hopen) hl₁ hc₁ hu
    have hown := hx.own?_or_labels hin (hw.mono (by simp +contextual [Sites.flat]))
      (hs.watched hmem hj hlt hopen) hK
    refine ⟨r, _, _, (hfollow.watch hscope hopen hexact.nodup hl hframe ?_).recast ?_
      (fun _ h => h) fun _ h => h⟩
    · refine hown.imp_right (·.mono fun a ha => ?_)
      rwa [PassState.marked, Sites.placed_congr (hscope.owners_watched hopen)] at ha
    · intro a ha
      refine List.mem_cons_of_mem _ ?_
      rw [Sites.placed_eq_append]
      exact List.mem_append_right _ ha
  | miss _ _ _ hx ih =>
    have hin := hr.split.right
    obtain hu | hu := List.mem_cons.1 hu
    · cases hu
      refine ⟨_, [], [], List.mem_cons_self, hl, ?_, .refl _, by simp, by simp⟩
      exact (hx.effect hin).frame.path hl (hc.mono (by simp +contextual))
    · obtain ⟨r, m, m', hm⟩ := ih hin (hw.mono fun _ h => List.mem_cons_of_mem _ h) hs hl
        (hc.mono (by simp +contextual)) hu
      exact ⟨r, m, m', hm.recast (fun _ h => List.mem_cons_of_mem _ h)
        (fun _ h => List.mem_cons_of_mem _ h) (by simp +contextual)⟩
  | callback hb hy _ hx _ hf _ _ _ ih =>
    obtain ⟨rfl, hin, t, cs, rfl, hwraps⟩ := hr.ofCallback hy
    obtain ⟨hmem, hname, -⟩ := Registry.of_reactive? hb
    obtain ⟨hl₁, hc₁⟩ := PassState.Clear.wrapped hr hl hc hwraps
    have hframe := (hx.effect hin).frame
    simp only [Sites.placed, hr.owner_wrapped hwraps hframe, Option.getD_some, List.append_nil,
      List.mem_cons, Prod.mk.injEq, reduceCtorEq, and_false, false_or] at hu
    obtain ⟨-, hu⟩ | hu := hu
    · cases hu
      cases hf.symm.trans hi
    · obtain ⟨r, m, m', hm⟩ := ih hin hw (hs.wrapped hmem hname hwraps) hl₁ hc₁ hu
      obtain ⟨r₀, hfollow⟩ := hm.callback hr hl hwraps hframe
        (hx.own?_self hin List.not_mem_nil)
      exact ⟨r₀, _, _, hfollow⟩

end Rewrites
end LabelHooks
