import LabelHooks.Proofs.Erasure
import LabelHooks.Proofs.Reading
import LabelHooks.Proofs.Registration
import LabelHooks.Proofs.Resolution

/-!
Mutations that stay in a program. Where the pass comes to one, it finds no state of that name;
so no state label before it declares the name in the scope where the name is found in the end.
-/

namespace LabelHooks
set_option autoImplicit true

open Pass Relation

namespace Table

variable {t t' t₁ : Table} {l : List ScopeId}

def Persists (t t' : Table) (l : List ScopeId) : Prop :=
  ∀ c ∈ l, ∀ x, (t.own? c x).isSome → (t'.own? c x).isSome

theorem Persists.trans (h : t.Persists t₁ l) (h' : t₁.Persists t' l) : t.Persists t' l :=
  fun c hc x hx => h' c hc x (h c hc x hx)

theorem Persists.free (h : t.Persists t' l) (hc : c ∈ l) (hx : t'.own? c x = none) :
    t.own? c x = none := by
  by_contra hne
  have hsome := h c hc x (Option.isSome_iff_ne_none.2 hne)
  rw [hx] at hsome
  cases hsome

end Table

namespace PassState

variable {p p' : PassState} {s c : ScopeId} {is js : List Nat} {l : List ScopeId}

def Clear (p : PassState) (is : List Nat) (l : List ScopeId) : Prop :=
  ∀ a ∈ l, ∃ i, p.table.OpenedBy a i ∧ i ∉ is ∧ i < p.nextNode

theorem Clear.mono (h : p.Clear is l) (hsub : ∀ i ∈ js, i ∈ is) : p.Clear js l := by
  intro a ha
  obtain ⟨i, hopen, hi, hlt⟩ := h a ha
  exact ⟨i, hopen, fun hj => hi (hsub i hj), hlt⟩

theorem Clear.cons (h : p.Clear is l) (hopen : p.table.OpenedBy c i) (hi : i ∉ is)
    (hlt : i < p.nextNode) : p.Clear is (c :: l) := by
  intro a ha
  obtain rfl | ha := List.mem_cons.1 ha
  · exact ⟨i, hopen, hi, hlt⟩
  · exact h a ha

namespace Frame

theorem clear (h : p.Frame p' s is ds) (hc : p.Clear js l) (hsub : ∀ i ∈ is, i ∈ js) :
    p'.Clear js l := by
  intro a ha
  obtain ⟨i, hopen, hi, hlt⟩ := hc a ha
  have hi' : i ∉ is := fun hmem => hi (hsub i hmem)
  exact ⟨i, h.openedBy hopen hi' hlt, hi, Nat.lt_of_lt_of_le hlt h.next⟩

theorem scope_of_clear (h : p.Frame p' s is ds) (hc : p.Clear is l) (ha : a ∈ l)
    (hsc : p.table.scopes[a]? = some sc) : ∃ sc', p'.table.scopes[a]? = some sc' ∧
      sc'.parent = sc.parent ∧
      ∀ x, x ∈ sc.declared.map (·.name) → x ∈ sc'.declared.map (·.name) := by
  obtain ⟨i, hopen, hi, hlt⟩ := hc a ha
  by_cases heq : a = s
  · subst heq
    obtain ⟨sc', hsc', -, -, hparent, hnames⟩ := h.self sc hsc
    exact ⟨sc', hsc', hparent, fun x hx => (hnames x).2 (.inl hx)⟩
  · exact ⟨sc, (h.scopes a i hopen heq hi hlt).trans hsc, rfl, fun _ hx => hx⟩

theorem path (h : p.Frame p' s is ds) (hl : p.table.Path c l) (hc : p.Clear is l) :
    p'.table.Path c l := by
  induction hl with
  | root hs hp =>
    obtain ⟨sc', hs', hp', -⟩ := h.scope_of_clear hc List.mem_cons_self hs
    exact .root hs' (hp'.trans hp)
  | child hs hp _ ih =>
    obtain ⟨sc', hs', hp', -⟩ := h.scope_of_clear hc List.mem_cons_self hs
    exact .child hs' (hp'.trans hp) (ih fun a ha => hc a (List.mem_cons_of_mem _ ha))

theorem persists (h : p.Frame p' s is ds) (hc : p.Clear is l) :
    p.table.Persists p'.table l := by
  intro a ha x hx
  obtain ⟨d, hd⟩ := Option.isSome_iff_exists.1 hx
  obtain ⟨sc, hsc, hown⟩ := Option.bind_eq_some_iff.1 hd
  obtain ⟨sc', hsc', -, hnames⟩ := h.scope_of_clear hc ha hsc
  have hmem : x ∈ sc.declared.map (·.name) := Scope.isSome_own?.1 (by rw [hown]; rfl)
  rw [Table.own?, hsc', Option.bind_some]
  exact Scope.isSome_own?.2 (hnames x hmem)

end Frame
end PassState

namespace Sites

def Opened (t : Table) (xs : Sites) (a : ScopeId) : Prop := ∃ i ∈ xs.ids, t.OpenedBy a i

theorem Opened.mono {xs ys : Sites} (h : xs.Opened t a) (hsub : ∀ i ∈ xs.ids, i ∈ ys.ids) :
    ys.Opened t a := by
  obtain ⟨i, hi, hopen⟩ := h
  exact ⟨i, hsub i hi, hopen⟩

theorem Placed.way {ok : ScopeId → Scope → Sites → Prop} {xs : Sites} (h : xs.Placed ok t s)
    (hd : xs.Distinct) (hl : t.Path s l) (hx : (r, x) ∈ xs.placed t s) :
    ∃ m, t.Path r (m ++ l) ∧ ∀ a ∈ m, xs.Opened t a := by
  induction xs generalizing s l with
  | nil => cases hx
  | site y rest ih =>
    obtain hx | hx := List.mem_cons.1 hx
    · cases hx
      exact ⟨[], hl, by simp⟩
    · obtain ⟨m, hm, hway⟩ := ih h.2 hd.site.2.2.1 hl hx
      exact ⟨m, hm, fun a ha => (hway a ha).mono (by simp +contextual)⟩
  | hoist inner rest ihi ih =>
    obtain hx | hx := List.mem_append.1 hx
    · obtain ⟨m, hm, hway⟩ := ihi h.1 hd.hoist.1 hl hx
      exact ⟨m, hm, fun a ha => (hway a ha).mono (by simp +contextual)⟩
    · obtain ⟨m, hm, hway⟩ := ih h.2 hd.hoist.2.1 hl hx
      exact ⟨m, hm, fun a ha => (hway a ha).mono (by simp +contextual)⟩
  | scope k n inner rest ihi ih =>
    obtain ⟨⟨c, sc, hopen, -, hin⟩, hrest⟩ := h
    obtain ⟨j, hj, -, -, hdi, hdr, -⟩ := hd.scope
    obtain hx | hx := List.mem_append.1 hx
    · rw [hopen.owner] at hx
      obtain ⟨m, hm, hway⟩ := ihi hin hdi (.child hopen.scope hopen.parent hl) hx
      refine ⟨m ++ [c], by rwa [List.append_assoc], fun a ha => ?_⟩
      obtain ha | ha := List.mem_append.1 ha
      · exact (hway a ha).mono (by simp +contextual)
      · obtain rfl := List.mem_singleton.1 ha
        exact ⟨j, by simp [hj], hopen.openedBy hj⟩
    · obtain ⟨m, hm, hway⟩ := ih hrest hdr hl hx
      exact ⟨m, hm, fun a ha => (hway a ha).mono (by simp +contextual)⟩

end Sites

namespace Parts

variable {ps qs : Parts} {x : Part} {u : Ident}

def Mutates (ps : Parts) (u : Ident) : Prop := ∃ x ∈ ps.flat, x.role = .mutation u

theorem mutates_append : (ps ++ qs).Mutates u ↔ ps.Mutates u ∨ qs.Mutates u := by
  simp only [Mutates, flat_append, List.mem_append, or_and_right, exists_or]

theorem mutates_above : (above x ps).Mutates u ↔ x.role = .mutation u ∨ ps.Mutates u := by
  simp [Mutates]

theorem not_mutates_nil : ¬ Parts.nil.Mutates u := by
  rintro ⟨x, hx, -⟩
  cases hx

theorem Covers.mutates (h : ps.Covers qs) (hu : qs.Mutates u) : ps.Mutates u := by
  obtain ⟨x, hx, hrole⟩ := hu
  obtain ⟨y, hy, heq⟩ := h.roles x hx (by rw [hrole]; rfl)
  exact ⟨y, hy, heq.trans hrole⟩

end Parts

/-- A mutation of `u` among the sites `ys` that `xs` were rewritten into: the pass came to it in
state `q` and scope `r`, and it found no state. State labels among `xs` were registered by then, or
they stand after it. -/
structure Missed (o : Options) (N : Nat) (T : List Text) (W : List Mark) (s : ScopeId)
    (p : PassState) (xs : Sites) (p' : PassState) (ys : Sites) (u : Ident) (q : PassState)
    (r : ScopeId) (l : List ScopeId) : Prop where
  edits : ReflTransGen (PassState.Edit N T W) p q
  nothing : q.done.bindings.reactive? q.table u.name r = none
  before : q.table.Path r l
  after : p'.table.Path r l
  persists : q.table.Persists p'.table l
  use : (r, .use u) ∈ ys.placed p'.table s
  anchor : u ∈ xs.anchors
  labels : ∀ a ∈ xs.states o p.table s,
    q.done.bindings.Has a.1 a.2.2.name ∨ [u, a.2.1].Sublist xs.anchors

namespace Missed

variable {o : Options} {N : Nat} {T : List Text} {W : List Mark} {s s' r : ScopeId}
  {p p' p₁ p₂ q : PassState} {xs xs' ys ys' : Sites} {u : Ident} {l m : List ScopeId}

theorem recast (h : Missed o N T W s p₁ xs p' ys u q r m)
    (he : ReflTransGen (PassState.Edit N T W) p p₁)
    (hs : ∀ a ∈ xs'.states o p.table s', a ∈ xs.states o p₁.table s)
    (ha : xs.anchors.Sublist xs'.anchors)
    (hy : ∀ a ∈ ys.placed p'.table s, a ∈ ys'.placed p'.table s') :
    Missed o N T W s' p xs' p' ys' u q r m where
  edits := he.trans h.edits
  nothing := h.nothing
  before := h.before
  after := h.after
  persists := h.persists
  use := hy _ h.use
  anchor := ha.subset h.anchor
  labels a hmem := (h.labels a (hs a hmem)).imp_right (·.trans ha)

theorem later (h : Missed o N T W s p xs p₁ ys u q r m) (he : Effect s p xs p₁ ys ds)
    (hl : p₁.table.Path s l) (hc : p₁.Clear is l)
    (ha : ∀ j ∈ ys.ids, j ∉ is ∧ j < p₁.nextNode) (hf : p₁.Frame p₂ s is ds') :
    Missed o N T W s p xs p₂ ys u q r m := by
  obtain ⟨m', hm', hway⟩ := he.placed.way he.distinct hl h.use
  obtain rfl := hm'.unique h.after
  have hclear : p₁.Clear is (m' ++ l) := by
    intro a hmem
    obtain hmem | hmem := List.mem_append.1 hmem
    · obtain ⟨i, hi, hopen⟩ := hway a hmem
      exact ⟨i, hopen, ha i hi⟩
    · exact hc a hmem
  refine { h with
    after := hf.path h.after hclear
    persists := h.persists.trans (hf.persists hclear)
    use := ?_ }
  rw [Sites.placed_congr (hf.owners_of_nodes ha)]
  exact h.use

theorem left (h : Missed o N T W s p xs p' xs' u q r m) (ys ys' : Sites) :
    Missed o N T W s p (xs ++ ys) p' (xs' ++ ys') u q r m := by
  refine { h with use := ?_, anchor := ?_, labels := ?_ }
  · rw [Sites.placed_eq_append]
    exact List.mem_append_left _ h.use
  · rw [Sites.anchors_append]
    exact List.mem_append_left _ h.anchor
  · intro a ha
    rw [Sites.states_append, List.mem_append] at ha
    rw [Sites.anchors_append]
    obtain ha | ha := ha
    · exact (h.labels a ha).imp_right (·.trans (List.sublist_append_left _ _))
    · have hu := List.singleton_sublist.2 h.anchor
      have hlabel := List.singleton_sublist.2 (Sites.anchor_of_state ha)
      exact .inr (hu.append hlabel)

theorem right (h : Missed o N T W s p₁ ys p' ys' u q r m)
    (he : ReflTransGen (PassState.Edit N T W) p p₁)
    (hn : ∀ n ∈ ys.nodes, p₁.table.scopeOf? n.mark = p.table.scopeOf? n.mark)
    (hx : ∀ a ∈ xs.states o p.table s, p₁.done.bindings.Has a.1 a.2.2.name) (xs' : Sites) :
    Missed o N T W s p (xs ++ ys) p' (xs' ++ ys') u q r m := by
  refine { h with edits := he.trans h.edits, use := ?_, anchor := ?_, labels := ?_ }
  · rw [Sites.placed_eq_append]
    exact List.mem_append_right _ h.use
  · rw [Sites.anchors_append]
    exact List.mem_append_right _ h.anchor
  · intro a ha
    rw [Sites.states_append, List.mem_append] at ha
    rw [Sites.anchors_append]
    obtain ha | ha := ha
    · exact .inl ((hx a ha).mono (PassState.bindings_of_edits h.edits))
    · rw [← Sites.states_congr hn] at ha
      exact (h.labels a ha).imp_right (·.trans (List.sublist_append_right _ _))

theorem hoist (h : Missed o N T W s p xs p' ys u q r m) :
    Missed o N T W s p (.hoist xs .nil) p' (.hoist ys .nil) u q r m := by
  apply h.recast .refl
  · simp
  · simp [Sites.anchors, Sites.flat]
  · simp [Sites.placed]

theorem scope (h : Missed o N T W c p xs p' ys u q r m) (ho : p.table.scopeOf? n.mark = some c)
    (ho' : p'.table.scopeOf? n'.mark = some c) :
    Missed o N T W s p (.scope k n xs .nil) p' (.scope k n' ys .nil) u q r m := by
  apply h.recast .refl
  · simp [ho]
  · simp [Sites.anchors, Sites.flat]
  · simp [Sites.placed, ho']

theorem watch {params : List Ident} {inner : Sites}
    (h : Missed o N T W c (p.marked (p.table.watched n.mark (p.newMark span) c)) inner p' ys u q r
      m)
    (hr : Sites.Ready N p s
      (.scope .function n (.ofList (params.map (.bind .param)) ++ inner) .nil))
    (ho : p.table.Opens s .function n c sc) (hw : o.watched? i.name body = some n.mark)
    (hW : n.mark ∈ W) (hpre : ∀ x ∈ pre, Site.isPlain x = true)
    (hf : (p.marked (p.table.watched n.mark (p.newMark span) c)).Frame p' c inner.ids ds) :
    Missed o N T W s p (.site (.label i body) (.ofList pre ++ .scope .function n
      (.ofList (params.map (.bind .param)) ++ inner) .nil)) p'
      (.scope .function ⟨.arrowFunc, p.newMark span, []⟩ ys .nil) u q r m := by
  obtain ⟨_, _, j, -, -, hj, -, hlt, -⟩ := hr.ofScope
  apply h.recast (.single (.watch hW hj hlt ho))
  · rw [Sites.states_watch hw hpre ho.owner, ← Sites.states_congr (hr.owners_watched ho)]
    exact fun _ h => h
  · simp only [Sites.anchors, Sites.flat, Sites.flat_append, Sites.flat_ofList, List.append_nil]
    apply List.Sublist.filterMap
    exact ((List.sublist_append_right _ _).trans (List.sublist_append_right _ _)).cons _
  · simp [Sites.placed, hr.owner_watched ho hf]

theorem callback {t : Table} {i f : Ident} {e : Expr}
    (h : Missed o N T W p.table.scopes.length (p.marked t) e.sites p' ys u q r m)
    (hr : e.sites.Ready N p s) (hb : b ∈ p.done.bindings) (hi : b.name = i.name)
    (hw : p.table.Wraps t (p.newMark span) i s e.sites cs)
    (hf : (p.marked t).Frame p' p.table.scopes.length e.sites.ids ds) :
    Missed o N T W s p e.sites p' (.site (.call f (p.newMark span) i) (.site (.use f)
      (.scope .function ⟨.arrowFunc, p.newMark span, []⟩ (.site (.bind .param i) ys) .nil)))
      u q r m := by
  refine h.recast (.single (.callback hb hi hw)) ?_ (.refl _) ?_
  · rw [← hr.states_wrapped hw]
    exact fun _ h => h
  · simp +contextual [Sites.placed, hr.owner_wrapped hw hf]

theorem here (hb : p.done.bindings.reactive? p.table u.name s = none) (hl : p.table.Path s l)
    (hc : p.Clear xs.ids l) (hf : p.Frame p' s xs.ids ds) :
    Missed o N T W s p (.site (.use u) xs) p' (.site (.use u) ys) u p s l where
  edits := .refl
  nothing := hb
  before := hl
  after := hf.path hl hc
  persists := hf.persists hc
  use := List.mem_cons_self
  anchor := List.mem_cons_self
  labels a ha := by
    have hxs : a ∈ xs.states o p.table s := by simpa [Site.state?] using ha
    have hlabel := List.singleton_sublist.2 (Sites.anchor_of_state hxs)
    exact .inr (hlabel.cons_cons u)

end Missed

namespace PassState.Clear

variable {N : Nat} {p p₁ : PassState} {s c : ScopeId} {l : List ScopeId} {xs ys inner : Sites}
  {n : Node}

theorem left (h : p.Clear (xs ++ ys).ids l) : p.Clear xs.ids l :=
  h.mono fun i hi => by simp [hi]

theorem next (h : p.Clear (xs ++ ys).ids l) (hf : p.Frame p₁ s xs.ids ds) : p₁.Clear ys.ids l :=
  (hf.clear h fun i hi => by simp [hi]).mono fun i hi => by simp [hi]

theorem inside (h : p.Clear (Sites.scope k n inner .nil).ids l) (ho : p.table.Opens s k n c sc)
    (hj : n.mark.id = some j) (hji : j ∉ inner.ids) (hlt : j < p.nextNode) :
    p.Clear inner.ids (c :: l) :=
  (h.mono (by simp +contextual)).cons (ho.openedBy hj) hji hlt

theorem watched (hr : Sites.Ready N p s (.scope .function n (params ++ inner) .nil))
    (hl : p.table.Path s l) (h : p.Clear (Sites.scope .function n (params ++ inner) .nil).ids l)
    (ho : p.table.Opens s .function n c sc) (hj : n.mark.id = some j) :
    (p.marked (p.table.watched n.mark (p.newMark span) c)).table.Path c (c :: l) ∧
      (p.marked (p.table.watched n.mark (p.newMark span) c)).Clear inner.ids (c :: l) := by
  obtain ⟨i, hs, hi, -⟩ := hr.around
  have hframe := Frame.watched p ho.owner hj (by simp [hj]) (ho.openedBy hj) hs hi span
  have hopen := ho.watched (m := p.newMark span) rfl
  refine ⟨.child hopen.scope hopen.parent (hframe.path hl h), ?_⟩
  refine ((hframe.clear h fun _ hi => hi).mono (by simp +contextual)).cons (hopen.openedBy rfl) ?_
    (Nat.lt_succ_self _)
  exact fun hmem => hr.next_not_mem (by simp [hmem])

theorem wrapped (hr : Sites.Ready N p s xs) (hl : p.table.Path s l) (h : p.Clear xs.ids l)
    (hw : p.table.Wraps t (p.newMark span) q s xs cs) :
    (p.marked t).table.Path p.table.scopes.length (p.table.scopes.length :: l) ∧
      (p.marked t).Clear xs.ids (p.table.scopes.length :: l) := by
  obtain ⟨i, hs, hi, -⟩ := hr.around
  have hframe := Frame.wrapped hw hs hi
  exact ⟨hw.path_new hl, (hframe.clear h fun _ hi => hi).cons
    ⟨_, _, (hw.scopes _).trans (if_pos rfl), rfl, rfl⟩ hr.next_not_mem (Nat.lt_succ_self _)⟩

end PassState.Clear

theorem Rewrites.missed (h : Rewrites o s p xs ps p' ys qs ds) (hr : xs.Ready N p s)
    (hw : xs.Within o T W) (hl : p.table.Path s l) (hc : p.Clear xs.ids l) (hv : ps.Visited)
    (hu : qs.Mutates u) : ∃ q r m, Missed o N T W s p xs p' ys u q r m := by
  -- by induction on the rewriting, with the scopes around it; that they are clear is what keeps
  -- them in the table while the pass goes on inside them
  induction h generalizing l with
  | keep | drop | add | renode | relabel | note | share | state =>
    exact absurd hu Parts.not_mutates_nil
  | hide =>
    obtain ⟨x, hx, hrole⟩ := hu
    have hword := Parts.visited_skip.1 hv x (by simpa [Parts.flat] using hx)
    cases (Part.role_of_isWord hword).symm.trans hrole
  | append hx hy ihx ihy =>
    obtain ⟨hvx, hvy⟩ := Parts.visited_append.1 hv
    have hex := hx.effect hr.left
    have hnext := hr.next hex.frame
    have hl₁ := hex.frame.path hl hc.left
    have hc₁ := hc.next hex.frame
    -- labels on the right come after a mutation on the left; when the pass comes to one on the
    -- right, it has registered the labels on the left
    obtain hu | hu := Parts.mutates_append.1 hu
    · obtain ⟨q, r, m, hm⟩ := ihx hr.left hw.left hl hc.left hvx hu
      exact ⟨q, r, m, (hm.later hex hl₁ hc₁ (hex.apart hr) (hy.effect hnext).frame).left _ _⟩
    · obtain ⟨q, r, m, hm⟩ := ihy hnext hw.right hl₁ hc₁ hvy hu
      exact ⟨q, r, m, hm.right (hx.edits hr.left hw.left) (hex.frame.owners_of_nodes hr.apart)
        (hx.registers hr.left hvx) _⟩
  | hoist _ ih =>
    obtain ⟨q, r, m, hm⟩ := ih hr.ofHoist (hw.mono (by simp [Sites.flat])) hl
      (hc.mono (by simp +contextual)) hv hu
    exact ⟨q, r, m, hm.hoist⟩
  | scope hx ih =>
    obtain ⟨c, sc, j, hopen, -, hj, hji, hlt, hin⟩ := hr.ofScope
    have hlt := Nat.lt_of_lt_of_le hlt hr.bound
    rw [hopen.owner] at ih hx
    obtain ⟨q, r, m, hm⟩ := ih hin hw.inside (.child hopen.scope hopen.parent hl)
      (hc.inside hopen hj hji hlt) hv hu
    exact ⟨q, r, m, hm.scope hopen.owner ((hx.effect hin).frame.owner hopen.owner hj hji hlt)⟩
  | part hx hk _ ih =>
    obtain hrole | hu := Parts.mutates_above.1 hu
    · rw [← hx, hrole] at hk
      exact hk.elim
    · exact ih hr hw hl hc (Parts.visited_above.1 hv) hu
  | recast hp hq _ ih => exact ih hr hw hl hc (hp.visited hv) (hq.mutates hu)
  | stray hx => cases hx.symm.trans (hr.memberFree _ List.mem_cons_self)
  | call _ _ _ ih =>
    obtain ⟨q, r, m, hm⟩ := ih hr hw hl hc hv hu
    exact ⟨q, r, m, hm.recast .refl (fun _ h => h) (.refl _) fun _ h => List.mem_cons_of_mem _ h⟩
  | memo _ _ _ hx ih =>
    obtain ⟨q, r, m, hm⟩ := ih hr hw hl hc hv hu
    have hex := hx.effect hr
    have hclear : PassState.Clear _ [] l :=
      (hex.frame.clear hc fun _ h => h).mono fun _ h => absurd h List.not_mem_nil
    exact ⟨q, r, m, .recast (hm.later hex (hex.frame.path hl hc) hclear
      (fun j hj => ⟨List.not_mem_nil, hex.lt_next hr j hj⟩) (.declare _ _ _ _ _ _)) .refl
      (fun _ h => h) (.refl _) fun _ h => List.mem_cons_of_mem _ h⟩
  | watch hm hpre hy hx hf ih =>
    have hscope := hr.underLabel
    obtain ⟨rfl, rfl, hin, sc, j, hopen, hj, -⟩ := hscope.ofWatch hy
    rw [Parts.visited_above, Parts.visited_append] at hv
    obtain ⟨hl₁, hc₁⟩ := PassState.Clear.watched hscope hl (hc.mono (by simp +contextual)) hopen hj
    have hu : Parts.Mutates _ u := (Parts.mutates_above.1 hu).resolve_left (by simp [hf])
    obtain ⟨q, r, m, hmiss⟩ := ih hin (hw.mono (by simp +contextual [Sites.flat])) hl₁ hc₁ hv.2 hu
    have hmem := (hw _ List.mem_cons_self).2 _ hm
    exact ⟨q, r, m, hmiss.watch hscope hopen hm hmem hpre (hx.effect hin).frame⟩
  | miss hb hx hy h ih =>
    have hin := hr.split.right
    obtain hrole | hu := Parts.mutates_above.1 hu
    · cases hy.symm.trans hrole
      exact ⟨_, _, _, .here hb hl (hc.mono (by simp +contextual)) (h.effect hin).frame⟩
    · obtain ⟨q, r, m, hm⟩ := ih hin (hw.mono fun _ h => List.mem_cons_of_mem _ h) hl
        (hc.mono (by simp +contextual)) (Parts.visited_above.1 hv) hu
      refine ⟨q, r, m, hm.recast .refl ?_ ?_ fun _ h => List.mem_cons_of_mem _ h⟩
      · simp [Site.state?]
      · exact List.sublist_cons_self _ _
  | callback hb hy _ hx _ _ hp _ ha ih =>
    obtain ⟨rfl, hin, t, cs, rfl, hwraps⟩ := hr.ofCallback hy
    obtain ⟨hmem, hname, -⟩ := Registry.of_reactive? hb
    obtain ⟨hl₁, hc₁⟩ := PassState.Clear.wrapped hr hl hc hwraps
    have hu : Parts.Mutates _ u := (Parts.mutates_above.1 hu).resolve_left (by simp [ha])
    obtain ⟨q, r, m, hmiss⟩ := ih hin hw hl₁ hc₁ (hp.visited hv) hu
    exact ⟨q, r, m, hmiss.callback hr hmem hname hwraps (hx.effect hin).frame⟩

theorem Sites.node_of_anchor {xs : Sites} (h : u ∈ xs.anchors) : Node.ofIdent u ∈ xs.nodes := by
  obtain ⟨x, hx, hanchor⟩ := List.mem_filterMap.1 h
  apply mem_nodes_of_flat hx
  apply x.anchor_sublist.subset
  rw [hanchor]
  exact List.mem_cons_self

namespace Program

variable {o : Options} {p : Program} {d : Desugared} {log : List LogRecord} {p' : PassState}
  {ds : List Text} {u : Ident}

theorem Run.missed (h : p.Run o d p' ds) (hfree : p.sites.MemberFree) (hv : p.parts.Visited)
    (hu : d.program.parts.Mutates u) : ∃ q r m,
    Missed o p.numbered.2 (p.numbered.1.sites.targets o) (p.numbered.1.sites.watchers o) Table.root
      (start p.numbered) p.numbered.1.sites p' d.program.sites u q r m := by
  have hr := ready_numbered hfree
  obtain ⟨sc, hsc, -, -, hparent, -⟩ := p.distinct_numbered.1.analysed.root
  have hclear : (start p.numbered).Clear p.numbered.1.sites.ids [Table.root] := by
    intro a ha
    obtain rfl := List.mem_singleton.1 ha
    exact hr.around
  exact h.rewrites.missed hr (Sites.within_self o _) (.root hsc hparent) hclear
    (visited_numbered hv) hu

/-- A mutation of a name that is left in the program stands in one scope. If the name is found from
there in scope `S`, every state label that declares it in `S` comes later in a walk. -/
theorem desugar_misses_nothing (hp : Program.parse src = .ok p) (hfree : p.sites.MemberFree)
    (h : p.desugar o = (log, .ok d)) (hu : d.program.parts.Mutates u) :
    ∃ s, (∀ r, (r, u) ∈ d.program.sites.uses d.table Table.root ↔ r = s) ∧
      ∀ S e l x, d.table.lookup? s u.name = some (S, e) →
        (S, l, x) ∈ p.numbered.1.sites.states o.withDefaults p.numbered.1.analyze Table.root →
        x.name = u.name → [Node.ofIdent u, Node.ofIdent l].Sublist p.numbered.1.nodes := by
  obtain ⟨p', ds, hrun⟩ := run_of_desugar h
  obtain ⟨q, s, m, hm⟩ := hrun.missed hfree (visited_of_parse hp) hu
  obtain ⟨i, -, hi⟩ := p.distinct_numbered.2.2 _ (Sites.node_of_anchor hm.anchor)
  rw [hrun.table]
  refine ⟨s, fun r => ⟨fun hr => ?_, fun hr => ?_⟩, ?_⟩
  · exact ((hrun.distinct hfree).sites.use_unique (Sites.mem_uses.1 hr) hm.use hi hi).1
  · rw [hr]
    exact Sites.mem_uses.2 hm.use
  · intro S e l x hfound hlabel hx
    obtain ⟨l₁, l₂, rfl, hnone⟩ := Table.lookup?_split hm.after hfound
    obtain hstate | hsub := hm.labels _ hlabel
    · -- the state would have been found
      have hstart : (start p.numbered).Declared := fun b hb => nomatch hb
      have hdeclared := (hstart.edits hm.edits).isSome
      have hbefore : ∀ c ∈ l₁, q.table.own? c u.name = none := fun c hc =>
        hm.persists.free (List.mem_append_left _ hc) (hnone c hc)
      rw [hx] at hstate
      exact absurd hm.nothing (Registry.reactive?_ne_none hm.before hstate hbefore hdeclared)
    · exact (hsub.map Node.ofIdent).trans p.numbered.1.anchors_sublist

/-- Before its label, a state is assigned as it stands. -/
theorem desugar_misses_nothing_early :
    ∃ p log d u s S e l x, Program.parse
        ("function f() \x7b n++; ref: n = 0; n = () => \x7b n = 1 \x7d \x7d" : Text) = .ok p ∧
      p.sites.MemberFree ∧ p.desugar .empty = (log, .ok d) ∧ d.program.parts.Mutates u ∧
      (s, u) ∈ d.program.sites.uses d.table Table.root ∧
      d.table.lookup? s u.name = some (S, e) ∧ e.kind = .reactive ∧
      (S, l, x) ∈ p.numbered.1.sites.states Options.empty.withDefaults p.numbered.1.analyze
        Table.root ∧ x.name = u.name ∧
      [Node.ofIdent u, Node.ofIdent l].Sublist p.numbered.1.nodes := by
  obtain ⟨p, log, d, hp, hd, h⟩ := Text.exists_of_desugars .empty
    "function f() \x7b n++; ref: n = 0; n = () => \x7b n = 1 \x7d \x7d"
    (fun p d => decide (p.sites.MemberFree ∧
      ∃ u ∈ d.program.sites.uses d.table Table.root,
        (∃ y ∈ d.program.parts.flat, y.role = .mutation u.2) ∧
        ∃ a ∈ p.numbered.1.sites.states Options.empty.withDefaults p.numbered.1.analyze Table.root,
          (d.table.lookup? u.1 u.2.name).map (fun f => (f.1, f.2.kind)) = some (a.1, .reactive) ∧
          a.2.2.name = u.2.name))
    (by decide +kernel)
  obtain ⟨hfree, ⟨s, u⟩, hu, hmut, ⟨S, l, x⟩, hlabel, hfound, hx⟩ := of_decide_eq_true h
  obtain ⟨⟨S', e⟩, he, heq⟩ := Option.map_eq_some_iff.1 hfound
  obtain ⟨rfl, hkind⟩ := Prod.mk.inj heq
  obtain ⟨s', hs, hlater⟩ := desugar_misses_nothing hp hfree hd hmut
  obtain rfl := (hs s).1 hu
  exact ⟨p, log, d, u, s, S', e, l, x, hp, hfree, hd, hmut, hu, he, hkind, hlabel, hx,
    hlater S' e l x he hlabel hx⟩

end Program
end LabelHooks
