import LabelHooks.Proofs.Tracking

/-!
State labels and the registry: every state label that the pass has visited is registered in its
scope, and a name finds the state that is registered in the scope where it is declared first.
-/

namespace LabelHooks
set_option autoImplicit true

open Pass

namespace Table

variable {t : Table} {s a S : ScopeId} {l l₁ l₂ : List ScopeId}

theorem Path.from_mem (h : t.Path s (l₁ ++ a :: l₂)) : t.Path a (a :: l₂) := by
  induction l₁ generalizing s with
  | nil =>
    cases h with
    | root hs hp => exact .root hs hp
    | child hs hp hl => exact .child hs hp hl
  | cons c l₁ ih =>
    cases hl : l₁ ++ a :: l₂ with
    | nil => simp at hl
    | cons d l' =>
      rw [List.cons_append, hl] at h
      cases h with
      | child hs hp hpath =>
        rw [← hl] at hpath
        exact ih hpath

theorem Path.encloses_of_mem (h : t.Path s (m ++ i :: l)) (ha : a ∈ m ++ [i]) :
    t.encloses i a = true := by
  obtain ha | ha := List.mem_append.1 ha
  · obtain ⟨m₁, m₂, rfl⟩ := List.append_of_mem ha
    rw [List.append_assoc] at h
    exact (encloses_iff h.from_mem).2 (by simp)
  · obtain rfl := List.mem_singleton.1 ha
    exact (encloses_iff h.from_mem).2 List.mem_cons_self

theorem Path.depth_lt (h : t.Path s (l₁ ++ a :: l₂)) (hb : b ∈ l₂) : t.depth b < t.depth a := by
  have ha := h.from_mem
  have hda : t.depth a = l₂.length := by
    rw [depth, ha.chain_eq, List.length_cons, Nat.add_sub_cancel]
  cases ha with
  | root => cases hb
  | child hs hp hl =>
    obtain ⟨l', hl', hsuf⟩ := hl.of_mem hb
    have hle := hsuf.length_le
    have hpos := List.length_pos_of_mem hb
    rw [hda, depth, hl'.chain_eq]
    omega

theorem own?_of_lookup? (h : t.lookup? s x = some (S, e)) : t.own? S x = some e := by
  obtain ⟨c, -, hc⟩ := List.exists_of_findSome?_eq_some h
  obtain ⟨d, hd, heq⟩ := Option.map_eq_some_iff.1 hc
  cases heq
  exact hd

theorem lookup?_split (hl : t.Path s l) (h : t.lookup? s x = some (S, e)) :
    ∃ l₁ l₂, l = l₁ ++ S :: l₂ ∧ ∀ c ∈ l₁, t.own? c x = none := by
  rw [lookup?_of_path hl, along] at h
  obtain ⟨l₁, c, l₂, rfl, hc, hnone⟩ := List.findSome?_eq_some_iff.1 h
  obtain ⟨d, -, hd⟩ := Option.map_eq_some_iff.1 hc
  cases hd
  refine ⟨l₁, l₂, rfl, ?_⟩
  intro c hc
  exact Option.map_eq_none_iff.1 (hnone c hc)

end Table

namespace Registry

variable {r r' : Registry} {t : Table} {name : Text} {s S : ScopeId} {a b c : Reactive}
  {l₁ l₂ : List ScopeId}

def Has (r : Registry) (s : ScopeId) (name : Text) : Prop := ∃ b ∈ r, b.name = name ∧ b.scope = s

theorem Has.mono (h : Has r s name) (hsub : ∀ b ∈ r, b ∈ r') : Has r' s name := by
  obtain ⟨b, hb, hname, hs⟩ := h
  exact ⟨b, hsub b hb, hname, hs⟩

theorem better_deeper (t : Table) (name : Text) (s : ScopeId) (c a : Reactive) :
    ∃ b, better t name s (some c) a = some b ∧ t.depth c.scope ≤ t.depth b.scope := by
  unfold better
  split
  · dsimp only
    split
    · next hle => exact ⟨a, rfl, hle⟩
    · exact ⟨c, rfl, Nat.le_refl _⟩
  · exact ⟨c, rfl, Nat.le_refl _⟩

theorem foldl_better_deeper (r : Registry) (t : Table) (name : Text) (s : ScopeId)
    (c : Reactive) :
    ∃ b, r.foldl (better t name s) (some c) = some b ∧ t.depth c.scope ≤ t.depth b.scope := by
  induction r generalizing c with
  | nil => exact ⟨c, rfl, Nat.le_refl _⟩
  | cons a r ih =>
    obtain ⟨b, hb, hle⟩ := better_deeper t name s c a
    obtain ⟨d, hd, hle'⟩ := ih b
    rw [List.foldl_cons, hb]
    exact ⟨d, hd, Nat.le_trans hle hle'⟩

theorem better_of_match (best : Option Reactive) (hname : a.name = name)
    (ha : t.encloses a.scope s = true) :
    ∃ b, better t name s best a = some b ∧ t.depth a.scope ≤ t.depth b.scope := by
  unfold better
  rw [if_pos (by simp [hname, ha])]
  cases best with
  | none => exact ⟨a, rfl, Nat.le_refl _⟩
  | some c =>
    dsimp only
    split
    · exact ⟨a, rfl, Nat.le_refl _⟩
    · next hlt => exact ⟨c, rfl, Nat.le_of_lt (Nat.not_le.1 hlt)⟩

theorem foldl_better_of_mem (best : Option Reactive) (hb : b ∈ r) (hname : b.name = name)
    (henc : t.encloses b.scope s = true) :
    ∃ c, r.foldl (better t name s) best = some c ∧ t.depth b.scope ≤ t.depth c.scope := by
  induction r generalizing best with
  | nil => cases hb
  | cons a r ih =>
    rw [List.foldl_cons]
    obtain rfl | hb := List.mem_cons.1 hb
    · obtain ⟨c, hc, hle⟩ := better_of_match best hname henc
      obtain ⟨d, hd, hle'⟩ := foldl_better_deeper r t name s c
      rw [hc]
      exact ⟨d, hd, Nat.le_trans hle hle'⟩
    · exact ih _ hb

theorem reaches_of_free (h : ∀ c ∈ l₁, t.own? c b.name = none) :
    reaches t b (l₁ ++ b.scope :: l₂) = true := by
  induction l₁ with
  | nil => simp [reaches]
  | cons c l₁ ih =>
    obtain ⟨hc, hl⟩ := List.forall_mem_cons.1 h
    rw [List.cons_append, reaches]
    split
    · rfl
    · rw [hc]
      exact ih hl

theorem reactive?_ne_none (hl : t.Path s (l₁ ++ S :: l₂)) (hb : r.Has S name)
    (hfree : ∀ c ∈ l₁, t.own? c name = none)
    (hdecl : ∀ b ∈ r, (t.own? b.scope b.name).isSome) : r.reactive? t name s ≠ none := by
  obtain ⟨b, hmem, hname, rfl⟩ := hb
  have henc : t.encloses b.scope s = true := (Table.encloses_iff hl).2 (by simp)
  obtain ⟨c, hlookup, hdepth⟩ := foldl_better_of_mem none hmem hname henc
  obtain hnone | ⟨hc, hcname, hcenc⟩ := foldl_better_eq_some hlookup
  · cases hnone
  -- `c` is not declared before, since the name is free there, and not further out than `b`
  have hscope : c.scope = b.scope := by
    obtain hin | hin := List.mem_append.1 ((Table.encloses_iff hl).1 hcenc)
    · have hsome := hdecl c hc
      rw [hcname, hfree _ hin] at hsome
      cases hsome
    · obtain heq | hin := List.mem_cons.1 hin
      · exact heq
      · exact absurd hdepth (Nat.not_le.2 (hl.depth_lt hin))
  have hreach : resolves t s c = true := by
    rw [resolves, hl.chain_eq, ← hscope]
    apply reaches_of_free
    rw [hcname]
    exact hfree
  rw [reactive?, lookup?, hlookup, Option.filter_some, if_pos hreach]
  exact Option.some_ne_none c

end Registry

namespace PassState

variable {N : Nat} {T : List Text} {W : List Mark} {p p' : PassState}

def Declared (p : PassState) : Prop :=
  ∀ b ∈ p.done.bindings, ∃ d, p.table.own? b.scope b.name = some d ∧ d.kind ≠ .param

theorem Declared.isSome (h : p.Declared) :
    ∀ b ∈ p.done.bindings, (p.table.own? b.scope b.name).isSome := by
  intro b hb
  obtain ⟨d, hd, -⟩ := h b hb
  rw [hd]
  rfl

theorem declared_declare {t : Table} (h : t.own? c x = some d) (hd : d.kind ≠ .param)
    (hk : k ≠ .param) (s : ScopeId) (name : Text) (i : Option Ident) :
    ∃ d', (t.declare s name k i).own? c x = some d' ∧ d'.kind ≠ .param := by
  rw [Table.own?_declare]
  split
  · exact ⟨_, rfl, hk⟩
  · exact ⟨d, h, hd⟩

theorem Edit.declared (h : p.Edit N T W p') (hp : p.Declared) : p'.Declared := by
  cases h with
  | note hs =>
    intro b hb
    rw [hs.bindings] at hb
    rw [hs.table]
    exact hp b hb
  | share =>
    intro b hb
    obtain ⟨d, hd, hk⟩ := hp b hb
    exact ⟨d, (Table.own?_bind _ _ _ _ _).trans hd, hk⟩
  | state ht hs hy =>
    obtain ⟨name, -, rfl, rfl⟩ := yields_declareState hy
    intro b hb
    obtain hb | hb := List.mem_append.1 hb
    · obtain ⟨d, hd, hk⟩ := hp b hb
      obtain ⟨d', hd', hk'⟩ := declared_declare hd hk (k := .generated) (by decide) _ name _
      exact declared_declare hd' hk' (by decide) _ _ _
    · obtain rfl := List.mem_singleton.1 hb
      obtain ⟨sc, n, hsc, -⟩ := hs
      have hlt := (List.getElem?_eq_some_iff.1 hsc).1
      refine ⟨⟨_, .reactive, _⟩, (Table.own?_declare ..).trans (if_pos ⟨rfl, rfl, ?_⟩), nofun⟩
      simpa [Table.declare] using hlt
  | memo ht =>
    intro b hb
    obtain ⟨d, hd, hk⟩ := hp b hb
    exact declared_declare hd hk (by decide) _ _ _
  | watch hw hi hlt ho =>
    intro b hb
    obtain ⟨d, hd, hk⟩ := hp b hb
    exact ⟨d, Table.own?_watched ho.owner hd hk, hk⟩
  | callback hb hq hw =>
    intro b hb
    obtain ⟨d, hd, hk⟩ := hp b hb
    refine ⟨d, (hw.own? _ _).trans ?_, hk⟩
    rw [if_neg, hd]
    obtain ⟨sc, hsc, -⟩ := Option.bind_eq_some_iff.1 hd
    exact Nat.ne_of_lt (List.getElem?_eq_some_iff.1 hsc).1

theorem Declared.edits (h : p.Declared) (he : Relation.ReflTransGen (Edit N T W) p p') :
    p'.Declared := by
  induction he with
  | refl => exact h
  | tail _ hstep ih => exact hstep.declared ih

end PassState

namespace Site

variable {o : Options} {x : Site}

def state? (o : Options) : Site → Option (Ident × Ident)
  | .label l body =>
    if o.classify l.name = .state then (o.declared? l.name body).map (l, ·) else none
  | .node _ | .use _ | .bind _ _ | .call _ _ _ | .share _ | .stray _ => none

theorem isLabel_of_state? (h : x.state? o = some a) : x.isLabel = true := by
  cases x with
  | label => rfl
  | node | use | bind | call | share | stray => cases h

theorem state?_label (h : (label k body).state? o = some (l, i)) :
    k = l ∧ o.declared? k.name body = some i := by
  rw [state?] at h
  split at h
  · obtain ⟨j, hj, heq⟩ := Option.map_eq_some_iff.1 h
    cases heq
    exact ⟨rfl, hj⟩
  · cases h

theorem anchor?_of_state? (h : x.state? o = some (l, i)) : x.anchor? = some l := by
  cases x with
  | label k body => rw [anchor?, (state?_label h).1]
  | node | use | bind | call | share | stray => cases h

theorem state?_of_isPlain (h : x.isPlain = true) : x.state? o = none := by
  cases x with
  | node | use => rfl
  | bind | label | call | share | stray => cases h

end Site

namespace Sites

variable {o : Options} {t t' : Table} {s c : ScopeId} {xs ys : Sites} {x : Site}

/-- The state labels with the names that they declare, each with the innermost scope around it. -/
def states (o : Options) (t : Table) (s : ScopeId) (xs : Sites) : List (ScopeId × Ident × Ident) :=
  (xs.placed t s).filterMap fun (r, x) => (x.state? o).map (r, ·)

@[simp] theorem states_nil : states o t s .nil = [] := rfl

@[simp] theorem states_append :
    (xs ++ ys).states o t s = xs.states o t s ++ ys.states o t s := by
  rw [states, placed_eq_append, List.filterMap_append, states, states]

@[simp] theorem states_site :
    (site x xs).states o t s = (x.state? o).toList.map (s, ·) ++ xs.states o t s := by
  cases h : x.state? o <;> simp [states, placed, h]

@[simp] theorem states_hoist :
    (hoist xs ys).states o t s = xs.states o t s ++ ys.states o t s := by
  simp only [states, placed, List.filterMap_append]

@[simp] theorem states_scope : (scope k n xs ys).states o t s =
    xs.states o t ((t.scopeOf? n.mark).getD s) ++ ys.states o t s := by
  simp only [states, placed, List.filterMap_append]

theorem mem_states :
    (r, a) ∈ xs.states o t s ↔ ∃ x, (r, x) ∈ xs.placed t s ∧ x.state? o = some a := by
  simp [states]

theorem states_congr (h : ∀ n ∈ xs.nodes, t'.scopeOf? n.mark = t.scopeOf? n.mark) :
    xs.states o t' s = xs.states o t s := by
  rw [states, placed_congr h, states]

theorem anchor_of_state (h : (r, l, i) ∈ xs.states o t s) : l ∈ xs.anchors := by
  obtain ⟨x, hx, hstate⟩ := mem_states.1 h
  exact List.mem_filterMap.2 ⟨x, mem_flat_of_placed hx, Site.anchor?_of_state? hstate⟩

theorem states_eq_nil (h : ∀ x ∈ xs.flat, x.state? o = none) : xs.states o t s = [] := by
  rw [List.eq_nil_iff_forall_not_mem]
  rintro ⟨r, a⟩ ha
  obtain ⟨x, hx, hstate⟩ := mem_states.1 ha
  cases (h x (mem_flat_of_placed hx)).symm.trans hstate

theorem LabelFree.states (h : xs.LabelFree) : xs.states o t s = [] := by
  apply states_eq_nil
  intro x hx
  by_contra hne
  obtain ⟨a, ha⟩ := Option.ne_none_iff_exists'.1 hne
  exact Bool.noConfusion ((h x hx).symm.trans (Site.isLabel_of_state? ha))

theorem states_ofList (h : ∀ x ∈ l, x.isPlain = true) : (ofList l).states o t s = [] := by
  apply states_eq_nil
  intro x hx
  rw [flat_ofList] at hx
  exact Site.state?_of_isPlain (h x hx)

/-- Labels in an expression stand in scopes that it opens, so that they stand there wherever the
expression does. -/
theorem Inert.states (h : xs.Inert) (hp : xs.Placed ok t s) (c : ScopeId) :
    xs.states o t c = xs.states o t s := by
  induction xs with
  | nil => rfl
  | site x rest ih =>
    have hnone : x.state? o = none := by
      cases x with
      | node | use | call => rfl
      | bind | label | share | stray => cases h.1
    rw [states_site, states_site, hnone, ih h.2 hp.2]
    rfl
  | hoist => exact h.elim
  | scope k n inner rest _ ih =>
    obtain ⟨⟨a, sc, hopen, -, -⟩, hrest⟩ := hp
    rw [states_scope, states_scope, hopen.owner, ih h.2 hrest]
    rfl

end Sites

theorem Options.classify_of_watched? {o : Options} (h : o.watched? l body = some m) :
    o.classify l = .watch := by
  unfold watched? at h
  split at h
  · next hwatch => exact hwatch
  · cases h

theorem Sites.states_watch {params : List Ident} {inner : Sites}
    (hm : o.watched? l.name body = some n.mark) (hpre : ∀ x ∈ pre, Site.isPlain x = true)
    (ho : t.scopeOf? n.mark = some c) :
    states o t s (.site (.label l body) (.ofList pre ++ .scope .function n
      (.ofList (params.map (.bind .param)) ++ inner) .nil)) = inner.states o t c := by
  have hlabel : (Site.label l body).state? o = none := by
    rw [Site.state?, Options.classify_of_watched? hm, if_neg (by decide)]
  have hparams : states o t c (.ofList (params.map (.bind .param))) = [] := by
    apply states_eq_nil
    intro x hx
    rw [flat_ofList] at hx
    obtain ⟨i, -, rfl⟩ := List.mem_map.1 hx
    rfl
  rw [states_site, hlabel, states_append, states_ofList hpre, states_scope, ho]
  simp [hparams]

theorem Sites.Ready.states_wrapped {moved : Expr} (hr : moved.sites.Ready N p s)
    (hw : p.table.Wraps t (p.newMark span) q s moved.sites cs) :
    moved.sites.states o t p.table.scopes.length = moved.sites.states o p.table s := by
  rw [← moved.inert.states hw.placed s, states_congr (hr.owners_wrapped hw)]

theorem Rewrites.registers (h : Rewrites o s p xs ps p' ys qs ds) (hr : xs.Ready N p s)
    (hv : ps.Visited) :
    ∀ a ∈ xs.states o p.table s, p'.done.bindings.Has a.1 a.2.2.name := by
  -- by induction on the rewriting; labels are placed alike in `p` and in the state in which the
  -- pass comes to them
  induction h with
  | keep hfree =>
    rw [hfree.states]
    exact fun _ h => nomatch h
  | hide hx =>
    -- only words are not looked at, and no label is one
    rintro ⟨r, a⟩ ha
    obtain ⟨x, hmem, hstate⟩ := Sites.mem_states.1 ha
    obtain ⟨y, hy, hword⟩ := hx x (Sites.mem_flat_of_placed hmem) (Site.isLabel_of_state? hstate)
    rw [Parts.visited_skip.1 hv y hy] at hword
    cases hword
  | append hx hy ihx ihy =>
    intro a ha
    obtain ⟨hvx, hvy⟩ := Parts.visited_append.1 hv
    have hex := hx.effect hr.left
    rw [Sites.states_append, List.mem_append] at ha
    obtain ha | ha := ha
    · exact (ihx hr.left hvx a ha).mono hy.bindings_subset
    · apply ihy (hr.next hex.frame) hvy
      rwa [Sites.states_congr (hex.frame.owners_of_nodes hr.apart)]
  | hoist _ ih =>
    simp only [Sites.states_hoist, Sites.states_nil, List.append_nil]
    exact ih hr.ofHoist hv
  | scope _ ih =>
    obtain ⟨c, sc, j, hopen, -, -, -, -, hin⟩ := hr.ofScope
    rw [hopen.owner] at ih
    simp only [Sites.states_scope, Sites.states_nil, List.append_nil, hopen.owner]
    exact ih hin hv
  | part _ _ _ ih => exact ih hr (Parts.visited_above.1 hv)
  | recast hp _ _ ih => exact ih hr (hp.visited hv)
  | drop hx => simp [Site.state?_of_isPlain hx]
  | add | note | share | renode => exact fun _ h => nomatch h
  | relabel hl => simp [Site.state?, hl]
  | stray hx => cases hx.symm.trans (hr.memberFree _ List.mem_cons_self)
  | call _ _ _ ih => exact ih hr hv
  | state hd hpre hy =>
    obtain ⟨name, -, rfl, rfl⟩ := yields_declareState hy
    rw [Sites.states_site, Sites.states_ofList hpre, List.append_nil]
    intro a ha
    obtain ⟨⟨l', i⟩, hstate, rfl⟩ := List.mem_map.1 ha
    obtain ⟨-, hi⟩ := Site.state?_label (Option.mem_toList.1 hstate)
    cases hd.symm.trans hi
    exact ⟨_, List.mem_append_right _ List.mem_cons_self, rfl, rfl⟩
  | memo _ _ _ _ ih => exact ih hr hv
  | watch hm hpre hy hx _ ih =>
    have hscope := hr.underLabel
    obtain ⟨rfl, rfl, hin, sc, j, hopen, -, -⟩ := hscope.ofWatch hy
    rw [Sites.states_watch hm hpre hopen.owner, ← Sites.states_congr (hscope.owners_watched hopen)]
    rw [Parts.visited_above, Parts.visited_append] at hv
    exact ih hin hv.2
  | miss _ _ _ _ ih => exact ih hr.split.right (Parts.visited_above.1 hv)
  | callback hb hy _ hx _ _ hp _ _ ih =>
    obtain ⟨rfl, hin, t, cs, rfl, hw⟩ := hr.ofCallback hy
    rw [← hr.states_wrapped hw]
    exact ih hin (hp.visited hv)

end LabelHooks
