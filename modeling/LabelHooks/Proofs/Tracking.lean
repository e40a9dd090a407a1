import LabelHooks.Proofs.Lookups

/-!
Where the uses and calls of the rewritten sites come from: a use of the program stands where its
name still finds the same declaration, and a call that is new is that of a modifier inside the
scope of its state.
-/

namespace LabelHooks
set_option autoImplicit true

open PassState (IsWatcher Plain)

namespace Sites

variable {ok : ScopeId → Scope → Sites → Prop} {t t' : Table} {s s' c : ScopeId} {xs ys : Sites}
  {x : Site}

theorem placed_eq_append (t : Table) (s : ScopeId) (xs ys : Sites) :
    (xs ++ ys).placed t s = xs.placed t s ++ ys.placed t s := by
  induction xs with
  | nil => rfl
  | site x rest ih => simp only [site_append, placed, ih, List.cons_append]
  | hoist inner rest _ ih => simp only [hoist_append, placed, ih, List.append_assoc]
  | scope kind n inner rest _ ih => simp only [scope_append, placed, ih, List.append_assoc]

theorem placed_congr (h : ∀ n ∈ xs.nodes, t'.scopeOf? n.mark = t.scopeOf? n.mark) :
    xs.placed t' s = xs.placed t s := by
  induction xs generalizing s with
  | nil => rfl
  | site x rest ih =>
    simp only [nodes, List.forall_mem_append] at h
    rw [placed, placed, ih h.2]
  | hoist inner rest ihi ih =>
    simp only [nodes, List.forall_mem_append] at h
    rw [placed, placed, ihi h.1, ih h.2]
  | scope k n inner rest ihi ih =>
    simp only [nodes, List.forall_mem_cons, List.forall_mem_append] at h
    rw [placed, placed, h.1, ihi h.2.1, ih h.2.2]

theorem map_snd_placed (t : Table) (s : ScopeId) (xs : Sites) :
    (xs.placed t s).map Prod.snd = xs.flat := by
  induction xs generalizing s with
  | nil => rfl
  | site x rest ih => rw [placed, List.map_cons, ih, flat]
  | hoist inner rest ihi ih => rw [placed, List.map_append, ihi, ih, flat]
  | scope k n inner rest ihi ih => rw [placed, List.map_append, ihi, ih, flat]

theorem mem_flat_of_placed (h : (s', x) ∈ xs.placed t s) : x ∈ xs.flat := by
  rw [← map_snd_placed t s]
  exact List.mem_map_of_mem h

theorem Placed.path (h : xs.Placed ok t s) (hl : t.Path s l) (hx : (s', x) ∈ xs.placed t s) :
    ∃ l', t.Path s' l' := by
  induction xs generalizing s l with
  | nil => cases hx
  | site y rest ih =>
    obtain hx | hx := List.mem_cons.1 hx
    · cases hx
      exact ⟨l, hl⟩
    · exact ih h.2 hl hx
  | hoist inner rest ihi ih =>
    obtain hx | hx := List.mem_append.1 hx
    · exact ihi h.1 hl hx
    · exact ih h.2 hl hx
  | scope k n inner rest ihi ih =>
    obtain ⟨⟨c, sc, hopen, -, hin⟩, hrest⟩ := h
    obtain hx | hx := List.mem_append.1 hx
    · rw [hopen.owner] at hx
      exact ihi hin (.child hopen.scope hopen.parent hl) hx
    · exact ih hrest hl hx

/-- Sites that are placed stand in the same scopes when they are put elsewhere, apart from those
that stand in no scope of their own. -/
theorem Placed.elsewhere (h : xs.Placed ok t s) (hx : (s', x) ∈ xs.placed t c) :
    (s' = c ∧ (s, x) ∈ xs.placed t s) ∨ (s', x) ∈ xs.placed t s := by
  induction xs with
  | nil => cases hx
  | site y rest ih =>
    obtain hx | hx := List.mem_cons.1 hx
    · cases hx
      exact .inl ⟨rfl, List.mem_cons_self⟩
    · exact (ih h.2 hx).imp (fun h => ⟨h.1, List.mem_cons_of_mem _ h.2⟩) (List.mem_cons_of_mem _)
  | hoist inner rest ihi ih =>
    obtain hx | hx := List.mem_append.1 hx
    · exact (ihi h.1 hx).imp (fun h => ⟨h.1, List.mem_append_left _ h.2⟩) (List.mem_append_left _)
    · exact (ih h.2 hx).imp (fun h => ⟨h.1, List.mem_append_right _ h.2⟩) (List.mem_append_right _)
  | scope k n inner rest _ ih =>
    obtain ⟨⟨a, sc, hopen, -, -⟩, hrest⟩ := h
    rw [placed, hopen.owner]
    obtain hx | hx := List.mem_append.1 hx
    · rw [hopen.owner] at hx
      exact .inr (List.mem_append_left _ hx)
    · exact (ih hrest hx).imp (fun h => ⟨h.1, List.mem_append_right _ h.2⟩)
        (List.mem_append_right _)

end Sites

/-- A call can be accounted for: it stood among the sites `xs`, or its function did, or it calls the
modifier of a state from inside the scope of that state. -/
def Sites.Accounts (xs : Sites) (p : PassState) (s : ScopeId) (f : Ident) (m : Mark) (q : Ident) :
    Prop :=
  .call f m q ∈ xs.flat ∨ (∃ n ∈ xs.nodes, n.mark = m) ∨
    ∃ b ∈ p.done.bindings, f.name = b.modifier.name ∧ q.name = b.name ∧
      p.table.encloses b.scope s = true

theorem Sites.Accounts.mono {xs ys : Sites} (h : xs.Accounts p s f m q)
    (hf : ∀ x ∈ xs.flat, x ∈ ys.flat) (hn : ∀ n ∈ xs.nodes, n ∈ ys.nodes) :
    ys.Accounts p s f m q := by
  obtain h | ⟨n, hmem, hm⟩ | h := h
  · exact .inl (hf _ h)
  · exact .inr (.inl ⟨n, hn n hmem, hm⟩)
  · exact .inr (.inr h)

structure Tracks (N : Nat) (T K : List Text) (W : List Mark) (s : ScopeId) (p : PassState)
    (xs : Sites) (p' : PassState) (ys : Sites) : Prop where
  uses : ∀ s' u i, (s', .use u) ∈ ys.placed p'.table s → u.mark.id = some i → i < N →
    ∃ s₁, (s₁, .use u) ∈ xs.placed p.table s ∧
      ∀ x, Plain T K x → Table.KeepsName (IsWatcher N W) x p.table s₁ p'.table s'
  calls : ∀ s' f m q, (s', .call f m q) ∈ ys.placed p'.table s → xs.Accounts p' s' f m q

namespace Tracks

variable {N : Nat} {T K : List Text} {W : List Mark} {s : ScopeId} {p p' p₁ p₂ : PassState}
  {xs ys zs : Sites} {ok : ScopeId → Scope → Sites → Prop}

theorem keep : Tracks N T K W s p xs p xs where
  uses s' _ _ h _ _ := ⟨s', h, fun _ _ => .inl rfl⟩
  calls _ _ _ _ h := .inl (Sites.mem_flat_of_placed h)

theorem none (hu : ∀ u, .use u ∈ ys.flat → u.mark.id = .none)
    (hc : ∀ f m q, .call f m q ∉ ys.flat) : Tracks N T K W s p xs p' ys where
  uses s' u i h hi _ := by cases (hu u (Sites.mem_flat_of_placed h)).symm.trans hi
  calls s' f m q h := absurd (Sites.mem_flat_of_placed h) (hc f m q)

theorem nil : Tracks N T K W s p xs p' .nil :=
  .none (fun _ h => (nomatch h)) fun _ _ _ h => (nomatch h)

theorem later (h : Tracks N T K W s p xs p₁ ys) (hp : ys.Placed ok p₁.table s)
    (hl : p₁.table.Path s l) (he : p₁.table.Extends (IsWatcher N W) (Plain T K) p₂.table)
    (ho : ∀ n ∈ ys.nodes, p₂.table.scopeOf? n.mark = p₁.table.scopeOf? n.mark)
    (hn : ∀ w n, p₁.table.BelongsTo w n → IsWatcher N W n → p.table.BelongsTo w n)
    (hb : ∀ b ∈ p₁.done.bindings, b ∈ p₂.done.bindings) : Tracks N T K W s p xs p₂ ys where
  uses s' u i hu hi hlt := by
    rw [Sites.placed_congr ho] at hu
    obtain ⟨l', hl'⟩ := hp.path hl hu
    obtain ⟨s₁, hs₁, hkeep⟩ := h.uses s' u i hu hi hlt
    exact ⟨s₁, hs₁, fun x hx => (hkeep x hx).trans (he.lookup s' l' x hl' hx) hn⟩
  calls s' f m q hc := by
    rw [Sites.placed_congr ho] at hc
    obtain ⟨l', hl'⟩ := hp.path hl hc
    obtain hx | hx | ⟨b, hmem, hf, hq, henc⟩ := h.calls s' f m q hc
    · exact .inl hx
    · exact .inr (.inl hx)
    · exact .inr (.inr ⟨b, hb b hmem, hf, hq, he.encloses hl' henc⟩)

theorem earlier (h : Tracks N T K W s p₁ xs p' ys) (hp : xs.Placed ok p.table s)
    (hl : p.table.Path s l) (he : p.table.Extends (IsWatcher N W) (Plain T K) p₁.table)
    (ho : ∀ n ∈ xs.nodes, p₁.table.scopeOf? n.mark = p.table.scopeOf? n.mark) :
    Tracks N T K W s p xs p' ys where
  uses s' u i hu hi hlt := by
    obtain ⟨s₁, hs₁, hkeep⟩ := h.uses s' u i hu hi hlt
    rw [Sites.placed_congr ho] at hs₁
    obtain ⟨l', hl'⟩ := hp.path hl hs₁
    exact ⟨s₁, hs₁, fun x hx => (he.lookup s₁ l' x hl' hx).trans (hkeep x hx) he.node⟩
  calls := h.calls

theorem append (hx : Tracks N T K W s p xs p' xs') (hy : Tracks N T K W s p ys p' ys') :
    Tracks N T K W s p (xs ++ ys) p' (xs' ++ ys') where
  uses s' u i hu hi hlt := by
    rw [Sites.placed_eq_append, List.mem_append] at hu
    rw [Sites.placed_eq_append]
    obtain hu | hu := hu
    · obtain ⟨s₁, hs₁, hkeep⟩ := hx.uses s' u i hu hi hlt
      exact ⟨s₁, List.mem_append_left _ hs₁, hkeep⟩
    · obtain ⟨s₁, hs₁, hkeep⟩ := hy.uses s' u i hu hi hlt
      exact ⟨s₁, List.mem_append_right _ hs₁, hkeep⟩
  calls s' f m q hc := by
    rw [Sites.placed_eq_append, List.mem_append] at hc
    obtain hc | hc := hc
    · exact (hx.calls s' f m q hc).mono (by simp +contextual) (by simp +contextual)
    · exact (hy.calls s' f m q hc).mono (by simp +contextual) (by simp +contextual)

theorem after (zs : Sites) (h : Tracks N T K W s p xs p' ys) :
    Tracks N T K W s p (zs ++ xs) p' ys :=
  .append (.nil : Tracks N T K W s p zs p' .nil) h

theorem hoist (hx : Tracks N T K W s p xs p' ys) :
    Tracks N T K W s p (.hoist xs .nil) p' (.hoist ys .nil) where
  uses s' u i hu hi hlt := by
    simp only [Sites.placed, List.append_nil] at hu ⊢
    exact hx.uses s' u i hu hi hlt
  calls s' f m q hc := by
    simp only [Sites.placed, List.append_nil] at hc
    exact (hx.calls s' f m q hc).mono (by simp [Sites.flat]) (by simp [Sites.nodes])

theorem scope (hx : Tracks N T K W c p xs p' ys) (ho : p.table.scopeOf? n.mark = some c)
    (ho' : p'.table.scopeOf? n'.mark = some c) :
    Tracks N T K W s p (.scope k n xs .nil) p' (.scope k n' ys .nil) where
  uses s' u i hu hi hlt := by
    simp only [Sites.placed, ho, ho', List.append_nil, Option.getD_some] at hu ⊢
    exact hx.uses s' u i hu hi hlt
  calls s' f m q hc := by
    simp only [Sites.placed, ho', List.append_nil, Option.getD_some] at hc
    exact (hx.calls s' f m q hc).mono (by simp [Sites.flat]) (by simp +contextual [Sites.nodes])

theorem call (hx : Tracks N T K W s p xs p' ys) (hm : ∃ n ∈ xs.nodes, n.mark = m) :
    Tracks N T K W s p xs p' (.site (.call f m q) ys) where
  uses s' u i hu hi hlt := by
    obtain hu | hu := List.mem_cons.1 hu
    · cases hu
    · exact hx.uses s' u i hu hi hlt
  calls s' f m q hc := by
    obtain hc | hc := List.mem_cons.1 hc
    · cases hc
      exact .inr (.inl hm)
    · exact hx.calls s' f m q hc

end Tracks

namespace PassState

variable {N : Nat} {T K : List Text} {W : List Mark} {p p' : PassState} {s : ScopeId}
  {xs : Sites}

theorem Frame.owners_of_nodes (h : p.Frame p' s is ds)
    (hi : ∀ i ∈ xs.ids, i ∉ is ∧ i < p.nextNode) :
    ∀ n ∈ xs.nodes, p'.table.scopeOf? n.mark = p.table.scopeOf? n.mark :=
  fun _ hn => h.owners _ fun i hid => hi i (Sites.mem_ids hn hid)

theorem Frame.owner (h : p.Frame p' s is ds) (ho : p.table.scopeOf? m = some c)
    (hm : m.id = some i) (hi : i ∉ is) (hlt : i < p.nextNode) : p'.table.scopeOf? m = some c := by
  rw [← ho]
  apply h.owners
  intro j hj
  cases hm.symm.trans hj
  exact ⟨hi, hlt⟩

end PassState

namespace Sites.Ready

variable {N : Nat} {p p' : PassState} {s c : ScopeId} {xs params inner : Sites} {n : Node}

theorem owners_watched (h : Ready N p s (.scope .function n (params ++ inner) .nil))
    (ho : p.table.Opens s .function n c sc) : ∀ r ∈ inner.nodes,
    (p.table.watched n.mark (p.newMark span) c).scopeOf? r.mark = p.table.scopeOf? r.mark := by
  intro r hr
  obtain ⟨_, _, j, -, -, hj, hji, -, hin⟩ := h.ofScope
  rw [Table.scopeOf?_watched ho.owner, if_neg, if_neg]
  · intro heq
    exact hji (by simp [mem_ids hr (heq.symm.trans hj)])
  · rintro ⟨-, heq⟩
    exact hin.right.next_not_mem (mem_ids hr heq.symm)

theorem owners_wrapped (h : Ready N p s xs)
    (hw : p.table.Wraps t (p.newMark span) q s xs cs) :
    ∀ n ∈ xs.nodes, t.scopeOf? n.mark = p.table.scopeOf? n.mark := by
  intro n hn
  rw [hw.owner, if_neg]
  rintro ⟨-, heq⟩
  exact h.next_not_mem (mem_ids hn heq.symm)

theorem owner_watched (h : Ready N p s (.scope .function n (params ++ inner) .nil))
    (ho : p.table.Opens s .function n c sc)
    (hf : (p.marked (p.table.watched n.mark (p.newMark span) c)).Frame p' c inner.ids ds) :
    p'.table.scopeOf? (p.newMark span) = some c := by
  have hown := (Table.scopeOf?_watched (m := p.newMark span) ho.owner).trans (if_pos ⟨rfl, rfl⟩)
  have hnew : p.nextNode ∉ inner.ids := fun hmem => h.next_not_mem (by simp [hmem])
  exact hf.owner hown rfl hnew (Nat.lt_succ_self _)

theorem owner_wrapped (h : Ready N p s xs) (hw : p.table.Wraps t (p.newMark span) q s xs cs)
    (hf : (p.marked t).Frame p' p.table.scopes.length xs.ids ds) :
    p'.table.scopeOf? (p.newMark span) = some p.table.scopes.length :=
  hf.owner ((hw.owner _).trans (if_pos ⟨rfl, rfl⟩)) rfl h.next_not_mem (Nat.lt_succ_self _)

end Sites.Ready

/-- Where the pass stands between two steps: names are in order, and the scope is in the table. -/
structure Standing (N : Nat) (T K : List Text) (p : PassState) (s : ScopeId) : Prop where
  bound : N ≤ p.nextNode
  orderly : p.Orderly T K
  targets : ∀ x ∈ T, x ∈ K
  path : ∃ l, p.table.Path s l

namespace Standing

open Relation (ReflTransGen)

variable {N : Nat} {T K : List Text} {W : List Mark} {p p' : PassState} {s c : ScopeId}

theorem extended (h : Standing N T K p s) (he : ReflTransGen (PassState.Edit N T W) p p') :
    p.table.Extends (IsWatcher N W) (Plain T K) p'.table :=
  (PassState.extended_of_edits he h.bound h.orderly h.targets).1

theorem edits (h : Standing N T K p s) (he : ReflTransGen (PassState.Edit N T W) p p') :
    Standing N T K p' s where
  bound := (PassState.extended_of_edits he h.bound h.orderly h.targets).2
  orderly := h.orderly.edits h.targets he
  targets := h.targets
  path := by
    obtain ⟨l, hl⟩ := h.path
    obtain ⟨l', hl', -⟩ := (h.extended he).path s l hl
    exact ⟨l', hl'⟩

theorem inside (h : Standing N T K p s) (ho : p.table.Opens s k n c sc) : Standing N T K p c where
  bound := h.bound
  orderly := h.orderly
  targets := h.targets
  path := by
    obtain ⟨l, hl⟩ := h.path
    exact ⟨c :: l, .child ho.scope ho.parent hl⟩

theorem watched (h : Standing N T K p s) (hw : n.mark ∈ W) (hj : n.mark.id = some j) (hlt : j < N)
    (ho : p.table.Opens s .function n c sc) :
    Standing N T K (p.marked (p.table.watched n.mark (p.newMark span) c)) c :=
  (h.inside ho).edits (.single (.watch hw hj hlt ho))

theorem wrapped (h : Standing N T K p s) (hb : b ∈ p.done.bindings) (hq : b.name = q.name)
    (hw : p.table.Wraps t (p.newMark span) q s xs cs) :
    Standing N T K (p.marked t) p.table.scopes.length := by
  have hedit : PassState.Edit N T [] p (p.marked t) := .callback hb hq hw
  have hnext := h.edits (.single hedit)
  obtain ⟨l, hl⟩ := h.path
  exact ⟨hnext.bound, hnext.orderly, h.targets, _, hw.path_new hl⟩

end Standing

namespace Tracks

open Relation (ReflTransGen)
open Sites (Ready Within)

variable {N : Nat} {T K : List Text} {W : List Mark} {s c : ScopeId} {p p' p₁ p₂ : PassState}
  {xs ys zs inner : Sites} {n : Node}

theorem sequence (hr : Ready N p s (xs ++ ys)) (hs : Standing N T K p s)
    (he : ReflTransGen (PassState.Edit N T W) p p₁)
    (he' : ReflTransGen (PassState.Edit N T W) p₁ p₂)
    (hx : Effect s p xs p₁ xs' ds) (hy : p₁.Frame p₂ s ys.ids ds')
    (htx : Tracks N T K W s p xs p₁ xs') (hty : Tracks N T K W s p₁ ys p₂ ys') :
    Tracks N T K W s p (xs ++ ys) p₂ (xs' ++ ys') := by
  obtain ⟨l, hl⟩ := hs.path
  obtain ⟨l₁, hl₁⟩ := (hs.edits he).path
  have hext := hs.extended he
  refine .append ?_ ?_
  · exact htx.later hx.placed hl₁ ((hs.edits he).extended he')
      (hy.owners_of_nodes (hx.apart hr)) hext.node (PassState.bindings_of_edits he')
  · exact hty.earlier hr.right.placed hl hext (hx.frame.owners_of_nodes hr.apart)

theorem memo {target ident : Ident} (hs : Standing N T K p s)
    (he : ReflTransGen (PassState.Edit N T W) p p') (ht : target.name ∈ T)
    (hp : ys.Placed ok p'.table s) (h : Tracks N T K W s p xs p' ys) :
    Tracks N T K W s p xs { p' with table := p'.table.declare s target.name .const (some ident) }
      (.site (.bind .const ident) ys) := by
  obtain ⟨l, hl⟩ := (hs.edits he).path
  have hmemo : ReflTransGen (PassState.Edit N T W) p' { p' with
      table := p'.table.declare s target.name .const (some ident) } := .single (.memo ht)
  have hbind : Tracks N T K W s p .nil { p' with
      table := p'.table.declare s target.name .const (some ident) }
      (.site (.bind .const ident) .nil) := .none (by simp [Sites.flat]) (by simp [Sites.flat])
  refine hbind.append ?_
  exact h.later hp hl ((hs.edits he).extended hmemo) (fun _ _ => rfl) (hs.extended he).node
    (PassState.bindings_of_edits hmemo)

theorem watch (hr : Ready N p s (.scope .function n (params ++ inner) .nil))
    (hs : Standing N T K p s) (ho : p.table.Opens s .function n c sc) (hw : n.mark ∈ W)
    (hx : Effect c (p.marked (p.table.watched n.mark (p.newMark span) c)) inner p₂ ys ds)
    (h : Tracks N T K W c (p.marked (p.table.watched n.mark (p.newMark span) c)) inner p₂ ys) :
    Tracks N T K W s p (.scope .function n (params ++ inner) .nil) p₂
      (.scope .function ⟨.arrowFunc, p.newMark span, []⟩ ys .nil) := by
  obtain ⟨c', sc', j, hopen, -, hj, -, hlt, hin⟩ := hr.ofScope
  cases hopen.owner.symm.trans ho.owner
  obtain ⟨l, hl⟩ := (hs.inside ho).path
  refine .scope (.after params ?_) ho.owner (hr.owner_watched ho hx.frame)
  exact h.earlier hin.right.placed hl (hs.extended (.single (.watch hw hj hlt ho)))
    (hr.owners_watched ho)

/-- What moves into a callback finds the names that it found outside, and the call stands in a
scope inside that of the state. -/
theorem callback (hr : Ready N p s xs) (hs : Standing N T K p s) (hb : b ∈ p.done.bindings)
    (hq : b.name = q.name) (hf : f.name = b.modifier.name) (hi : f.mark.id = .none)
    (henc : p.table.encloses b.scope s = true) (hw : p.table.Wraps t (p.newMark span) q s xs cs)
    (he : ReflTransGen (PassState.Edit N T W) (p.marked t) p₂)
    (hx : Effect p.table.scopes.length (p.marked t) xs p₂ ys ds)
    (h : Tracks N T K W p.table.scopes.length (p.marked t) xs p₂ ys) :
    Tracks N T K W s p xs p₂ (.site (.call f (p.newMark span) q) (.site (.use f)
      (.scope .function ⟨.arrowFunc, p.newMark span, []⟩ (.site (.bind .param q) ys) .nil))) := by
  obtain ⟨l, hl⟩ := hs.path
  have hedit : PassState.Edit N T W p (p.marked t) := .callback hb hq hw
  have hext := hs.extended (.single hedit)
  have hown := hr.owner_wrapped hw hx.frame
  -- the call stands in `s`, and all that has moved stands in the scope of the callback
  refine ⟨fun s' u i hu hid hlt => ?_, fun s' f' m q' hc => ?_⟩
  · simp only [Sites.placed, hown, Option.getD_some, List.append_nil, List.mem_cons, Prod.mk.injEq,
      reduceCtorEq, and_false, false_or] at hu
    obtain ⟨-, hu⟩ | hu := hu
    · cases hu
      cases hi.symm.trans hid
    obtain ⟨s₁, hs₁, hkeep⟩ := h.uses s' u i hu hid hlt
    rw [PassState.marked, Sites.placed_congr (hr.owners_wrapped hw)] at hs₁
    obtain ⟨rfl, hmem⟩ | hmem := hr.placed.elsewhere hs₁
    · -- the use stood in `s` and stands in the callback now
      refine ⟨s, hmem, fun x hx => .trans (.inl ?_) (hkeep x hx) hext.node⟩
      exact hw.lookup?_new hl fun heq => hx.2 (heq ▸ hq ▸ hs.orderly.names b hb)
    · obtain ⟨l', hl'⟩ := hr.placed.path hl hmem
      exact ⟨s₁, hmem, fun x hx => (hext.lookup s₁ l' x hl' hx).trans (hkeep x hx) hext.node⟩
  · simp only [Sites.placed, hown, Option.getD_some, List.append_nil, List.mem_cons, Prod.mk.injEq,
      reduceCtorEq, and_false, false_or] at hc
    obtain ⟨rfl, hc⟩ | hc := hc
    · cases hc
      refine .inr (.inr ⟨b, PassState.bindings_of_edits (.head hedit he) b hb, hf, hq.symm, ?_⟩)
      exact (hs.extended (.head hedit he)).encloses hl henc
    · exact h.calls s' f' m q' hc

end Tracks

theorem Rewrites.tracks (h : Rewrites o s p xs ps p' ys qs ds) (hr : xs.Ready N p s)
    (hw : xs.Within o T W) (hs : Standing N T K p s) : Tracks N T K W s p xs p' ys := by
  -- by induction on the rewriting; in each case the sites are ready where the pass then stands
  induction h with
  | keep | hide => exact .keep
  | part _ _ _ ih | recast _ _ _ ih => exact ih hr hw hs
  | miss _ _ _ hx ih =>
    have hin := hr.split.right
    have hwithin := hw.mono fun y hy => List.mem_cons_of_mem _ hy
    exact .sequence hr.split hs .refl (hx.edits hin hwithin) (.keep hr.split.left)
      (hx.effect hin).frame .keep (ih hin hwithin hs)
  | append hx hy ihx ihy =>
    have hex := hx.effect hr.left
    have hnext := hr.next hex.frame
    have hedits := hx.edits hr.left hw.left
    exact .sequence hr hs hedits (hy.edits hnext hw.right) hex (hy.effect hnext).frame
      (ihx hr.left hw.left hs) (ihy hnext hw.right (hs.edits hedits))
  | hoist _ ih => exact .hoist (ih hr.ofHoist (hw.mono (by simp [Sites.flat])) hs)
  | scope hx ih =>
    obtain ⟨c, sc, j, hopen, -, hj, hjx, hlt, hin⟩ := hr.ofScope
    rw [hopen.owner] at ih hx
    exact .scope (ih hin hw.inside (hs.inside hopen)) hopen.owner
      ((hx.effect hin).frame.owner hopen.owner hj hjx (Nat.lt_of_lt_of_le hlt hr.bound))
  | drop | note => exact .nil
  | add hx hn =>
    refine .none (fun u hu => ?_) fun f m q hc => ?_
    · obtain rfl := List.mem_singleton.1 hu
      exact hn _ List.mem_cons_self
    · obtain rfl := List.mem_singleton.1 hc
      cases hx
  | renode | relabel | share | state => exact .none (by simp [Sites.flat]) (by simp [Sites.flat])
  | stray hx => cases hx.symm.trans (hr.memberFree _ List.mem_cons_self)
  | call hm _ _ ih => exact .call (ih hr hw hs) hm
  | memo hd hn hi hx ih =>
    exact .memo hs (hx.edits hr hw) ((hw _ List.mem_cons_self).1 _ hd) (hx.effect hr).placed
      (ih hr hw hs)
  | watch hm hpre hy hx _ ih =>
    have hscope := hr.underLabel
    obtain ⟨rfl, rfl, hin, sc, j, hopen, hj, -⟩ := hscope.ofWatch hy
    have hmem := (hw _ List.mem_cons_self).2 _ hm
    refine .after (.site _ (.ofList _)) (.watch hscope hs hopen hmem (hx.effect hin) ?_)
    exact ih hin (hw.mono (by simp +contextual [Sites.flat]))
      (hs.watched hmem hj (hscope.old j (by simp [hj])) hopen)
  | callback hb hy _ hx hf hi _ _ _ ih =>
    obtain ⟨hmem, hname, henc⟩ := Registry.of_reactive? hb
    obtain ⟨rfl, hin, t, cs, rfl, hwraps⟩ := hr.ofCallback hy
    exact .callback hr hs hmem hname hf hi henc hwraps (hx.edits hin hw) (hx.effect hin)
      (ih hin hw (hs.wrapped hmem hname hwraps))

end LabelHooks
