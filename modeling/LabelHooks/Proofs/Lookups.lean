import LabelHooks.Proofs.Freshness

/-!
What a name refers to while the table changes: edits of the pass keep the scopes around a scope
and the declaration that a name of the program finds from there, unless that is a parameter of a
watch function.
-/

namespace LabelHooks
set_option autoImplicit true

namespace Table

variable {V : Node → Prop} {G : Text → Prop} {t t' t₁ t₂ : Table} {s s' s₁ c : ScopeId} {x : Text}

def BelongsTo (t : Table) (s : ScopeId) (n : Node) : Prop :=
  ∃ sc, t.scopes[s]? = some sc ∧ sc.node = some n

def FindsParam (V : Node → Prop) (t : Table) (s : ScopeId) (x : Text) : Prop :=
  ∃ w d n, t.lookup? s x = some (w, d) ∧ d.kind = .param ∧ t.BelongsTo w n ∧ V n

/-- From `s'` in the new table the name finds what it found from `s` in the old one, unless that
was a parameter of a function with property `V`. -/
def KeepsName (V : Node → Prop) (x : Text) (t : Table) (s : ScopeId) (t' : Table) (s' : ScopeId) :
    Prop :=
  t'.lookup? s' x = t.lookup? s x ∨ t.FindsParam V s x

/-- The new table has the scopes of the old one. They are inside the same scopes, and perhaps
inside others too; names with property `G` find what they found; and no scope is given to a node
with property `V`. -/
structure Extends (V : Node → Prop) (G : Text → Prop) (t t' : Table) : Prop where
  path : ∀ s l, t.Path s l → ∃ l', t'.Path s l' ∧ ∀ a ∈ l, a ∈ l'
  lookup : ∀ s l x, t.Path s l → G x → KeepsName V x t s t' s
  node : ∀ s n, t'.BelongsTo s n → V n → t.BelongsTo s n

theorem KeepsName.trans (h : KeepsName V x t s t₁ s₁) (h' : KeepsName V x t₁ s₁ t₂ s')
    (hn : ∀ w n, t₁.BelongsTo w n → V n → t.BelongsTo w n) : KeepsName V x t s t₂ s' := by
  obtain heq | hfinds := h
  · obtain heq' | ⟨w, d, n, hl, hk, hw, hV⟩ := h'
    · exact .inl (heq'.trans heq)
    · exact .inr ⟨w, d, n, heq.symm.trans hl, hk, hn w n hw hV, hV⟩
  · exact .inr hfinds

namespace Extends

theorem refl (t : Table) : Extends V G t t :=
  ⟨fun _ l hl => ⟨l, hl, fun _ h => h⟩, fun _ _ _ _ _ => .inl rfl, fun _ _ h _ => h⟩

theorem trans (h : Extends V G t t₁) (h' : Extends V G t₁ t₂) : Extends V G t t₂ where
  path s l hl := by
    obtain ⟨l₁, hl₁, hsub₁⟩ := h.path s l hl
    obtain ⟨l₂, hl₂, hsub₂⟩ := h'.path s l₁ hl₁
    exact ⟨l₂, hl₂, fun a ha => hsub₂ a (hsub₁ a ha)⟩
  lookup s l x hl hx := by
    obtain ⟨l₁, hl₁, -⟩ := h.path s l hl
    exact (h.lookup s l x hl hx).trans (h'.lookup s l₁ x hl₁ hx) h.node
  node s n hs hV := h.node s n (h'.node s n hs hV) hV

theorem encloses (h : Extends V G t t') (hl : t.Path s l) (ha : t.encloses a s = true) :
    t'.encloses a s = true := by
  obtain ⟨l', hl', hsub⟩ := h.path s l hl
  exact (encloses_iff hl').2 (hsub a ((encloses_iff hl).1 ha))

end Extends

def SameParents (t t' : Table) : Prop :=
  ∀ (x : ScopeId) (sc : Scope), t.scopes[x]? = some sc →
    ∃ sc', t'.scopes[x]? = some sc' ∧ sc'.parent = sc.parent

theorem Path.of_parents (h : t.Path s l) (hp : SameParents t t') : t'.Path s l := by
  induction h with
  | root hs hn =>
    obtain ⟨sc', hs', hp'⟩ := hp _ _ hs
    exact .root hs' (hp'.trans hn)
  | child hs hn _ ih =>
    obtain ⟨sc', hs', hp'⟩ := hp _ _ hs
    exact .child hs' (hp'.trans hn) ih

theorem Extends.of_own (hp : SameParents t t')
    (ho : ∀ x y, G y → t'.own? x y = t.own? x y)
    (hn : ∀ s n, t'.BelongsTo s n → V n → t.BelongsTo s n) : Extends V G t t' where
  path s l hl := ⟨l, hl.of_parents hp, fun _ h => h⟩
  lookup s l x hl hx := by
    left
    rw [lookup?_of_path hl, lookup?_of_path (hl.of_parents hp)]
    exact along_congr fun a _ => ho a x hx
  node := hn

theorem Extends.of_scopes (h : t'.scopes = t.scopes) : Extends V G t t' := by
  refine .of_own (fun x sc hx => ⟨sc, h ▸ hx, rfl⟩) (fun x y _ => ?_)
    fun s n ⟨sc, hs, hn⟩ _ => ⟨sc, h ▸ hs, hn⟩
  rw [own?, own?, h]

theorem Extends.declare (hG : ¬ G name) (s : ScopeId) (k : BindingKind) (i : Option Ident) :
    Extends V G t (t.declare s name k i) := by
  refine .of_own (fun x sc hx => ?_) (fun x y hy => ?_) fun x n ⟨sc, hx, hn⟩ _ => ?_
  · rw [scopes_declare, hx, Option.map_some]
    refine ⟨_, rfl, ?_⟩
    split <;> rfl
  · rw [own?_declare, if_neg]
    rintro ⟨-, rfl, -⟩
    exact hG hy
  · rw [scopes_declare] at hx
    obtain ⟨sc₀, hsc₀, rfl⟩ := Option.map_eq_some_iff.1 hx
    refine ⟨sc₀, hsc₀, ?_⟩
    split at hn <;> exact hn

theorem along_changed (hne : ∀ a, a ≠ c → t'.own? a x = t.own? a x) (hc : t.own? c x = some d)
    (l : List ScopeId) : t'.along x l = t.along x l ∨ t.along x l = some (c, d) := by
  induction l with
  | nil => exact .inl rfl
  | cons a l ih =>
    by_cases ha : a = c
    · right
      rw [ha, along_cons_some hc]
    · cases hown : t.own? a x with
      | none =>
        rw [along_cons_none hown, along_cons_none ((hne a ha).trans hown)]
        exact ih
      | some e =>
        left
        rw [along_cons_some hown, along_cons_some ((hne a ha).trans hown)]

theorem SameParents.watched (ho : t.scopeOf? old = some c) :
    SameParents t (t.watched old m c) := by
  intro x sc hx
  rw [scopes_watched ho, hx, Option.map_some]
  refine ⟨_, rfl, ?_⟩
  split <;> rfl

theorem Extends.watched (ho : t.Opens s k n c sc) (hV : V n)
    (hm : ¬ V ⟨.arrowFunc, m, []⟩) : Extends V G t (t.watched n.mark m c) := by
  have hp : SameParents t (t.watched n.mark m c) := .watched ho.owner
  have hother : ∀ x y, x ≠ c → (t.watched n.mark m c).own? x y = t.own? x y := by
    intro x y hx
    unfold own?
    rw [scopes_watched ho.owner]
    cases t.scopes[x]? with
    | none => rfl
    | some sc => simp [Ne.symm hx]
  refine ⟨fun r l hl => ⟨l, hl.of_parents hp, fun _ h => h⟩, fun r l x hl _ => ?_, ?_⟩
  · rw [KeepsName, lookup?_of_path hl, lookup?_of_path (hl.of_parents hp)]
    cases hown : t.own? c x with
    | none =>
      left
      refine along_congr fun a _ => ?_
      by_cases ha : a = c
      · have hnone : (t.watched n.mark m c).own? c x = none := by
          by_contra hsome
          obtain ⟨d, hd⟩ := Option.ne_none_iff_exists'.1 hsome
          have := own?_of_watched ho.owner hd
          simp [hown] at this
        rw [ha, hnone, hown]
      · exact hother a x ha
    | some d =>
      by_cases hk : d.kind = .param
      · -- the lookup ends at the parameter or does not reach it
        obtain heq | hfound := along_changed (fun a ha => hother a x ha) hown l
        · exact .inl heq
        · exact .inr ⟨c, d, n, (lookup?_of_path hl x).trans hfound, hk, ⟨sc, ho.scope, ho.node⟩, hV⟩
      · left
        refine along_congr fun a _ => ?_
        by_cases ha : a = c
        · rw [ha, own?_watched ho.owner hown hk, hown]
        · exact hother a x ha
  · rintro x n' ⟨sc', hx, hn⟩ hVn
    rw [scopes_watched ho.owner] at hx
    obtain ⟨sc₀, hsc₀, rfl⟩ := Option.map_eq_some_iff.1 hx
    split at hn
    · cases hn
      exact absurd hVn hm
    · exact ⟨sc₀, hsc₀, hn⟩

namespace Wraps

variable {m : Mark} {q : Ident} {xs : Sites} {cs : List ScopeId}

theorem path_outside (h : t.Wraps t' m q s xs cs) (hs : t.Path s ls) (hl : t.Path c l)
    (hsuf : l <:+ ls) : t'.Path c l := by
  induction hl with
  | root hc hp =>
    refine .root (h.scopes_old hc) ?_
    rw [moved, if_neg (by simp [hp]), hp]
  | child hc hp hl ih =>
    refine .child (h.scopes_old hc) ?_ (ih ((List.suffix_cons _ _).trans hsuf))
    rw [moved, if_neg, hp]
    rintro ⟨-, heq⟩
    obtain rfl := Option.some.inj (hp.symm.trans heq)
    have hlen := hsuf.length_le
    rw [hl.unique hs, List.length_cons] at hlen
    omega

theorem own?_old (h : t.Wraps t' m q s xs cs) (hl : t.Path c l) (x : Text) :
    ∀ a ∈ l, t'.own? a x = t.own? a x := by
  intro a ha
  rw [h.own?, if_neg (Nat.ne_of_lt (hl.lt_length a ha))]

theorem own?_new (h : t.Wraps t' m q s xs cs) (hx : x ≠ q.name) :
    t'.own? t.scopes.length x = none := by
  rw [h.own?, if_pos rfl, if_neg (Ne.symm hx)]

theorem path_new (h : t.Wraps t' m q s xs cs) (hs : t.Path s l) :
    t'.Path t.scopes.length (t.scopes.length :: l) :=
  .child ((h.scopes _).trans (if_pos rfl)) rfl (h.path_outside hs hs List.suffix_rfl)

theorem lookup?_new (h : t.Wraps t' m q s xs cs) (hs : t.Path s l) (hx : x ≠ q.name) :
    t'.lookup? t.scopes.length x = t.lookup? s x := by
  rw [lookup?_of_path (h.path_new hs), lookup?_of_path hs, along_cons_none (h.own?_new hx)]
  exact along_congr (h.own?_old hs x)

theorem path_shift (h : t.Wraps t' m q s xs cs) (hl : t.Path c l) :
    t'.Path c l ∨ ∃ k ls, t.Path s ls ∧ l = k ++ ls ∧ t'.Path c (k ++ t.scopes.length :: ls) := by
  induction hl with
  | root hc hp =>
    left
    refine .root (h.scopes_old hc) ?_
    rw [moved, if_neg (by simp [hp]), hp]
  | @child c p sc l hc hp hl ih =>
    -- either `c` has moved into the callback, or its parent is as before
    by_cases hm : c ∈ cs ∧ sc.parent = some s
    · obtain rfl := Option.some.inj (hp.symm.trans hm.2)
      right
      refine ⟨[c], l, hl, rfl, .child (h.scopes_old hc) ?_ (h.path_new hl)⟩
      rw [moved, if_pos hm]
    · have hparent : (moved cs s t.scopes.length c sc).parent = some p := by
        rw [moved, if_neg hm, hp]
      obtain hl' | ⟨k, ls, hls, rfl, hl'⟩ := ih
      · exact .inl (.child (h.scopes_old hc) hparent hl')
      · exact .inr ⟨c :: k, ls, hls, rfl, .child (h.scopes_old hc) hparent hl'⟩

theorem path_old (h : t.Wraps t' m q s xs cs) (hl : t.Path c l) :
    ∃ l', t'.Path c l' ∧ (∀ a ∈ l, a ∈ l') ∧ ∀ x, x ≠ q.name → t'.along x l' = t.along x l := by
  obtain hl' | ⟨k, ls, hls, rfl, hl'⟩ := h.path_shift hl
  · exact ⟨l, hl', fun _ ha => ha, fun x _ => along_congr (h.own?_old hl x)⟩
  · refine ⟨_, hl', by simp +contextual [or_imp], fun x hx => ?_⟩
    have hk : ∀ a ∈ k, t'.own? a x = t.own? a x :=
      fun a ha => h.own?_old hl x a (List.mem_append_left _ ha)
    rw [along_append, along_append, along_congr hk, along_cons_none (h.own?_new hx),
      along_congr (h.own?_old hls x)]

theorem extended (h : t.Wraps t' m q s xs cs) (hG : ¬ G q.name)
    (hm : ¬ V ⟨.arrowFunc, m, []⟩) : Extends V G t t' where
  path c l hl := by
    obtain ⟨l', hl', hsub, -⟩ := h.path_old hl
    exact ⟨l', hl', hsub⟩
  lookup c l x hl hx := by
    obtain ⟨l', hl', -, hfind⟩ := h.path_old hl
    left
    rw [lookup?_of_path hl', lookup?_of_path hl, hfind x fun heq => hG (heq ▸ hx)]
  node c n := by
    rintro ⟨sc, hsc, hn⟩ hV
    rw [h.scopes] at hsc
    split at hsc
    · cases hsc
      cases hn
      exact absurd hV hm
    · obtain ⟨sc₀, hsc₀, rfl⟩ := Option.map_eq_some_iff.1 hsc
      refine ⟨sc₀, hsc₀, ?_⟩
      unfold moved at hn
      split at hn <;> exact hn

end Wraps

end Table

namespace PassState

variable {N : Nat} {T K : List Text} {W : List Mark} {p p' : PassState}

def IsWatcher (N : Nat) (W : List Mark) (n : Node) : Prop :=
  n.mark ∈ W ∧ ∃ i < N, n.mark.id = some i

def Plain (T K : List Text) (x : Text) : Prop := x ∈ K ∧ x ∉ T

theorem Edit.next_le (h : p.Edit N T W p') : p.nextNode ≤ p'.nextNode := by
  cases h with
  | note hs => exact Nat.le_of_eq hs.nextNode.symm
  | share | watch | callback => exact Nat.le_succ _
  | state _ _ hy =>
    obtain ⟨name, -, -, rfl⟩ := Pass.yields_declareState hy
    exact Nat.le_refl _
  | memo => exact Nat.le_refl _

theorem Edit.bindings_subset (h : p.Edit N T W p') :
    ∀ b ∈ p.done.bindings, b ∈ p'.done.bindings := by
  cases h with
  | note hs => exact fun b hb => hs.bindings ▸ hb
  | share | watch | callback | memo => exact fun b hb => hb
  | state _ _ hy =>
    obtain ⟨name, -, -, rfl⟩ := Pass.yields_declareState hy
    exact fun b hb => List.mem_append_left _ hb

theorem not_isWatcher_new (hN : N ≤ p.nextNode) :
    ¬ IsWatcher N W ⟨.arrowFunc, p.newMark span, []⟩ := by
  rintro ⟨-, i, hi, hid⟩
  cases hid
  exact Nat.not_lt.2 hN hi

theorem Edit.extended (h : p.Edit N T W p') (hN : N ≤ p.nextNode) (hp : p.Orderly T K)
    (hTK : ∀ x ∈ T, x ∈ K) : p.table.Extends (IsWatcher N W) (Plain T K) p'.table := by
  have hp' := hp.edit hTK h
  cases h with
  | note hs => exact hs.table ▸ .refl _
  | share => exact .of_scopes (p.table.scopes_bind _ _)
  | state ht _ hy =>
    obtain ⟨name, -, -, rfl⟩ := Pass.yields_declareState hy
    have hname : ¬ Plain T K name := fun hx => hp'.unseen name (by simp) hx.1
    exact (Table.Extends.declare hname _ _ _).trans (.declare (fun hx => hx.2 ht) _ _ _)
  | memo ht => exact .declare (fun hx => hx.2 ht) _ _ _
  | watch hw hi hlt ho =>
    exact .watched ho ⟨hw, _, hlt, hi⟩ (not_isWatcher_new hN)
  | callback hb hq hw =>
    exact hw.extended (fun hx => hx.2 (hq ▸ hp.names _ hb)) (not_isWatcher_new hN)

theorem bindings_of_edits (h : Relation.ReflTransGen (Edit N T W) p p') :
    ∀ b ∈ p.done.bindings, b ∈ p'.done.bindings := by
  induction h with
  | refl => exact fun _ hb => hb
  | tail _ he ih => exact fun b hb => he.bindings_subset b (ih b hb)

theorem extended_of_edits (h : Relation.ReflTransGen (Edit N T W) p p') (hN : N ≤ p.nextNode)
    (hp : p.Orderly T K) (hTK : ∀ x ∈ T, x ∈ K) :
    p.table.Extends (IsWatcher N W) (Plain T K) p'.table ∧ N ≤ p'.nextNode := by
  induction h with
  | refl => exact ⟨.refl _, hN⟩
  | tail hprev he ih =>
    obtain ⟨hext, hN'⟩ := ih
    exact ⟨hext.trans (he.extended hN' (hp.edits hTK hprev) hTK), Nat.le_trans hN' he.next_le⟩

end PassState

end LabelHooks
