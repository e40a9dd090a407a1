import LabelHooks.Proofs.Rewriting
import LabelHooks.Proofs.Surface

/-!
What a part of the pass leaves alone: the scopes and owners that do not belong to the sites it
rewrites. Sites placed elsewhere stay placed.
-/

namespace LabelHooks
set_option autoImplicit true

open List

namespace Table

variable {t t' : Table} {s c : ScopeId} {m m' old : Mark} {param : Ident} {parts : List Outline}

theorem scopes_watched (h : t.scopeOf? old = some c) (x : ScopeId) :
    (t.watched old m c).scopes[x]? = (t.scopes[x]?).map fun sc =>
      if c = x then { sc with node := some ⟨.arrowFunc, m, []⟩ : Scope }.removeKind .param
      else sc := by
  rw [watched, scopes_removeKind, (rebind_of_owned h).2.1, Option.map_map]
  congr 1
  funext sc
  by_cases hx : c = x <;> simp [hx]

theorem scopeOf?_watched (h : t.scopeOf? old = some c) :
    (t.watched old m c).scopeOf? m' =
      if m.id.isSome ∧ m.id = m'.id then some c
      else if old.id = m'.id then none else t.scopeOf? m' := by
  rw [watched, scopeOf?_removeKind, (rebind_of_owned h).2.2]

theorem Opens.watched (h : t.Opens s k n c sc) (hm : m.id = some j) :
    (t.watched n.mark m c).Opens s k ⟨.arrowFunc, m, []⟩ c
      ({ sc with node := some ⟨.arrowFunc, m, []⟩ : Scope }.removeKind .param) where
  owner := (scopeOf?_watched h.owner).trans (if_pos ⟨by simp [hm], rfl⟩)
  scope := by rw [scopes_watched h.owner, h.scope, Option.map_some, if_pos rfl]
  kind := h.kind
  node := rfl
  parent := h.parent

def unfilled (t : Table) (m : Mark) (param : Ident) (s : ScopeId) : Table :=
  ((t.child s .function (some ⟨.arrowFunc, m, []⟩)).2.declare t.scopes.length param.name .param
    (some param)).bind m t.scopes.length

theorem wrapped_eq : t.wrapped m param parts s =
    (t.unfilled m param s).reparent parts s t.scopes.length := rfl

def callbackScope (m : Mark) (param : Ident) (s : ScopeId) : Scope :=
  ⟨.function, some ⟨.arrowFunc, m, []⟩, some s, [⟨param.name, .param, some param⟩]⟩

theorem scopes_unfilled (x : ScopeId) :
    (t.unfilled m param s).scopes[x]? =
      if x = t.scopes.length then some (callbackScope m param s) else t.scopes[x]? := by
  rw [unfilled, scopes_bind, scopes_declare, scopes_child]
  by_cases hx : x = t.scopes.length
  · simp [hx, Scope.declare, callbackScope]
  · simp [hx, Ne.symm hx]

theorem scopeOf?_unfilled :
    (t.unfilled m param s).scopeOf? m' =
      if m.id.isSome ∧ m.id = m'.id then some t.scopes.length else t.scopeOf? m' := by
  rw [unfilled, scopeOf?_bind, scopeOf?_declare, scopeOf?_child]

end Table

namespace Sites

variable {ok : ScopeId → Scope → Sites → Prop} {t t' : Table} {s c : ScopeId} {xs : Sites}

theorem Placed.of_mem_tops (h : xs.Placed ok t s) (hc : c ∈ xs.tops t) :
    ∃ sc n, t.scopes[c]? = some sc ∧ sc.node = some n ∧ n ∈ xs.nodes ∧ sc.parent = some s := by
  induction xs with
  | nil => cases hc
  | site x rest ih =>
    obtain ⟨sc, n, hsc, hn, hmem, hp⟩ := ih h.2 hc
    exact ⟨sc, n, hsc, hn, mem_append_right _ hmem, hp⟩
  | hoist inner rest ihi ih =>
    obtain hc | hc := mem_append.1 hc
    · obtain ⟨sc, n, hsc, hn, hmem, hp⟩ := ihi h.1 hc
      exact ⟨sc, n, hsc, hn, mem_append_left _ hmem, hp⟩
    · obtain ⟨sc, n, hsc, hn, hmem, hp⟩ := ih h.2 hc
      exact ⟨sc, n, hsc, hn, mem_append_right _ hmem, hp⟩
  | scope k n inner rest ihi ih =>
    obtain ⟨⟨c', sc, hopen, -, -⟩, hrest⟩ := h
    obtain hc | hc := mem_append.1 hc
    · rw [hopen.owner] at hc
      obtain rfl := mem_singleton.1 hc
      exact ⟨sc, n, hopen.scope, hopen.node, mem_cons_self, hopen.parent⟩
    · obtain ⟨sc, n, hsc, hn, hmem, hp⟩ := ih hrest hc
      exact ⟨sc, n, hsc, hn, mem_cons_of_mem _ (mem_append_right _ hmem), hp⟩

theorem Placed.parent_ne (h : xs.Placed ok t c) (hc : c ≠ s) (hs : t.OpenedBy s i)
    (hi : i ∉ xs.ids) (hd : xs.Distinct) :
    xs.Placed (fun c sc inner => ok c sc inner ∧ sc.parent ≠ some s) t c := by
  induction xs generalizing c with
  | nil => trivial
  | site x rest ih =>
    rw [ids_site, mem_append, not_or] at hi
    exact ⟨h.1, ih h.2 hc hi.2 hd.site.2.2.1⟩
  | hoist inner rest ihi ih =>
    rw [ids_hoist, mem_append, not_or] at hi
    exact ⟨ihi h.1 hc hi.1 hd.hoist.1, ih h.2 hc hi.2 hd.hoist.2.1⟩
  | scope k n inner rest ihi ih =>
    obtain ⟨⟨c', sc, hopen, hok, hin⟩, hrest⟩ := h
    obtain ⟨j, hj, -, -, hdi, hdr, -⟩ := hd.scope
    simp only [ids_scope, hj, Option.toList_some, singleton_append, mem_cons,
      mem_append, not_or] at hi
    have hne : c' ≠ s := fun heq => hi.1 (hs.unique (heq ▸ hopen.openedBy hj))
    refine ⟨⟨c', sc, hopen, ⟨hok, ?_⟩, ihi hin hne hi.2.1 hdi⟩, ih hrest hc hi.2.2 hdr⟩
    rw [hopen.parent]
    exact fun heq => hc (Option.some.inj heq)

theorem Exact.reparent (h : Exact sc xs) (q : Option ScopeId) :
    Exact { sc with parent := q } xs := by
  have hfold : ∀ (ds : List Declaration) (sc : Scope),
      { sc.declareAll ds with parent := q } = { sc with parent := q : Scope }.declareAll ds := by
    intro ds
    induction ds with
    | nil => exact fun _ => rfl
    | cons d ds ih => exact fun sc => ih (sc.declare d)
  rw [Exact] at h ⊢
  conv_lhs => rw [h]
  exact hfold _ _

theorem Placed.move (h : xs.Placed (fun _ sc inner => Exact sc inner) t s) (hx : xs.Inert)
    (hs : t.OpenedBy s i) (hi : i ∉ xs.ids) (hd : xs.Distinct)
    (ho : ∀ n ∈ xs.nodes, t'.scopeOf? n.mark = t.scopeOf? n.mark)
    (hsub : ∀ x ∈ xs.tops t, x ∈ cs)
    (hm : ∀ x sc, t.scopes[x]? = some sc → t'.scopes[x]? = some (Table.moved cs s c x sc)) :
    xs.Placed (fun _ sc inner => Exact sc inner) t' c := by
  induction xs with
  | nil => trivial
  | site x rest ih =>
    rw [ids_site, mem_append, not_or] at hi
    simp only [nodes, forall_mem_append] at ho
    refine ⟨?_, ih h.2 hx.2 hi.2 hd.site.2.2.1 ho.2 hsub⟩
    cases x with
    | node | use | call => exact fun n hn => (ho.1 n hn).trans (h.1 n hn)
    | bind | label | share | stray => cases hx.1
  | hoist inner rest _ _ => exact hx.elim
  | scope k n inner rest _ ih =>
    obtain ⟨⟨c', sc, hopen, hok, hin⟩, hrest⟩ := h
    obtain ⟨j, hj, -, -, hdi, hdr, -⟩ := hd.scope
    simp only [ids_scope, hj, Option.toList_some, singleton_append, mem_cons,
      mem_append, not_or] at hi
    simp only [nodes, forall_mem_cons, forall_mem_append] at ho
    simp only [tops, hopen.owner, Option.toList_some, singleton_append,
      forall_mem_cons] at hsub
    have hmoved : Table.moved cs s c c' sc = { sc with parent := some c } :=
      if_pos ⟨hsub.1, hopen.parent⟩
    have hne : c' ≠ s := fun heq => hi.1 (hs.unique (heq ▸ hopen.openedBy hj))
    refine ⟨⟨c', { sc with parent := some c }, ⟨?_, ?_, hopen.kind, hopen.node, rfl⟩,
      hok.reparent _, ?_⟩, ih hrest hx.2 hi.2.2 hdr ho.2.2 hsub.2⟩
    · rw [ho.1, hopen.owner]
    · rw [hm c' sc hopen.scope, hmoved]
    · -- scopes further inside keep their parents
      have hin := hin.parent_ne hne hs hi.2.1 hdi
      refine (hin.frame ho.2.1 ?_).imp fun _ _ _ h => h.1
      intro x sc inner n _ _ hpar hsc
      rw [hm x sc hsc, Table.moved, if_neg fun h => hpar.2 h.2]

end Sites

namespace Table

variable {t t' : Table} {s : ScopeId} {m : Mark} {param : Ident}

/-- How the table changes when sites of scope `s` move into a new function there: the scopes `cs`
that they open become children of its scope. -/
structure Wraps (t t' : Table) (m : Mark) (param : Ident) (s : ScopeId) (xs : Sites)
    (cs : List ScopeId) : Prop where
  owner : ∀ m', t'.scopeOf? m' =
    if m.id.isSome ∧ m.id = m'.id then some t.scopes.length else t.scopeOf? m'
  scopes : ∀ x, t'.scopes[x]? = if x = t.scopes.length then some (callbackScope m param s)
    else (t.scopes[x]?).map (moved cs s t.scopes.length x)
  tops : ∀ c ∈ cs, ∃ sc n, t.scopes[c]? = some sc ∧ sc.node = some n ∧ n ∈ xs.nodes
  placed : xs.Placed (fun _ sc inner => Sites.Exact sc inner) t' t.scopes.length
  lists : SameLists { t with declared := put t.declared param.name } t'

theorem Wraps.scopes_old (h : t.Wraps t' m param s xs cs) (hx : t.scopes[x]? = some sc) :
    t'.scopes[x]? = some (moved cs s t.scopes.length x sc) := by
  have hlt := (List.getElem?_eq_some_iff.1 hx).1
  rw [h.scopes, if_neg (Nat.ne_of_lt hlt), hx, Option.map_some]

theorem Wraps.scopes_kept (h : t.Wraps t' m param s xs cs) (hx : t.OpenedBy x i) (hi : i ∉ xs.ids) :
    t'.scopes[x]? = t.scopes[x]? := by
  obtain ⟨sc, n, hsc, hn, hid⟩ := hx
  rw [h.scopes_old hsc, hsc, moved, if_neg]
  rintro ⟨hc, -⟩
  obtain ⟨sc', n', hsc', hn', hmem⟩ := h.tops x hc
  cases hsc.symm.trans hsc'
  cases hn.symm.trans hn'
  exact hi (Sites.mem_ids hmem hid)

theorem wraps_wrapped {e : Expr} (hp : e.sites.Placed (fun _ sc inner => Sites.Exact sc inner) t s)
    (hd : e.sites.Distinct) (hs : t.OpenedBy s i) (hi : i ∉ e.sites.ids) (hm : m.id = some j)
    (hj : j ∉ e.sites.ids) :
    ∃ cs, t.Wraps (t.wrapped m param e.outline s) m param s e.sites cs := by
  have hold : ∀ {x sc}, t.scopes[x]? = some sc →
      (t.unfilled m param s).scopes[x]? = some sc := fun {x sc} hx => by
    rw [scopes_unfilled, if_neg (Nat.ne_of_lt (List.getElem?_eq_some_iff.1 hx).1), hx]
  have hown : ∀ n ∈ e.sites.nodes,
      (t.unfilled m param s).scopeOf? n.mark = t.scopeOf? n.mark := fun n hn => by
    rw [scopeOf?_unfilled, if_neg]
    rintro ⟨-, heq⟩
    exact hj (Sites.mem_ids hn (heq ▸ hm))
  have hnew : (t.unfilled m param s).scopes[t.scopes.length]? = some (callbackScope m param s) := by
    rw [scopes_unfilled, if_pos rfl]
  have hp' := hp.frame hown fun _ _ _ _ _ _ _ => hold
  have hcs : (t.unfilled m param s).outermost e.outline = e.sites.tops (t.unfilled m param s) :=
    Expr.outermost e hp'
  have hscopes : ∀ x, (t.wrapped m param e.outline s).scopes[x]? =
      ((t.unfilled m param s).scopes[x]?).map
        (moved (e.sites.tops (t.unfilled m param s)) s t.scopes.length x) := fun x => by
    rw [wrapped_eq, scopes_reparent, hcs]
  -- the new scope is none of those that move into it
  have hnot : t.scopes.length ∉ e.sites.tops (t.unfilled m param s) := fun hmem => by
    obtain ⟨sc, n, hsc, hn, hmem, -⟩ := hp'.of_mem_tops hmem
    cases hnew.symm.trans hsc
    cases hn
    exact hj (Sites.mem_ids hmem hm)
  refine ⟨e.sites.tops (t.unfilled m param s), fun m' => ?_, fun x => ?_, fun c hc => ?_, ?_, ?_⟩
  · rw [wrapped_eq, scopeOf?_reparent, scopeOf?_unfilled]
  · rw [hscopes]
    by_cases hx : x = t.scopes.length
    · rw [hx, hnew, if_pos rfl, Option.map_some, moved, if_neg fun h => hnot h.1]
    · rw [if_neg hx, scopes_unfilled, if_neg hx]
  · obtain ⟨sc, n, hsc, hn, hmem, -⟩ := hp'.of_mem_tops hc
    have hne : c ≠ t.scopes.length := fun heq => hnot (heq ▸ hc)
    rw [scopes_unfilled, if_neg hne] at hsc
    exact ⟨sc, n, hsc, hn, hmem⟩
  · obtain ⟨sc, n, hsc, hn, hid⟩ := hs
    refine hp'.move e.inert ⟨sc, n, hold hsc, hn, hid⟩ hi hd (fun n _ => ?_) (fun _ h => h) ?_
    · rw [wrapped_eq, scopeOf?_reparent]
    · exact fun x sc hx => by rw [hscopes, hx, Option.map_some]
  · refine .trans ?_ (.reparent _ _ _ _)
    refine .trans ?_ (.bind _ m _)
    exact ⟨rfl, rfl, rfl⟩

end Table

namespace PassState

variable {p p' p₁ p₂ : PassState} {s : ScopeId} {is : List Nat} {ds ds' : List Text}

/-- From `p` to `p'` the pass worked on nodes numbered `is` of scope `s`, where it declared `ds`. -/
structure Frame (p p' : PassState) (s : ScopeId) (is : List Nat) (ds : List Text) : Prop where
  next : p.nextNode ≤ p'.nextNode
  owners : ∀ m, (∀ i, m.id = some i → i ∉ is ∧ i < p.nextNode) →
    p'.table.scopeOf? m = p.table.scopeOf? m
  scopes : ∀ c i, p.table.OpenedBy c i → c ≠ s → i ∉ is → i < p.nextNode →
    p'.table.scopes[c]? = p.table.scopes[c]?
  self : ∀ sc, p.table.scopes[s]? = some sc → ∃ sc', p'.table.scopes[s]? = some sc' ∧
    sc'.kind = sc.kind ∧ sc'.node = sc.node ∧ sc'.parent = sc.parent ∧
    ∀ x, x ∈ sc'.declared.map (·.name) ↔ x ∈ sc.declared.map (·.name) ∨ x ∈ ds

namespace Frame

variable {js ks : List Nat} {c : ScopeId} {i j : Nat}

theorem of_table (h : p'.table = p.table) (hn : p'.nextNode = p.nextNode) :
    p.Frame p' s is [] where
  next := Nat.le_of_eq hn.symm
  owners m _ := by rw [h]
  scopes c i _ _ _ _ := by rw [h]
  self sc hs := ⟨sc, by rw [h, hs], rfl, rfl, rfl, by simp⟩

theorem refl (p : PassState) (s : ScopeId) (is : List Nat) : p.Frame p s is [] := of_table rfl rfl

theorem openedBy_self (h : p.Frame p' s is ds) (hs : p.table.OpenedBy s i) :
    p'.table.OpenedBy s i := by
  obtain ⟨sc, n, hsc, hn, hi⟩ := hs
  obtain ⟨sc', hsc', -, hn', -, -⟩ := h.self sc hsc
  exact ⟨sc', n, hsc', hn'.trans hn, hi⟩

theorem openedBy (h : p.Frame p' s is ds) (hc : p.table.OpenedBy c i) (hi : i ∉ is)
    (hlt : i < p.nextNode) : p'.table.OpenedBy c i := by
  by_cases heq : c = s
  · exact heq ▸ h.openedBy_self (heq ▸ hc)
  · have hkeep := h.scopes c i hc heq hi hlt
    obtain ⟨sc, n, hsc, hn, hid⟩ := hc
    exact ⟨sc, n, hkeep.trans hsc, hn, hid⟩

theorem mono (h : p.Frame p' s is ds) (hi : ∀ i ∈ is, i ∈ ks) : p.Frame p' s ks ds where
  next := h.next
  owners m hm := h.owners m fun i hid => ⟨fun hmem => (hm i hid).1 (hi i hmem), (hm i hid).2⟩
  scopes c i hc hne hk hlt := h.scopes c i hc hne (fun hmem => hk (hi i hmem)) hlt
  self := h.self

theorem congr_names (h : p.Frame p' s is ds) (hd : ∀ x, x ∈ ds ↔ x ∈ ds') :
    p.Frame p' s is ds' where
  next := h.next
  owners := h.owners
  scopes := h.scopes
  self := by simpa only [hd] using h.self

theorem trans (h : p.Frame p₁ s ks ds) (h' : p₁.Frame p₂ s ks ds') :
    p.Frame p₂ s ks (ds ++ ds') where
  next := Nat.le_trans h.next h'.next
  owners m hm := by
    rw [h'.owners m fun i hid => ⟨(hm i hid).1, Nat.lt_of_lt_of_le (hm i hid).2 h.next⟩,
      h.owners m hm]
  scopes c i hc hne hk hlt := by
    rw [h'.scopes c i (h.openedBy hc hk hlt) hne hk (Nat.lt_of_lt_of_le hlt h.next),
      h.scopes c i hc hne hk hlt]
  self sc hs := by
    obtain ⟨sc₁, hs₁, hk₁, hn₁, hp₁, hx₁⟩ := h.self sc hs
    obtain ⟨sc₂, hs₂, hk₂, hn₂, hp₂, hx₂⟩ := h'.self sc₁ hs₁
    refine ⟨sc₂, hs₂, hk₂.trans hk₁, hn₂.trans hn₁, hp₂.trans hp₁, fun x => ?_⟩
    rw [hx₂, hx₁, mem_append, or_assoc]

theorem inside (h : p.Frame p₁ s ks []) (h' : p₁.Frame p₂ c js ds) (hjs : ∀ j ∈ js, j ∈ ks)
    (hc : p₁.table.OpenedBy c j) (hj : j ∈ ks ∨ p.nextNode ≤ j) (hs : p.table.OpenedBy s i)
    (hi : i ∉ ks) (hlt : i < p.nextNode) : p.Frame p₂ s ks [] := by
  have hne : ∀ {x l}, p.table.OpenedBy x l → l ∉ ks → l < p.nextNode → x ≠ c := by
    rintro x l hx hl hlt rfl
    obtain rfl := (h.openedBy hx hl hlt).unique hc
    exact hj.elim hl fun hle => Nat.not_lt.2 hle hlt
  have hkeep : ∀ {x l}, p.table.OpenedBy x l → l ∉ ks → l < p.nextNode →
      p₂.table.scopes[x]? = p₁.table.scopes[x]? := fun {x l} hx hl hlt =>
    h'.scopes x l (h.openedBy hx hl hlt) (hne hx hl hlt) (fun hmem => hl (hjs l hmem))
      (Nat.lt_of_lt_of_le hlt h.next)
  refine ⟨Nat.le_trans h.next h'.next, fun m hm => ?_, fun x l hx hxs hl hlt => ?_,
    fun sc hsc => ?_⟩
  · rw [h'.owners m fun i hid => ⟨fun hmem => (hm i hid).1 (hjs i hmem),
      Nat.lt_of_lt_of_le (hm i hid).2 h.next⟩, h.owners m hm]
  · rw [hkeep hx hl hlt, h.scopes x l hx hxs hl hlt]
  · obtain ⟨sc', hsc', hrest⟩ := h.self sc hsc
    exact ⟨sc', (hkeep hs hi hlt).trans hsc', hrest⟩

theorem placed {ok : ScopeId → Scope → Sites → Prop} {zs : Sites} (h : p.Frame p' s is ds)
    (hz : zs.Placed ok p.table r) (hs : p.table.OpenedBy s i) (hi : i ∉ zs.ids)
    (hids : ∀ j ∈ zs.ids, j ∉ is ∧ j < p.nextNode) : zs.Placed ok p'.table r := by
  refine hz.frame (fun n hn => h.owners _ fun j hj => hids j (Sites.mem_ids hn hj)) ?_
  intro c sc inner j hc hj _ hsc
  have hne : c ≠ s := by
    rintro rfl
    exact hi (hs.unique hc ▸ hj)
  rw [h.scopes c j hc hne (hids j hj).1 (hids j hj).2, hsc]

theorem declare (p : PassState) (s : ScopeId) (is : List Nat) (name : Text) (k : BindingKind)
    (i : Option Ident) :
    p.Frame { p with table := p.table.declare s name k i } s is [name] where
  next := Nat.le_refl _
  owners m _ := p.table.scopeOf?_declare s name k i m
  scopes c _ _ hne _ _ := by
    rw [Table.scopes_declare]
    simp [Ne.symm hne]
  self sc hs := by
    refine ⟨sc.declare ⟨name, k, i⟩, ?_, rfl, rfl, rfl, fun x => ?_⟩
    · rw [Table.scopes_declare, hs, Option.map_some, if_pos rfl]
    · rw [Scope.mem_names_declare, mem_singleton, or_comm]

theorem bind (p : PassState) (s c : ScopeId) (is : List Nat) (span : Span) :
    p.Frame (p.marked (p.table.bind (p.newMark span) c)) s is [] where
  next := Nat.le_succ _
  owners m hm := by
    refine (Table.scopeOf?_bind _ _ _ _).trans (if_neg fun h => ?_)
    exact Nat.lt_irrefl _ (hm p.nextNode h.2.symm).2
  scopes x _ _ _ _ _ := by
    rw [marked, Table.scopes_bind]
  self sc hs := ⟨sc, by rw [marked, Table.scopes_bind, hs], rfl, rfl, rfl, by simp⟩

theorem watched (p : PassState) (hown : p.table.scopeOf? old = some c) (hold : old.id = some j)
    (hj : j ∈ ks) (hc : p.table.OpenedBy c j) (hs : p.table.OpenedBy s i) (hi : i ∉ ks)
    (span : Span) : p.Frame (p.marked (p.table.watched old (p.newMark span) c)) s ks [] := by
  have hkeep : ∀ {x l}, p.table.OpenedBy x l → l ∉ ks →
      (p.table.watched old (p.newMark span) c).scopes[x]? = p.table.scopes[x]? := by
    intro x l hx hl
    have hne : c ≠ x := by
      rintro rfl
      exact hl (hx.unique hc ▸ hj)
    rw [Table.scopes_watched hown]
    simp [hne]
  refine ⟨Nat.le_succ _, fun m hm => ?_, fun x l hx _ hl _ => hkeep hx hl, fun sc hsc => ?_⟩
  · refine (Table.scopeOf?_watched hown).trans ?_
    rw [if_neg fun h => Nat.lt_irrefl _ (hm p.nextNode h.2.symm).2,
      if_neg fun h => (hm j (h.symm.trans hold)).1 hj]
  · exact ⟨sc, (hkeep hs hi).trans hsc, rfl, rfl, rfl, by simp⟩

theorem wrapped {t : Table} {param : Ident} {xs : Sites} {cs : List ScopeId} {span : Span}
    (hw : p.table.Wraps t (p.newMark span) param s xs cs) (hs : p.table.OpenedBy s i)
    (hi : i ∉ xs.ids) : p.Frame (p.marked t) s xs.ids [] where
  next := Nat.le_succ _
  owners m hm := by
    refine (hw.owner m).trans (if_neg fun h => ?_)
    exact Nat.lt_irrefl _ (hm p.nextNode h.2.symm).2
  scopes x l hx _ hl _ := hw.scopes_kept hx hl
  self sc hsc := ⟨sc, (hw.scopes_kept hs hi).trans hsc, rfl, rfl, rfl, by simp⟩

end Frame

end PassState

end LabelHooks
