import LabelHooks.Proofs.Numbering
import LabelHooks.Proofs.Recording
import LabelHooks.Proofs.Tables
import Mathlib.Data.List.Nodup

/-!
How sites stand in a table: every node that opens a scope owns one, with the right kind and
parent, and no other node owns any. The table of an analysis is such, and its scopes declare
exactly what their sites bind.
-/

namespace LabelHooks
set_option autoImplicit true

open List

namespace Scope

def declareAll (sc : Scope) (ds : List Declaration) : Scope := ds.foldl Scope.declare sc

@[simp] theorem declareAll_nil (sc : Scope) : sc.declareAll [] = sc := rfl

theorem declareAll_append (sc : Scope) (ds ds' : List Declaration) :
    sc.declareAll (ds ++ ds') = (sc.declareAll ds).declareAll ds' := foldl_append

theorem declareAll_fields (sc : Scope) (ds : List Declaration) :
    (sc.declareAll ds).kind = sc.kind ∧ (sc.declareAll ds).node = sc.node ∧
      (sc.declareAll ds).parent = sc.parent := by
  induction ds generalizing sc with
  | nil => exact ⟨rfl, rfl, rfl⟩
  | cons d ds ih => exact ih (sc.declare d)

theorem mem_names_declareAll {sc : Scope} {ds : List Declaration} :
    x ∈ (sc.declareAll ds).declared.map (·.name) ↔
      x ∈ sc.declared.map (·.name) ∨ x ∈ ds.map (·.name) := by
  induction ds generalizing sc with
  | nil => simp
  | cons d ds ih =>
    rw [declareAll, foldl_cons, ← declareAll, ih, mem_names_declare, map_cons,
      mem_cons]
    tauto

@[simp] theorem kind_declareAll (sc : Scope) (ds : List Declaration) :
    (sc.declareAll ds).kind = sc.kind := (sc.declareAll_fields ds).1

@[simp] theorem node_declareAll (sc : Scope) (ds : List Declaration) :
    (sc.declareAll ds).node = sc.node := (sc.declareAll_fields ds).2.1

@[simp] theorem parent_declareAll (sc : Scope) (ds : List Declaration) :
    (sc.declareAll ds).parent = sc.parent := (sc.declareAll_fields ds).2.2

end Scope

namespace Table

variable {t t' t₁ t₂ : Table} {s : ScopeId} {sc : Scope} {ds ds' : ScopeId → List Declaration}

structure Opens (t : Table) (s : ScopeId) (k : ScopeKind) (n : Node) (c : ScopeId) (sc : Scope) :
    Prop where
  owner : t.scopeOf? n.mark = some c
  scope : t.scopes[c]? = some sc
  kind : sc.kind = k
  node : sc.node = some n
  parent : sc.parent = some s

def OpenedBy (t : Table) (s : ScopeId) (i : Nat) : Prop :=
  ∃ sc n, t.scopes[s]? = some sc ∧ sc.node = some n ∧ n.mark.id = some i

theorem OpenedBy.unique (h : t.OpenedBy s i) (h' : t.OpenedBy s j) : i = j := by
  obtain ⟨sc, n, hs, hn, hi⟩ := h
  obtain ⟨sc', n', hs', hn', hj⟩ := h'
  cases hs.symm.trans hs'
  cases hn.symm.trans hn'
  exact Option.some.inj (hi.symm.trans hj)

theorem Opens.openedBy (h : t.Opens s k n c sc) (hi : n.mark.id = some i) : t.OpenedBy c i :=
  ⟨sc, n, h.scope, h.node, hi⟩

theorem Opens.numbered (h : t.Opens s k n c sc) : ∃ i, n.mark.id = some i := by
  obtain ⟨i, hi, -⟩ := Option.bind_eq_some_iff.1 h.owner
  exact ⟨i, hi⟩

def Ordered (t : Table) : Prop :=
  ∀ (x : ScopeId) (sc : Scope) (p : ScopeId), t.scopes[x]? = some sc → sc.parent = some p → p < x

theorem Ordered.rooted (h : t.Ordered) : t.Rooted := by
  intro s
  induction s using Nat.strongRecOn with
  | ind s ih =>
    intro sc hs
    cases hp : sc.parent with
    | none => exact ⟨_, .root hs hp⟩
    | some p =>
      have hlt : p < s := h s sc p hs hp
      have hlen : p < t.scopes.length := Nat.lt_trans hlt (List.getElem?_eq_some_iff.1 hs).1
      obtain ⟨l, hl⟩ := ih p hlt _ (getElem?_eq_getElem hlen)
      exact ⟨_, .child hs hp hl⟩

/-- `t'` has the scopes of `t`, in which more names are declared, and perhaps others. -/
structure Grows (t t' : Table) (ds : ScopeId → List Declaration) : Prop where
  ordered : t.Ordered → t'.Ordered
  scopes : ∀ (x : ScopeId) (sc : Scope), t.scopes[x]? = some sc →
    t'.scopes[x]? = some (sc.declareAll (ds x))

namespace Grows

theorem refl (t : Table) : Grows t t fun _ => [] := ⟨id, fun _ _ h => h⟩

theorem trans (h : Grows t t₁ ds) (h' : Grows t₁ t₂ ds') :
    Grows t t₂ fun x => ds x ++ ds' x where
  ordered ho := h'.ordered (h.ordered ho)
  scopes x sc hx := by
    rw [Scope.declareAll_append]
    exact h'.scopes x _ (h.scopes x sc hx)

theorem path (h : Grows t t' ds) (hl : t.Path s l) : t'.Path s l := by
  induction hl with
  | root hs hp => exact .root (h.scopes _ _ hs) (by simpa using hp)
  | child hs hp _ ih => exact .child (h.scopes _ _ hs) (by simpa using hp) ih

end Grows

def isOuter (t : Table) (c : ScopeId) : Bool :=
  match t.scopes[c]? with
  | some sc => sc.kind = .function || sc.parent.isNone
  | none => true

theorem Path.isSome_find? (h : t.Path s l) : (l.find? t.isOuter).isSome := by
  induction h with
  | root hs hp => simp [isOuter, hs, hp]
  | child hs hp hl ih =>
    rw [find?_cons]
    split
    · rfl
    · exact ih

theorem functionScope_root (hs : t.scopes[s]? = some sc) (hp : sc.parent = none) :
    t.functionScope s = s := by
  have h : t.functionScope s = ((t.chain s).find? t.isOuter).getD s := rfl
  rw [h, (Path.root hs hp).chain_eq]
  simp [isOuter, hs, hp]

theorem functionScope_child (hs : t.scopes[s]? = some sc) (hp : sc.parent = some p)
    (hl : t.Path p l) :
    t.functionScope s = if sc.kind = .function then s else t.functionScope p := by
  have h : ∀ r, t.functionScope r = ((t.chain r).find? t.isOuter).getD r := fun _ => rfl
  rw [h, h, (Path.child hs hp hl).chain_eq, hl.chain_eq]
  by_cases hk : sc.kind = .function
  · simp [isOuter, hs, hk]
  · obtain ⟨f, hf⟩ := Option.isSome_iff_exists.1 hl.isSome_find?
    have hout : t.isOuter s = false := by simp [isOuter, hs, hk, hp]
    simp [hout, hf, hk]

theorem Grows.functionScope (h : Grows t t' ds) (hl : t.Path s l) :
    t'.functionScope s = t.functionScope s := by
  induction hl with
  | root hs hp =>
    rw [functionScope_root hs hp, functionScope_root (h.scopes _ _ hs) (by simpa using hp)]
  | child hs hp hl ih =>
    rw [functionScope_child hs hp hl,
      functionScope_child (h.scopes _ _ hs) (by simpa using hp) (h.path hl), ih,
      Scope.kind_declareAll]

theorem functionScope_mem (hl : t.Path s l) : t.functionScope s ∈ l := by
  obtain ⟨f, hf⟩ := Option.isSome_iff_exists.1 hl.isSome_find?
  have h : t.functionScope s = ((t.chain s).find? t.isOuter).getD s := rfl
  rw [h, hl.chain_eq, hf]
  exact mem_of_find?_eq_some hf

theorem Grows.declare (t : Table) (owner : ScopeId) (name : Text) (kind : BindingKind)
    (i : Option Ident) :
    Grows t (t.declare owner name kind i) fun x => if x = owner then [⟨name, kind, i⟩] else [] where
  ordered ho := by
    intro x sc p hx hp
    rw [scopes_declare] at hx
    obtain ⟨sc', hsc', rfl⟩ := Option.map_eq_some_iff.1 hx
    refine ho x sc' p hsc' ?_
    split at hp <;> exact hp
  scopes x sc hx := by
    rw [scopes_declare, hx, Option.map_some]
    by_cases h : owner = x
    · simp [h, Scope.declareAll]
    · simp [h, Ne.symm h]

theorem Grows.of_scopes_eq (h : t'.scopes = t.scopes) : Grows t t' fun _ => [] where
  ordered ho := by
    intro x sc p hx
    rw [h] at hx
    exact ho x sc p hx
  scopes x sc hx := by rw [h, hx, Scope.declareAll_nil]

theorem scopes_opened (t : Table) (s : ScopeId) (k : ScopeKind) (n : Node) (x : ScopeId) :
    (t.opened s k n).scopes[x]? =
      if x = t.scopes.length then some ⟨k, some n, some s, []⟩ else t.scopes[x]? := by
  rw [opened, scopes_bind, scopes_child]

theorem scopeOf?_opened (t : Table) (s : ScopeId) (k : ScopeKind) (n : Node) (m : Mark)
    (hi : n.mark.id = some i) :
    (t.opened s k n).scopeOf? m = if m.id = some i then some t.scopes.length else t.scopeOf? m := by
  rw [opened, scopeOf?_bind, hi, scopeOf?_child]
  simp [eq_comm]

theorem Grows.opened (hs : s < t.scopes.length) (k : ScopeKind) (n : Node) :
    Grows t (t.opened s k n) fun _ => [] where
  ordered ho := by
    intro x sc p hx hp
    rw [scopes_opened] at hx
    split at hx
    · next heq =>
      cases hx
      cases hp
      exact heq ▸ hs
    · exact ho x sc p hx hp
  scopes x sc hx := by
    have hlt := (List.getElem?_eq_some_iff.1 hx).1
    rw [scopes_opened, if_neg (Nat.ne_of_lt hlt), hx, Scope.declareAll_nil]

theorem functionScope_opened (ho : t.Ordered) (hs : s < t.scopes.length) (k : ScopeKind)
    (n : Node) :
    decide (t.scopes.length = (t.opened s k n).functionScope t.scopes.length) =
      decide (k = .function) := by
  obtain ⟨l, hl⟩ := ho.rooted s _ (getElem?_eq_getElem hs)
  have hopen : t.Grows (t.opened s k n) _ := .opened hs k n
  have hnew : (t.opened s k n).scopes[t.scopes.length]? = some ⟨k, some n, some s, []⟩ := by
    rw [scopes_opened, if_pos rfl]
  have hne : t.scopes.length ≠ t.functionScope s :=
    Nat.ne_of_gt (hl.lt_length _ (functionScope_mem hl))
  rw [functionScope_child hnew rfl (hopen.path hl), hopen.functionScope hl]
  by_cases hk : k = .function <;> simp [hk, hne]

theorem Grows.length_le (h : Grows t t' ds) : t.scopes.length ≤ t'.scopes.length := by
  by_contra hlt
  have hlt : t'.scopes.length < t.scopes.length := Nat.lt_of_not_le hlt
  have hx := h.scopes _ _ (getElem?_eq_getElem hlt)
  rw [getElem?_eq_none (Nat.le_refl _)] at hx
  cases hx

end Table

namespace Site

theorem record_grows (x : Site) (owner s : ScopeId) (t : Table) :
    t.Grows (x.record owner s t) fun c => if c = owner then x.decl?.toList else [] := by
  cases x with
  | bind kind i => exact Table.Grows.declare t owner i.name kind (some i)
  | share m => simpa [decl?, record] using Table.Grows.of_scopes_eq (t.scopes_bind m s)
  | use i =>
    have h : (record owner s t (.use i)).scopes = t.scopes := by
      unfold record
      dsimp only
      split <;> rfl
    simpa [decl?] using Table.Grows.of_scopes_eq h
  | label i b =>
    have h : (record owner s t (.label i b)).scopes = t.scopes := rfl
    simpa [decl?] using Table.Grows.of_scopes_eq h
  | node n => simpa [decl?, record] using Table.Grows.refl t
  | call f m p => simpa [decl?, record] using Table.Grows.refl t
  | stray e => simpa [decl?, record] using Table.Grows.refl t

end Site

namespace Sites

theorem decls_false_false (xs : Sites) : xs.decls false false = [] := by
  induction xs with
  | nil => rfl
  | site x rest ih => simpa [decls] using ih
  | hoist inner rest ihi ih => simp [decls, ihi, ih]
  | scope kind n inner rest ihi ih => simp [decls, ihi, ih]

theorem record_grows (xs : Sites) (owner s : ScopeId) (t : Table) (ho : t.Ordered)
    (hs : s < t.scopes.length) :
    t.Grows (xs.record owner s t) fun x =>
      xs.decls (decide (x = owner)) (decide (x = t.functionScope s)) := by
  induction xs generalizing owner s t with
  | nil => exact .refl t
  | site x rest ih =>
    have hx := x.record_grows owner s t
    obtain ⟨l, hl⟩ := ho.rooted s _ (getElem?_eq_getElem hs)
    have hrest := ih owner s _ (hx.ordered ho) (Nat.lt_of_lt_of_le hs hx.length_le)
    rw [hx.functionScope hl] at hrest
    simpa only [decls, record, decide_eq_true_eq] using hx.trans hrest
  | hoist inner rest ihi ih =>
    have hx := ihi (t.functionScope s) s t ho hs
    obtain ⟨l, hl⟩ := ho.rooted s _ (getElem?_eq_getElem hs)
    have hrest := ih owner s _ (hx.ordered ho) (Nat.lt_of_lt_of_le hs hx.length_le)
    rw [hx.functionScope hl] at hrest
    exact hx.trans hrest
  | scope k n inner rest ihi ih =>
    have hopen : t.Grows (t.opened s k n) _ := .opened hs k n
    have hnew : (t.opened s k n).scopes[t.scopes.length]? = some ⟨k, some n, some s, []⟩ := by
      rw [Table.scopes_opened, if_pos rfl]
    obtain ⟨l, hl⟩ := ho.rooted s _ (getElem?_eq_getElem hs)
    have hfun := Table.functionScope_child hnew rfl (hopen.path hl)
    rw [hopen.functionScope hl] at hfun
    have hin := ihi t.scopes.length t.scopes.length _ (hopen.ordered ho)
      (List.getElem?_eq_some_iff.1 hnew).1
    rw [hfun] at hin
    have hx := hopen.trans hin
    have hrest := ih owner s _ (hx.ordered ho) (Nat.lt_of_lt_of_le hs hx.length_le)
    rw [hx.functionScope hl] at hrest
    have hall := hx.trans hrest
    refine ⟨hall.ordered, fun x sc hsc => ?_⟩
    have hne : x ≠ t.scopes.length := Nat.ne_of_lt (List.getElem?_eq_some_iff.1 hsc).1
    have := hall.scopes x sc hsc
    -- a function keeps all of its declarations, another scope lets the hoisted ones pass
    by_cases hk : k = .function
    · simpa [decls, record, hk, hne, decls_false_false] using this
    · simpa [decls, record, hk, hne] using this

end Sites

namespace Site

def ids (x : Site) : List Nat := x.nodes.filterMap (·.mark.id)

def owners : Site → List Node
  | .share m => [⟨.blockStmt, m, []⟩]
  | .node _ | .use _ | .bind _ _ | .label _ _ | .call _ _ _ | .stray _ => []

def Placed (t : Table) (s : ScopeId) : Site → Prop
  | .share m => t.scopeOf? m = some s
  | x => ∀ n ∈ x.nodes, t.scopeOf? n.mark = none

theorem Placed.frame {t t' : Table} {s : ScopeId} {x : Site} (h : x.Placed t s)
    (ho : ∀ n ∈ x.nodes, t'.scopeOf? n.mark = t.scopeOf? n.mark) : x.Placed t' s := by
  cases x with
  | share m => exact (ho ⟨.blockStmt, m, []⟩ (by simp [nodes])).trans h
  | node | use | bind | label | call | stray => exact fun n hn => (ho n hn).trans (h n hn)

theorem scopeOf?_record (x : Site) (owner s : ScopeId) (t : Table) (m : Mark)
    (h : ∀ i ∈ x.ids, m.id ≠ some i) :
    (x.record owner s t).scopeOf? m = t.scopeOf? m := by
  cases x with
  | share b =>
    refine (t.scopeOf?_bind b m s).trans (if_neg ?_)
    rintro ⟨hsome, heq⟩
    obtain ⟨i, hi⟩ := Option.isSome_iff_exists.1 hsome
    exact h i (by simp [ids, nodes, hi]) (heq ▸ hi)
  | use i =>
    unfold record
    dsimp only
    split <;> rfl
  | node | bind | label | call | stray => rfl

theorem record_placed (x : Site) (owner s : ScopeId) (t : Table)
    (hown : ∀ n ∈ x.owners, n.mark.id.isSome) (hfree : ∀ n ∈ x.nodes, t.scopeOf? n.mark = none) :
    x.Placed (x.record owner s t) s := by
  cases x with
  | share m =>
    have hm : m.id.isSome := hown ⟨.blockStmt, m, []⟩ (by simp [owners])
    exact (t.scopeOf?_bind m m s).trans (if_pos ⟨hm, rfl⟩)
  | use i =>
    intro n hn
    rw [← hfree n hn]
    unfold record
    dsimp only
    split <;> rfl
  | node | bind | label | call | stray => exact hfree

end Site

namespace Sites

variable {t t' t₁ : Table} {s owner : ScopeId} {xs ys inner rest : Sites} {x : Site}

def ids (xs : Sites) : List Nat := xs.nodes.filterMap (·.mark.id)

def owners : Sites → List Node
  | .nil => []
  | .site x rest => x.owners ++ rest.owners
  | .hoist inner rest => inner.owners ++ rest.owners
  | .scope _ n inner rest => n :: (inner.owners ++ rest.owners)

@[simp] theorem ids_append (xs ys : Sites) : (xs ++ ys).ids = xs.ids ++ ys.ids := by
  simp only [ids, nodes_append, filterMap_append]

@[simp] theorem ids_site (x : Site) (rest : Sites) : (site x rest).ids = x.ids ++ rest.ids := by
  simp only [ids, Site.ids, nodes, filterMap_append]

@[simp] theorem ids_hoist (inner rest : Sites) :
    (hoist inner rest).ids = inner.ids ++ rest.ids := by
  simp only [ids, nodes, filterMap_append]

@[simp] theorem ids_scope (k : ScopeKind) (n : Node) (inner rest : Sites) :
    (scope k n inner rest).ids = n.mark.id.toList ++ (inner.ids ++ rest.ids) := by
  cases h : n.mark.id <;> simp [ids, nodes, h]

@[simp] theorem owners_append (xs ys : Sites) : (xs ++ ys).owners = xs.owners ++ ys.owners := by
  induction xs with
  | nil => rfl
  | site x rest ih => simp only [site_append, owners, ih, List.append_assoc]
  | hoist inner rest _ ih => simp only [hoist_append, owners, ih, List.append_assoc]
  | scope kind n inner rest _ ih =>
    simp only [scope_append, owners, ih, List.append_assoc, List.cons_append]

theorem mem_ids (hn : n ∈ xs.nodes) (hi : n.mark.id = some i) : i ∈ xs.ids :=
  mem_filterMap.2 ⟨n, hn, hi⟩

structure Distinct (xs : Sites) : Prop where
  nodup : xs.ids.Nodup
  owned : ∀ n ∈ xs.owners, n.mark.id.isSome

namespace Distinct

theorem append_iff : Distinct (xs ++ ys) ↔ Distinct xs ∧ Distinct ys ∧ xs.ids.Disjoint ys.ids := by
  constructor
  · rintro ⟨hn, ho⟩
    rw [ids_append, nodup_append'] at hn
    rw [owners_append, forall_mem_append] at ho
    exact ⟨⟨hn.1, ho.1⟩, ⟨hn.2.1, ho.2⟩, hn.2.2⟩
  · rintro ⟨⟨hn, ho⟩, ⟨hn', ho'⟩, hd⟩
    refine ⟨?_, ?_⟩
    · rw [ids_append, nodup_append']
      exact ⟨hn, hn', hd⟩
    · rw [owners_append, forall_mem_append]
      exact ⟨ho, ho'⟩

theorem site (h : Distinct (.site x rest)) :
    x.ids.Nodup ∧ (∀ n ∈ x.owners, n.mark.id.isSome) ∧ Distinct rest ∧
      x.ids.Disjoint rest.ids := by
  obtain ⟨hn, ho⟩ := h
  rw [ids_site, nodup_append'] at hn
  rw [owners, forall_mem_append] at ho
  exact ⟨hn.1, ho.1, ⟨hn.2.1, ho.2⟩, hn.2.2⟩

theorem hoist (h : Distinct (.hoist inner rest)) :
    Distinct inner ∧ Distinct rest ∧ inner.ids.Disjoint rest.ids := by
  obtain ⟨hn, ho⟩ := h
  rw [ids_hoist, nodup_append'] at hn
  rw [owners, forall_mem_append] at ho
  exact ⟨⟨hn.1, ho.1⟩, ⟨hn.2.1, ho.2⟩, hn.2.2⟩

theorem scope (h : Distinct (.scope k n inner rest)) :
    ∃ i, n.mark.id = some i ∧ i ∉ inner.ids ∧ i ∉ rest.ids ∧ Distinct inner ∧ Distinct rest ∧
      inner.ids.Disjoint rest.ids := by
  obtain ⟨hn, ho⟩ := h
  obtain ⟨i, hi⟩ := Option.isSome_iff_exists.1 (ho n (by simp [owners]))
  rw [ids_scope, hi] at hn
  simp only [Option.toList_some, singleton_append, nodup_cons, mem_append,
    not_or, nodup_append'] at hn
  simp only [owners, mem_cons, mem_append, forall_eq_or_imp] at ho
  exact ⟨i, hi, hn.1.1, hn.1.2, ⟨hn.2.1, fun m hm => ho.2 m (.inl hm)⟩,
    ⟨hn.2.2.1, fun m hm => ho.2 m (.inr hm)⟩, hn.2.2.2⟩

end Distinct

/-- The sites stand in scope `s` of the table: the nodes that open scopes own scopes that satisfy
`ok`, and the other sites are placed too. -/
def Placed (ok : ScopeId → Scope → Sites → Prop) (t : Table) (s : ScopeId) : Sites → Prop
  | .nil => True
  | .site x rest => x.Placed t s ∧ rest.Placed ok t s
  | .hoist inner rest => inner.Placed ok t s ∧ rest.Placed ok t s
  | .scope k n inner rest =>
    (∃ c sc, t.Opens s k n c sc ∧ ok c sc inner ∧ inner.Placed ok t c) ∧ rest.Placed ok t s

variable {ok ok' : ScopeId → Scope → Sites → Prop}

@[simp] theorem placed_append : (xs ++ ys).Placed ok t s ↔ xs.Placed ok t s ∧ ys.Placed ok t s := by
  induction xs with
  | nil => simp [Placed]
  | site x rest ih => simp only [site_append, Placed, ih, and_assoc]
  | hoist inner rest _ ih => simp only [hoist_append, Placed, ih, and_assoc]
  | scope kind n inner rest _ ih => simp only [scope_append, Placed, ih, and_assoc]

theorem Placed.imp (hok : ∀ c sc inner, ok c sc inner → ok' c sc inner) (h : xs.Placed ok t s) :
    xs.Placed ok' t s := by
  induction xs generalizing s with
  | nil => trivial
  | site x rest ih => exact ⟨h.1, ih h.2⟩
  | hoist inner rest ihi ih => exact ⟨ihi h.1, ih h.2⟩
  | scope k n inner rest ihi ih =>
    obtain ⟨⟨c, sc, hopen, hc, hin⟩, hrest⟩ := h
    exact ⟨⟨c, sc, hopen, hok _ _ _ hc, ihi hin⟩, ih hrest⟩

theorem Placed.frame (h : xs.Placed ok t s)
    (ho : ∀ n ∈ xs.nodes, t'.scopeOf? n.mark = t.scopeOf? n.mark)
    (hs : ∀ c sc inner i, t.OpenedBy c i → i ∈ xs.ids → ok c sc inner →
      t.scopes[c]? = some sc → t'.scopes[c]? = some sc) :
    xs.Placed ok t' s := by
  induction xs generalizing s with
  | nil => trivial
  | site x rest ih =>
    simp only [nodes, ids_site, mem_append] at ho hs
    exact ⟨h.1.frame fun n hn => ho n (.inl hn),
      ih h.2 (fun n hn => ho n (.inr hn)) fun c sc inner i ho hi => hs c sc inner i ho (.inr hi)⟩
  | hoist inner rest ihi ih =>
    simp only [nodes, ids_hoist, mem_append] at ho hs
    refine ⟨ihi h.1 (fun n hn => ho n (.inl hn)) ?_, ih h.2 (fun n hn => ho n (.inr hn)) ?_⟩
    · exact fun c sc inner i ho hi => hs c sc inner i ho (.inl hi)
    · exact fun c sc inner i ho hi => hs c sc inner i ho (.inr hi)
  | scope k n inner rest ihi ih =>
    simp only [nodes, ids_scope, mem_cons, mem_append] at ho hs
    obtain ⟨⟨c, sc, hopen, hc, hin⟩, hrest⟩ := h
    obtain ⟨i, hi⟩ := hopen.numbered
    refine ⟨⟨c, sc, ⟨?_, ?_, hopen.kind, hopen.node, hopen.parent⟩, hc, ?_⟩, ?_⟩
    · rw [ho n (.inl rfl), hopen.owner]
    · exact hs c sc inner i (hopen.openedBy hi) (.inl (by simp [hi])) hc hopen.scope
    · exact ihi hin (fun n hn => ho n (.inr (.inl hn)))
        fun c sc inner i ho hi => hs c sc inner i ho (.inr (.inl hi))
    · exact ih hrest (fun n hn => ho n (.inr (.inr hn)))
        fun c sc inner i ho hi => hs c sc inner i ho (.inr (.inr hi))

def Exact (sc : Scope) (inner : Sites) : Prop :=
  sc = { sc with declared := [] : Scope }.declareAll
    (inner.decls true (decide (sc.kind = .function)))

theorem Exact.of_empty (sc : Scope) (h : sc.declared = []) (inner : Sites) :
    Exact (sc.declareAll (inner.decls true (decide (sc.kind = .function)))) inner := by
  have hempty : ({ sc.declareAll (inner.decls true (decide (sc.kind = .function))) with
      declared := [] } : Scope) = sc := by
    cases sc
    simp_all
  rw [Exact, hempty, Scope.kind_declareAll]

theorem scopeOf?_record (xs : Sites) (owner s : ScopeId) (t : Table) (m : Mark)
    (h : ∀ i ∈ xs.ids, m.id ≠ some i) : (xs.record owner s t).scopeOf? m = t.scopeOf? m := by
  induction xs generalizing owner s t with
  | nil => rfl
  | site x rest ih =>
    rw [ids_site, forall_mem_append] at h
    exact (ih owner s _ h.2).trans (x.scopeOf?_record owner s t m h.1)
  | hoist inner rest ihi ih =>
    rw [ids_hoist, forall_mem_append] at h
    exact (ih owner s _ h.2).trans (ihi _ s t h.1)
  | scope k n inner rest ihi ih =>
    rw [ids_scope, forall_mem_append, forall_mem_append] at h
    refine (ih owner s _ h.2.2).trans ((ihi _ _ _ h.2.1).trans ?_)
    refine (Table.scopeOf?_bind _ n.mark m _).trans (if_neg ?_)
    rintro ⟨hsome, heq⟩
    obtain ⟨i, hi⟩ := Option.isSome_iff_exists.1 hsome
    exact h.1 i (by simp [hi]) (heq ▸ hi)

theorem Distinct.avoids (hd : xs.ids.Disjoint ys.ids) (hn : n ∈ xs.nodes) :
    ∀ i ∈ ys.ids, n.mark.id ≠ some i :=
  fun _ hi heq => hd (mem_ids hn heq) hi

theorem Placed.record (h : xs.Placed ok t r) (hlo : ∀ c sc inner, ok c sc inner → lo ≤ c)
    (ho : t.Ordered) (hs : t.Path s l) (hf : ∀ a ∈ l, a < lo) (hown : owner < lo)
    (hd : xs.ids.Disjoint ys.ids) : xs.Placed ok (ys.record owner s t) r := by
  refine h.frame (fun n hn => scopeOf?_record ys owner s t _ (Distinct.avoids hd hn)) ?_
  intro c sc inner n _ _ hc hsc
  have hlt := hs.lt_length s hs.mem_self
  have hle := hlo c sc inner hc
  have hne : c ≠ owner := fun heq => Nat.not_lt.2 hle (heq ▸ hown)
  have hnf : c ≠ t.functionScope s :=
    fun heq => Nat.not_lt.2 hle (heq ▸ hf _ (Table.functionScope_mem hs))
  have := (ys.record_grows owner s t ho hlt).scopes c sc hsc
  simpa [hne, hnf, decls_false_false] using this

theorem Placed.ofOpened (ho : t.Ordered) (hs : s < t.scopes.length) (hi : n.mark.id = some i)
    (hii : i ∉ inner.ids)
    (hin : inner.Placed (fun c sc inner => (t.opened s k n).scopes.length ≤ c ∧ Exact sc inner)
      (inner.record t.scopes.length t.scopes.length (t.opened s k n)) t.scopes.length) :
    (Sites.scope k n inner .nil).Placed (fun c sc inner => t.scopes.length ≤ c ∧ Exact sc inner)
      (inner.record t.scopes.length t.scopes.length (t.opened s k n)) s := by
  have hopen : t.Grows (t.opened s k n) _ := .opened hs k n
  have hnew : (t.opened s k n).scopes[t.scopes.length]? = some ⟨k, some n, some s, []⟩ := by
    rw [Table.scopes_opened, if_pos rfl]
  have hclt := (List.getElem?_eq_some_iff.1 hnew).1
  have hsc := (inner.record_grows t.scopes.length t.scopes.length _ (hopen.ordered ho) hclt).scopes
    _ _ hnew
  have hother : ∀ j ∈ inner.ids, n.mark.id ≠ some j :=
    fun j hj heq => hii (Option.some.inj (hi ▸ heq) ▸ hj)
  refine ⟨⟨_, _, ⟨?_, hsc, by simp, by simp, by simp⟩, ⟨Nat.le_refl _, ?_⟩, ?_⟩, trivial⟩
  · rw [scopeOf?_record inner _ _ _ _ hother, t.scopeOf?_opened s k n n.mark hi, if_pos hi]
  · rw [decide_eq_true rfl, Table.functionScope_opened ho hs k n]
    exact Exact.of_empty ⟨k, some n, some s, []⟩ rfl inner
  · exact hin.imp fun c sc inner hc => ⟨Nat.le_trans (Nat.le_of_lt hclt) hc.1, hc.2⟩

theorem record_placed (xs : Sites) (owner s : ScopeId) (t : Table) (ho : t.Ordered)
    (hs : s < t.scopes.length) (hown : owner < t.scopes.length) (hd : xs.Distinct)
    (hfree : ∀ n ∈ xs.nodes, t.scopeOf? n.mark = none) :
    xs.Placed (fun c sc inner => t.scopes.length ≤ c ∧ Exact sc inner) (xs.record owner s t) s := by
  induction xs generalizing owner s t with
  | nil => trivial
  | site x rest ih =>
    obtain ⟨-, hox, hdr, hdis⟩ := hd.site
    simp only [nodes, List.forall_mem_append] at hfree
    have hx := x.record_grows owner s t
    have hrest : rest.Placed _ _ s := ih owner s (x.record owner s t) (hx.ordered ho)
      (Nat.lt_of_lt_of_le hs hx.length_le) (Nat.lt_of_lt_of_le hown hx.length_le) hdr
      fun n hn => (x.scopeOf?_record owner s t n.mark
        fun _ hi heq => hdis hi (mem_ids hn heq)).trans (hfree.2 n hn)
    refine ⟨(x.record_placed owner s t hox hfree.1).frame fun n hn => ?_,
      hrest.imp fun c sc inner hc => ⟨Nat.le_trans hx.length_le hc.1, hc.2⟩⟩
    exact scopeOf?_record rest owner s _ _
      fun _ hi heq => hdis (List.mem_filterMap.2 ⟨n, hn, heq⟩) hi
  | hoist inner rest ihi ih =>
    obtain ⟨hdi, hdr, hdis⟩ := hd.hoist
    simp only [nodes, List.forall_mem_append] at hfree
    obtain ⟨l, hl⟩ := ho.rooted s _ (List.getElem?_eq_getElem hs)
    have hf := hl.lt_length _ (Table.functionScope_mem hl)
    have hx := inner.record_grows (t.functionScope s) s t ho hs
    have hin := ihi (t.functionScope s) s t ho hs hf hdi hfree.1
    have hrest := ih owner s (inner.record (t.functionScope s) s t) (hx.ordered ho)
      (Nat.lt_of_lt_of_le hs hx.length_le) (Nat.lt_of_lt_of_le hown hx.length_le) hdr
      fun n hn => (scopeOf?_record inner _ s t n.mark
        (Distinct.avoids (fun _ h h' => hdis h' h) hn)).trans (hfree.2 n hn)
    exact ⟨hin.record (fun _ _ _ hc => hc.1) (hx.ordered ho) (hx.path hl) hl.lt_length hown hdis,
      hrest.imp fun c sc inner hc => ⟨Nat.le_trans hx.length_le hc.1, hc.2⟩⟩
  | scope k n inner rest ihi ih =>
    obtain ⟨i, hi, hii, hir, hdi, hdr, hdis⟩ := hd.scope
    simp only [nodes, List.forall_mem_cons, List.forall_mem_append] at hfree
    obtain ⟨-, hfi, hfr⟩ := hfree
    have hopen : t.Grows (t.opened s k n) _ := .opened hs k n
    have hnew : (t.opened s k n).scopes[t.scopes.length]? = some ⟨k, some n, some s, []⟩ := by
      rw [Table.scopes_opened, if_pos rfl]
    have hclt := (List.getElem?_eq_some_iff.1 hnew).1
    obtain ⟨l, hl⟩ := ho.rooted s _ (List.getElem?_eq_getElem hs)
    have hfree₀ : ∀ m ∈ inner.nodes, (t.opened s k n).scopeOf? m.mark = none := fun m hm => by
      rw [t.scopeOf?_opened s k n m.mark hi, if_neg fun h => hii (mem_ids hm h), hfi m hm]
    have hin := ihi _ _ (t.opened s k n) (hopen.ordered ho) hclt hclt hdi hfree₀
    have hnode := hin.ofOpened ho hs hi hii
    have hxin := inner.record_grows t.scopes.length t.scopes.length _ (hopen.ordered ho) hclt
    have hx := hopen.trans hxin
    generalize ht₁ : inner.record t.scopes.length t.scopes.length (t.opened s k n) = t₁ at *
    have hdn : (Sites.scope k n inner .nil).ids.Disjoint rest.ids := by
      intro j hj hjr
      simp only [ids_scope, hi, Option.toList_some, List.singleton_append, List.mem_cons] at hj
      obtain rfl | hj := hj
      · exact hir hjr
      · simp only [ids, nodes, List.filterMap_nil, List.append_nil] at hj
        exact hdis hj hjr
    have hnode := hnode.record (fun _ _ _ hc => hc.1) (hx.ordered ho) (hx.path hl) hl.lt_length
      hown hdn
    have hrest := ih owner s t₁ (hx.ordered ho) (Nat.lt_of_lt_of_le hs hx.length_le)
      (Nat.lt_of_lt_of_le hown hx.length_le) hdr fun m hm => by
        rw [← ht₁, scopeOf?_record inner _ _ _ _ (Distinct.avoids (fun _ h h' => hdis h' h) hm),
          t.scopeOf?_opened s k n m.mark hi, if_neg fun h => hir (mem_ids hm h), hfr m hm]
    rw [record, ht₁]
    exact ⟨hnode.1, hrest.imp fun c sc inner hc => ⟨Nat.le_trans hx.length_le hc.1, hc.2⟩⟩

theorem mem_nodes_of_mem_owners (h : n ∈ xs.owners) : n ∈ xs.nodes := by
  induction xs with
  | nil => exact h
  | site x rest ih =>
    obtain h | h := mem_append.1 h
    · cases x with
      | share m => exact mem_append_left _ h
      | node | use | bind | label | call | stray => cases h
    · exact mem_append_right _ (ih h)
  | hoist inner rest ihi ih =>
    obtain h | h := mem_append.1 h
    · exact mem_append_left _ (ihi h)
    · exact mem_append_right _ (ih h)
  | scope k m inner rest ihi ih =>
    obtain rfl | h := mem_cons.1 h
    · exact mem_cons_self
    · obtain h | h := mem_append.1 h
      · exact mem_cons_of_mem _ (mem_append_left _ (ihi h))
      · exact mem_cons_of_mem _ (mem_append_right _ (ih h))

end Sites

namespace Program

variable {p : Program}

/-- No number of the program is given twice, and nodes that own scopes have one. -/
structure Distinct (p : Program) : Prop where
  owned : p.mark.id.isSome
  fresh : ∀ i ∈ p.sites.ids, p.mark.id ≠ some i
  sites : p.sites.Distinct

/-- How the table of a program stands to it: the program owns the outermost scope, which declares
`root`, and its sites are placed there. -/
structure Analysed (p : Program) (t : Table) : Prop where
  ordered : t.Ordered
  owner : t.scopeOf? p.mark = some Table.root
  root : ∃ sc, t.scopes[Table.root]? = some sc ∧ sc.kind = .program ∧
    sc.node = some ⟨.program, p.mark, []⟩ ∧ sc.parent = none ∧
    (∀ x, x ∈ sc.declared.map (·.name) ↔ x ∈ (p.sites.decls true true).map (·.name))
  placed : p.sites.Placed (fun _ sc inner => Sites.Exact sc inner) t Table.root

theorem scopeOf?_ofProgram (p : Program) (m : Mark) :
    (Table.ofProgram p).scopeOf? m =
      if p.mark.id.isSome ∧ p.mark.id = m.id then some Table.root else none := by
  cases hp : p.mark.id with
  | none => simp [Table.scopeOf?, Table.ofProgram, hp]
  | some i =>
    cases hm : m.id with
    | none => simp [Table.scopeOf?, hm]
    | some j =>
      by_cases hij : i = j
      · simp [Table.scopeOf?, Table.ofProgram, hp, hm, hij]
      · have hji : (j == i) = false := by simp [Ne.symm hij]
        simp [Table.scopeOf?, Table.ofProgram, hp, hm, hij, lookup_cons, hji]

theorem Distinct.analysed (h : p.Distinct) : p.Analysed p.analyze := by
  have hroot : (Table.ofProgram p).scopes[Table.root]? =
      some ⟨.program, some ⟨.program, p.mark, []⟩, none, []⟩ := rfl
  have ho : (Table.ofProgram p).Ordered := by
    intro x sc q hx hq
    cases x with
    | zero =>
      cases hroot.symm.trans hx
      cases hq
    | succ x => cases hx
  have hlt := (List.getElem?_eq_some_iff.1 hroot).1
  have hg := p.sites.record_grows Table.root Table.root _ ho hlt
  have hfree : ∀ n ∈ p.sites.nodes, (Table.ofProgram p).scopeOf? n.mark = none := by
    intro n hn
    rw [scopeOf?_ofProgram]
    refine if_neg fun ⟨hsome, heq⟩ => ?_
    obtain ⟨i, hi⟩ := Option.isSome_iff_exists.1 hsome
    exact h.fresh i (Sites.mem_ids hn (heq ▸ hi)) hi
  have hplaced := p.sites.record_placed Table.root Table.root _ ho hlt hlt h.sites hfree
  rw [analyze_eq]
  refine ⟨hg.ordered ho, ?_, ⟨_, hg.scopes _ _ hroot, by simp, by simp, by simp, fun x => ?_⟩,
    hplaced.imp fun _ _ _ hc => hc.2⟩
  · rw [Sites.scopeOf?_record _ _ _ _ _ h.fresh, scopeOf?_ofProgram, if_pos ⟨h.owned, rfl⟩]
  · rw [Scope.mem_names_declareAll, Table.functionScope_root hroot rfl]
    simp

theorem distinct_numbered (p : Program) : p.numbered.1.Distinct ∧
    (∃ i < p.numbered.2, p.numbered.1.mark.id = some i) ∧
    (∀ n ∈ p.numbered.1.sites.nodes, ∃ i < p.numbered.2, n.mark.id = some i) := by
  have hids := p.numbered_ids
  have hperm := (nodes_perm p.numbered.1).map (·.mark.id)
  rw [hids, map_cons] at hperm
  generalize p.numbered.1 = q at *
  have hmem : ∀ n ∈ q.sites.nodes, ∃ i < p.numbered.2, n.mark.id = some i := by
    intro n hn
    have := hperm.symm.subset (mem_cons_of_mem _ (mem_map_of_mem hn))
    obtain ⟨i, hi, heq⟩ := mem_map.1 this
    exact ⟨i, mem_range.1 hi, heq.symm⟩
  obtain ⟨i, hlt, hi⟩ := mem_map.1 (hperm.symm.subset mem_cons_self)
  have hi : q.mark.id = some i := hi.symm
  have hnodup : (i :: q.sites.ids).Nodup := by
    have hids : (range p.numbered.2).Perm (i :: q.sites.ids) := by
      simpa [hi, filterMap_map, Function.comp_def, Sites.ids] using hperm.filterMap id
    exact hids.nodup_iff.1 nodup_range
  obtain ⟨hfresh, hsites⟩ := nodup_cons.1 hnodup
  refine ⟨⟨by simp [hi], ?_, hsites, fun n hn => ?_⟩, ⟨i, mem_range.1 hlt, hi⟩, hmem⟩
  · rintro j hj heq
    cases hi.symm.trans heq
    exact hfresh hj
  · obtain ⟨j, -, hj⟩ := hmem n (Sites.mem_nodes_of_mem_owners hn)
    simp [hj]

end Program
end LabelHooks
