import LabelHooks.Scope.Table
import Mathlib.Data.List.Perm.Subperm

/-!
What each operation on a scope table does to its scopes and to the nodes that own them.
-/

namespace LabelHooks
set_option autoImplicit true

open List

namespace Scope

@[simp] theorem own?_declare (sc : Scope) (d : Declaration) (x : Text) :
    (sc.declare d).own? x = if d.name = x then some d else sc.own? x := by
  by_cases hx : d.name = x
  · subst hx
    have hnone : (sc.declared.filter (·.name ≠ d.name)).find? (·.name = d.name) = none := by
      simp [find?_eq_none]
    simp only [own?, declare, find?_append, hnone, if_pos]
    simp
  · simp only [own?, declare, find?_append, find?_filter, if_neg hx,
      find?_singleton, decide_eq_true_eq, Option.or_none]
    congr 1
    funext e
    grind

theorem mem_names_declare {sc : Scope} :
    x ∈ (sc.declare d).declared.map (·.name) ↔ x = d.name ∨ x ∈ sc.declared.map (·.name) := by
  simp only [declare, map_append, mem_append, mem_map, mem_filter,
    map_cons, map_nil, mem_singleton]
  grind

theorem isSome_own? {sc : Scope} : (sc.own? x).isSome ↔ x ∈ sc.declared.map (·.name) := by
  simp [own?, find?_isSome]

end Scope

namespace Table

@[simp] theorem scopes_update (t : Table) (s x : ScopeId) (f : Scope → Scope) :
    (t.update s f).scopes[x]? = (t.scopes[x]?).map fun sc => if s = x then f sc else sc := by
  simp only [update, getElem?_modify]
  rfl

@[simp] theorem length_update (t : Table) (s : ScopeId) (f : Scope → Scope) :
    (t.update s f).scopes.length = t.scopes.length := by
  simp [update]

@[simp] theorem scopeOf?_update (t : Table) (s : ScopeId) (f : Scope → Scope) (m : Mark) :
    (t.update s f).scopeOf? m = t.scopeOf? m := rfl

@[simp] theorem scopes_declare (t : Table) (s x : ScopeId) (name : Text) (kind : BindingKind)
    (i : Option Ident) :
    (t.declare s name kind i).scopes[x]? =
      (t.scopes[x]?).map fun sc => if s = x then sc.declare ⟨name, kind, i⟩ else sc :=
  scopes_update t s x _

@[simp] theorem scopeOf?_declare (t : Table) (s : ScopeId) (name : Text) (kind : BindingKind)
    (i : Option Ident) (m : Mark) : (t.declare s name kind i).scopeOf? m = t.scopeOf? m := rfl

@[simp] theorem scopes_removeKind (t : Table) (s x : ScopeId) (kind : BindingKind) :
    (t.removeKind s kind).scopes[x]? =
      (t.scopes[x]?).map fun sc => if s = x then sc.removeKind kind else sc :=
  scopes_update t s x _

@[simp] theorem scopeOf?_removeKind (t : Table) (s : ScopeId) (kind : BindingKind) (m : Mark) :
    (t.removeKind s kind).scopeOf? m = t.scopeOf? m := rfl

theorem scopes_child (t : Table) (s x : ScopeId) (kind : ScopeKind) (n : Option Node) :
    (t.child s kind n).2.scopes[x]? =
      if x = t.scopes.length then some ⟨kind, n, some s, []⟩ else t.scopes[x]? := by
  obtain h | rfl | h := Nat.lt_trichotomy x t.scopes.length
  · rw [if_neg (Nat.ne_of_lt h)]
    exact getElem?_append_left h
  · rw [if_pos rfl]
    exact getElem?_concat_length
  · rw [if_neg (Nat.ne_of_gt h), getElem?_eq_none (Nat.le_of_lt h)]
    exact getElem?_eq_none (by simp [child]; omega)

@[simp] theorem scopeOf?_child (t : Table) (s : ScopeId) (kind : ScopeKind) (n : Option Node)
    (m : Mark) : (t.child s kind n).2.scopeOf? m = t.scopeOf? m := rfl

@[simp] theorem scopes_bind (t : Table) (m : Mark) (s : ScopeId) :
    (t.bind m s).scopes = t.scopes := by
  unfold bind
  split <;> rfl

theorem lookup_disown (t : Table) (i j : Nat) :
    (t.disown i).owners.lookup j = if i = j then none else t.owners.lookup j := by
  simp only [disown]
  induction t.owners with
  | nil => simp
  | cons a l ih =>
    obtain ⟨k, s⟩ := a
    by_cases hk : k = i
    · rw [filter_cons_of_neg (by simp [hk]), ih, lookup_cons]
      by_cases hj : i = j
      · rw [if_pos hj, if_pos hj]
      · rw [if_neg hj, if_neg hj, beq_false_of_ne fun h => hj (h.trans hk).symm]
    · rw [filter_cons_of_pos (by simp [hk]), lookup_cons, lookup_cons, ih]
      by_cases hj : j = k
      · have hne : i ≠ j := fun h => hk (h.trans hj).symm
        rw [beq_iff_eq.2 hj, if_neg hne, if_neg hne]
      · rw [beq_false_of_ne hj]

theorem scopeOf?_bind (t : Table) (m m' : Mark) (s : ScopeId) :
    (t.bind m s).scopeOf? m' =
      if m.id.isSome ∧ m.id = m'.id then some s else t.scopeOf? m' := by
  unfold bind scopeOf?
  cases hm : m.id with
  | none => simp
  | some i =>
    cases hm' : m'.id with
    | none => simp
    | some j =>
      by_cases hij : i = j
      · simp [hij]
      · have hji : (j == i) = false := by simp [Ne.symm hij]
        simp [lookup_cons, hji, lookup_disown, hij]

theorem rebind_of_owned {t : Table} (h : t.scopeOf? old = some s) : (t.rebind old n).1 = some s ∧
    (∀ x, (t.rebind old n).2.scopes[x]? =
      (t.scopes[x]?).map fun sc => if s = x then { sc with node := some n } else sc) ∧
    (∀ m, (t.rebind old n).2.scopeOf? m = if n.mark.id.isSome ∧ n.mark.id = m.id then some s
      else if old.id = m.id then none else t.scopeOf? m) := by
  obtain ⟨i, hi, hs⟩ := Option.bind_eq_some_iff.1 h
  have hr : t.rebind old n =
      (some s, ((t.disown i).bind n.mark s).update s fun sc => { sc with node := some n }) := by
    unfold rebind
    split
    · next j s' hj hs' =>
      rw [hi] at hj
      rw [h] at hs'
      cases hj
      cases hs'
      rfl
    · next hne => exact absurd h (hne i s hi)
  rw [hr]
  refine ⟨rfl, fun x => ?_, fun m => ?_⟩
  · rw [scopes_update, scopes_bind]
    rfl
  · rw [scopeOf?_update, scopeOf?_bind]
    congr 1
    cases hm : m.id with
    | none => simp [scopeOf?, hm, hi]
    | some j => simp [scopeOf?, hm, lookup_disown, hi]

theorem mem_put : x ∈ put l y ↔ x ∈ l ∨ x = y := by
  unfold put
  split
  · next h =>
    have := contains_iff_mem.1 h
    grind
  · simp

/-- The names that were referenced, used as labels or declared are those of another table. -/
structure SameLists (t t' : Table) : Prop where
  references : t'.references = t.references
  labels : t'.labels = t.labels
  declared : t'.declared = t.declared

namespace SameLists

theorem refl (t : Table) : SameLists t t := ⟨rfl, rfl, rfl⟩

theorem trans (h : SameLists t₁ t₂) (h' : SameLists t₂ t₃) : SameLists t₁ t₃ :=
  ⟨h'.references.trans h.references, h'.labels.trans h.labels, h'.declared.trans h.declared⟩

theorem bind (t : Table) (m : Mark) (s : ScopeId) : SameLists t (t.bind m s) := by
  unfold Table.bind
  split <;> exact ⟨rfl, rfl, rfl⟩

theorem rebind (t : Table) (old : Mark) (n : Node) : SameLists t (t.rebind old n).2 := by
  unfold Table.rebind
  split
  · next i s _ _ =>
    have hbind := bind (t.disown i) n.mark s
    exact ⟨hbind.references, hbind.labels, hbind.declared⟩
  · exact refl t

theorem reparent (t : Table) (parts : List Outline) (source target : ScopeId) :
    SameLists t (t.reparent parts source target) := by
  unfold Table.reparent
  generalize t.outermost parts = cs
  induction cs generalizing t with
  | nil => exact refl t
  | cons c cs ih =>
    rw [foldl_cons]
    refine trans ?_ (ih _)
    exact ⟨rfl, rfl, rfl⟩

end SameLists

/-- A scope in the list that is a child of `source` becomes a child of `target`. -/
def moved (cs : List ScopeId) (source target x : ScopeId) (sc : Scope) : Scope :=
  if x ∈ cs ∧ sc.parent = some source then { sc with parent := some target } else sc

theorem scopes_reparent (t : Table) (parts : List Outline) (source target x : ScopeId) :
    (t.reparent parts source target).scopes[x]? =
      (t.scopes[x]?).map (moved (t.outermost parts) source target x) := by
  unfold reparent
  generalize t.outermost parts = cs
  induction cs generalizing t with
  | nil =>
    have hid : moved [] source target x = id := by
      funext sc
      simp [moved]
    simp [hid]
  | cons c cs ih =>
    rw [foldl_cons, ih, scopes_update, Option.map_map]
    congr 1
    funext sc
    simp only [Function.comp, moved, mem_cons]
    grind

@[simp] theorem scopeOf?_reparent (t : Table) (parts : List Outline) (source target : ScopeId)
    (m : Mark) : (t.reparent parts source target).scopeOf? m = t.scopeOf? m := by
  unfold reparent
  generalize t.outermost parts = cs
  induction cs generalizing t with
  | nil => rfl
  | cons c cs ih => rw [foldl_cons, ih, scopeOf?_update]

inductive Path (t : Table) : ScopeId → List ScopeId → Prop
  | root {s : ScopeId} {sc : Scope} (h : t.scopes[s]? = some sc) (hp : sc.parent = none) :
    Path t s [s]
  | child {s p : ScopeId} {sc : Scope} {l : List ScopeId} (h : t.scopes[s]? = some sc)
    (hp : sc.parent = some p) (hl : Path t p l) : Path t s (s :: l)

namespace Path

theorem unique (h : Path t s l) (h' : Path t s l') : l = l' := by
  induction h generalizing l' with
  | root hs hp => cases h' with
    | root hs' hp' => rfl
    | child hs' hp' hl' => grind
  | child hs hp hl ih => cases h' with
    | root hs' hp' => grind
    | child hs' hp' hl' =>
      rw [hs] at hs'
      cases hs'
      rw [hp] at hp'
      cases hp'
      rw [ih hl']

theorem of_mem (h : Path t s l) (ha : a ∈ l) : ∃ l', Path t a l' ∧ l' <:+ l := by
  induction h with
  | root hs hp =>
    obtain rfl := mem_singleton.1 ha
    exact ⟨_, .root hs hp, suffix_rfl⟩
  | child hs hp hl ih =>
    obtain rfl | ha := mem_cons.1 ha
    · exact ⟨_, .child hs hp hl, suffix_rfl⟩
    · obtain ⟨l', hl', hsuf⟩ := ih ha
      exact ⟨l', hl', hsuf.trans (suffix_cons _ _)⟩

theorem nodup (h : Path t s l) : l.Nodup := by
  induction h with
  | root hs hp => simp
  | child hs hp hl ih =>
    refine nodup_cons.2 ⟨fun ha => ?_, ih⟩
    -- a scope among its own ancestors would have a way shorter than its way
    obtain ⟨l', hl', hsuf⟩ := hl.of_mem ha
    have heq := hl'.unique (.child hs hp hl)
    have hlen := hsuf.length_le
    rw [heq, length_cons] at hlen
    omega

theorem lt_length (h : Path t s l) : ∀ a ∈ l, a < t.scopes.length := by
  induction h with
  | root hs hp =>
    intro a ha
    obtain rfl := mem_singleton.1 ha
    exact (List.getElem?_eq_some_iff.1 hs).1
  | child hs hp hl ih =>
    intro a ha
    obtain rfl | ha := mem_cons.1 ha
    · exact (List.getElem?_eq_some_iff.1 hs).1
    · exact ih a ha

theorem length_le (h : Path t s l) : l.length ≤ t.scopes.length := by
  have hsub : l ⊆ range t.scopes.length := fun a ha => mem_range.2 (h.lt_length a ha)
  have := (subperm_of_subset h.nodup hsub).length_le
  rwa [length_range] at this

theorem chainFrom_eq (h : Path t s l) (hf : l.length ≤ fuel) : t.chainFrom fuel s = l := by
  induction h generalizing fuel with
  | root hs hp =>
    obtain ⟨fuel, rfl⟩ := Nat.exists_eq_succ_of_ne_zero (n := fuel) (by simp at hf; omega)
    simp [chainFrom, parent?, hs, hp]
  | child hs hp hl ih =>
    obtain ⟨fuel, rfl⟩ := Nat.exists_eq_succ_of_ne_zero (n := fuel) (by simp at hf; omega)
    simp only [chainFrom, parent?, hs, hp, Option.bind_some]
    rw [ih (by simpa using hf)]

theorem chain_eq (h : Path t s l) : t.chain s = l := h.chainFrom_eq h.length_le

theorem mem_self (h : Path t s l) : s ∈ l := by
  cases h <;> simp

end Path

def Rooted (t : Table) : Prop := ∀ s sc, t.scopes[s]? = some sc → ∃ l, t.Path s l

def along (t : Table) (x : Text) (l : List ScopeId) : Option (ScopeId × Declaration) :=
  l.findSome? fun c => (t.own? c x).map (c, ·)

section Along

variable {t t' : Table} {c : ScopeId} {x : Text} {d : Declaration}

theorem along_cons_some (h : t.own? c x = some d) (l : List ScopeId) :
    t.along x (c :: l) = some (c, d) := by
  rw [along, findSome?_cons, h, Option.map_some]

theorem along_cons_none (h : t.own? c x = none) (l : List ScopeId) :
    t.along x (c :: l) = t.along x l := by
  rw [along, findSome?_cons, h, Option.map_none, along]

theorem along_cons (hc : t'.own? c x = t.own? c x) (hl : t'.along x l' = t.along x l) :
    t'.along x (c :: l') = t.along x (c :: l) := by
  cases hown : t.own? c x with
  | none => rw [along_cons_none hown, along_cons_none (hc.trans hown), hl]
  | some d => rw [along_cons_some hown, along_cons_some (hc.trans hown)]

theorem along_congr (h : ∀ a ∈ l, t'.own? a x = t.own? a x) : t'.along x l = t.along x l := by
  induction l with
  | nil => rfl
  | cons a l ih =>
    obtain ⟨ha, hl⟩ := forall_mem_cons.1 h
    exact along_cons ha (ih hl)

theorem along_append (t : Table) (x : Text) (l₁ l₂ : List ScopeId) :
    t.along x (l₁ ++ l₂) = (t.along x l₁).or (t.along x l₂) :=
  findSome?_append

theorem along_append_of_none (h : ∀ a ∈ l₁, t.own? a x = none) (l₂ : List ScopeId) :
    t.along x (l₁ ++ l₂) = t.along x l₂ := by
  induction l₁ with
  | nil => rfl
  | cons a l ih =>
    obtain ⟨ha, hl⟩ := forall_mem_cons.1 h
    rw [cons_append, along_cons_none ha, ih hl]

end Along

theorem lookup?_of_path (h : Path t s l) (x : Text) : t.lookup? s x = t.along x l := by
  rw [lookup?, h.chain_eq, along]

theorem encloses_iff (h : Path t s l) : t.encloses a s = true ↔ a ∈ l := by
  rw [encloses, h.chain_eq, contains_iff_mem]

end Table
end LabelHooks
