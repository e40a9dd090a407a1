import LabelHooks.Proofs.Registration
import Mathlib.Data.List.Induction

/-!
Which state a name refers to is decided by lexical scoping: the search through the whole registry,
by depth and order of declaration, with the test for shadowing after it, comes to the same as one
walk outward that stops at the first scope with a state or an ordinary declaration of the name.
-/

namespace LabelHooks
set_option autoImplicit true

open List

namespace Registry

variable {r : Registry} {t : Table} {name : Text} {s use : ScopeId} {a b : Reactive}
  {l : List ScopeId} {res : Option Reactive}

def latest? (r : Registry) (name : Text) (s : ScopeId) : Option Reactive :=
  (r.filter fun b => b.name = name && b.scope = s).getLast?

def shadows (t : Table) (name : Text) (s : ScopeId) : Bool :=
  (t.own? s name).any (·.kind.isOrdinary)

/-- What a walk outward from a scope finds. A state in the scope itself comes before an ordinary
declaration there. -/
inductive Nearest (r : Registry) (t : Table) (name : Text) : ScopeId → Option Reactive → Prop
  | state {s : ScopeId} {b : Reactive} (hb : r.latest? name s = some b) :
    Nearest r t name s (some b)
  | shadowed {s : ScopeId} (hb : r.latest? name s = none) (hs : shadows t name s = true) :
    Nearest r t name s none
  | root {s : ScopeId} {sc : Scope} (hb : r.latest? name s = none)
    (hs : shadows t name s = false) (h : t.scopes[s]? = some sc) (hp : sc.parent = none) :
    Nearest r t name s none
  | outward {s p : ScopeId} {sc : Scope} {res : Option Reactive} (hb : r.latest? name s = none)
    (hs : shadows t name s = false) (h : t.scopes[s]? = some sc) (hp : sc.parent = some p)
    (hn : Nearest r t name p res) : Nearest r t name s res

theorem latest?_concat (r : Registry) (a : Reactive) (name : Text) (s : ScopeId) :
    latest? (r ++ [a]) name s =
      if a.name = name ∧ a.scope = s then some a else r.latest? name s := by
  unfold latest?
  rw [filter_append]
  by_cases ha : a.name = name ∧ a.scope = s
  · rw [if_pos ha, filter_cons_of_pos (by simp [ha]), filter_nil,
      getLast?_concat]
  · rw [if_neg ha, filter_cons_of_neg (by simpa using ha), filter_nil,
      append_nil]

theorem latest?_eq_some (h : r.latest? name s = some b) :
    b ∈ r ∧ b.name = name ∧ b.scope = s := by
  simpa using mem_of_getLast? h

theorem latest?_ne_none (hb : b ∈ r) (hname : b.name = name) (hs : b.scope = s) :
    r.latest? name s ≠ none := by
  intro h
  have hmem : b ∈ r.filter fun b => b.name = name && b.scope = s := by
    simp [hb, hname, hs]
  rw [getLast?_eq_none_iff.1 h] at hmem
  cases hmem

theorem findSome?_latest? (h : l.findSome? (r.latest? name) = some b) :
    b ∈ r ∧ b.name = name ∧ b.scope ∈ l := by
  obtain ⟨s, hs, hb⟩ := exists_of_findSome?_eq_some h
  obtain ⟨hmem, hname, rfl⟩ := latest?_eq_some hb
  exact ⟨hmem, hname, hs⟩

theorem findSome?_concat_of_not (h : ¬ (a.name = name ∧ a.scope ∈ l)) :
    l.findSome? (latest? (r ++ [a]) name) = l.findSome? (r.latest? name) := by
  induction l with
  | nil => rfl
  | cons s l ih =>
    have hs : ¬ (a.name = name ∧ a.scope = s) := by
      rintro ⟨hname, rfl⟩
      exact h ⟨hname, mem_cons_self⟩
    have hl : ¬ (a.name = name ∧ a.scope ∈ l) := fun hin => h ⟨hin.1, .tail _ hin.2⟩
    rw [findSome?_cons, findSome?_cons, latest?_concat, if_neg hs, ih hl]

theorem lookup?_eq_findSome? (r : Registry) (h : t.Path use l) (name : Text) :
    r.lookup? t name use = l.findSome? (r.latest? name) := by
  -- the search goes through the registry from its start, so states are added at its end
  induction r using reverseRecOn with
  | nil =>
    have hnone : l.findSome? (latest? [] name) = none := by
      simp [findSome?_eq_none_iff, latest?]
    rw [hnone]
    rfl
  | append_singleton r a ih =>
    have hstep : lookup? (r ++ [a]) t name use = better t name use (lookup? r t name use) a := by
      rw [lookup?, lookup?, foldl_append, foldl_cons, foldl_nil]
    rw [hstep, ih]
    unfold better
    by_cases ha : a.name = name ∧ a.scope ∈ l
    · obtain ⟨hname, hmem⟩ := ha
      rw [if_pos (by simp [hname, (Table.encloses_iff h).2 hmem])]
      obtain ⟨l₁, l₂, rfl⟩ := append_of_mem hmem
      have hnodup := h.nodup
      have hbefore : a.scope ∉ l₁ := by
        intro hin
        exact (nodup_append.1 hnodup).2.2 _ hin _ mem_cons_self rfl
      have hsame : l₁.findSome? (latest? (r ++ [a]) name) = l₁.findSome? (latest? r name) :=
        findSome?_concat_of_not fun hin => hbefore hin.2
      have hhere : latest? (r ++ [a]) name a.scope = some a := by
        rw [latest?_concat, if_pos ⟨hname, rfl⟩]
      rw [findSome?_append, findSome?_append, findSome?_cons,
        findSome?_cons, hsame, hhere]
      cases hinner : l₁.findSome? (latest? r name) with
      | some c =>
        -- a state further inside stays
        obtain ⟨-, -, hc⟩ := findSome?_latest? hinner
        obtain ⟨k₁, k₂, rfl⟩ := append_of_mem hc
        rw [append_assoc, cons_append] at h
        have hdeeper : t.depth a.scope < t.depth c.scope := h.depth_lt (by simp)
        simp only [Option.some_or]
        rw [if_neg (Nat.not_le.2 hdeeper)]
      | none =>
        simp only [Option.none_or]
        cases hhere' : latest? r name a.scope with
        | some c =>
          obtain ⟨-, -, hscope⟩ := latest?_eq_some hhere'
          simp [hscope]
        | none =>
          cases houter : l₂.findSome? (latest? r name) with
          | none => rfl
          | some c =>
            obtain ⟨-, -, hc⟩ := findSome?_latest? houter
            simp [Nat.le_of_lt (h.depth_lt hc)]
    · have hnot : ¬ (a.name = name && t.encloses a.scope use) = true := by
        simpa [Table.encloses_iff h] using ha
      rw [if_neg hnot, findSome?_concat_of_not ha]

theorem reaches_cons (hs : b.scope ≠ s) (l : List ScopeId) :
    reaches t b (s :: l) = (!shadows t b.name s && reaches t b l) := by
  rw [reaches, if_neg hs.symm, ← shadows]
  cases shadows t b.name s <;> rfl

/-- One step of the walk: with no state in the scope, an ordinary declaration hides what is
further out. -/
theorem filter_reaches_cons (hb : r.latest? name s = none) (l : List ScopeId) :
    ((s :: l).findSome? (r.latest? name)).filter (reaches t · (s :: l)) =
      if shadows t name s then none
      else (l.findSome? (r.latest? name)).filter (reaches t · l) := by
  rw [findSome?_cons, hb]
  cases hfound : l.findSome? (r.latest? name) with
  | none => simp
  | some b =>
    obtain ⟨hmem, hname, -⟩ := findSome?_latest? hfound
    have hs : b.scope ≠ s := fun hs => latest?_ne_none hmem hname hs hb
    rw [Option.filter_some, reaches_cons hs, hname, Option.filter_some]
    cases shadows t name s <;> simp

theorem nearest_of_path (r : Registry) (h : t.Path s l) (name : Text) :
    r.Nearest t name s ((l.findSome? (r.latest? name)).filter (reaches t · l)) := by
  induction h with
  | @root s sc hsc hp =>
    cases hb : r.latest? name s with
    | some b =>
      obtain ⟨-, -, rfl⟩ := latest?_eq_some hb
      rw [findSome?_cons, hb, Option.filter_some, if_pos (by simp [reaches])]
      exact .state hb
    | none =>
      rw [filter_reaches_cons hb]
      cases hs : shadows t name s with
      | true => exact .shadowed hb hs
      | false => exact .root hb hs hsc hp
  | @child s p sc l hsc hp hl ih =>
    cases hb : r.latest? name s with
    | some b =>
      obtain ⟨-, -, rfl⟩ := latest?_eq_some hb
      rw [findSome?_cons, hb, Option.filter_some, if_pos (by simp [reaches])]
      exact .state hb
    | none =>
      rw [filter_reaches_cons hb]
      cases hs : shadows t name s with
      | true => exact .shadowed hb hs
      | false => exact .outward hb hs hsc hp ih

theorem Nearest.unique (h : r.Nearest t name s res) (h' : r.Nearest t name s res') :
    res = res' := by
  induction h generalizing res' with
  | state hb => cases h' <;> simp_all
  | shadowed hb hs => cases h' <;> simp_all
  | root hb hs hsc hp => cases h' <;> simp_all
  | outward hb hs hsc hp hn ih =>
    cases h' with
    | state hb' => simp_all
    | shadowed hb' hs' => simp_all
    | root hb' hs' hsc' hp' => simp_all
    | outward hb' hs' hsc' hp' hn' =>
      rw [hsc] at hsc'
      cases hsc'
      rw [hp] at hp'
      cases hp'
      exact ih hn'

theorem nearest_reactive? (r : Registry) (h : t.Path use l) (name : Text) :
    r.Nearest t name use (r.reactive? t name use) := by
  have hwalk := nearest_of_path r h name
  rw [← lookup?_eq_findSome? r h] at hwalk
  have hresolves : resolves t use = (reaches t · l) := by
    funext b
    rw [resolves, h.chain_eq]
  rw [reactive?, hresolves]
  exact hwalk

/-- In a table whose scopes all have a way to the outside, a use of a name refers to what the walk
outward from its scope finds. -/
theorem refers_iff_nearest (ht : t.Rooted) (hs : use < t.scopes.length) (r : Registry)
    (name : Text) (res : Option Reactive) :
    r.reactive? t name use = res ↔ r.Nearest t name use res := by
  obtain ⟨l, hl⟩ := ht use _ (List.getElem?_eq_getElem hs)
  have hnearest := nearest_reactive? r hl name
  constructor
  · rintro rfl
    exact hnearest
  · exact hnearest.unique

/-- A block sees the later of two states of the function around it, past a modifier of that name
and not the state of the program; a block with a variable of that name sees none. -/
theorem refers_iff_nearest_ties : ∃ (t : Table) (r : Registry) (a b c : Reactive),
    t.Rooted ∧ r = [a, b, c] ∧ a.scope = 1 ∧ b.scope = 1 ∧ c.scope = 0 ∧
      a.name = "x" ∧ b.name = "x" ∧ c.name = "x" ∧
      t.parent? 2 = some 1 ∧ t.parent? 3 = some 2 ∧ shadows t "x" 2 = false ∧
      r.Nearest t "x" 2 (some b) ∧ r.Nearest t "x" 3 none := by
  let ident (x : Text) (line : Int) : Ident := .ofName x ⟨⟨line, 1, 0⟩, ⟨line, 1, 0⟩⟩
  let t : Table :=
    { scopes := [⟨.program, none, none, [⟨"x", .reactive, none⟩]⟩,
        ⟨.function, none, some 0, [⟨"x", .reactive, none⟩]⟩,
        ⟨.block, none, some 1, [⟨"x", .generated, none⟩]⟩,
        ⟨.block, none, some 2, [⟨"x", .let_, none⟩]⟩]
      owners := [], references := [], labels := [], declared := ["x"] }
  let r : Registry := [⟨ident "x" 1, ident "_setX" 1, 1⟩, ⟨ident "x" 2, ident "_setX2" 2, 1⟩,
    ⟨ident "x" 3, ident "_setX3" 3, 0⟩]
  have ht : t.Rooted := by
    have h₀ : t.Path 0 [0] := .root rfl rfl
    have h₁ : t.Path 1 [1, 0] := .child rfl rfl h₀
    have h₂ : t.Path 2 [2, 1, 0] := .child rfl rfl h₁
    have h₃ : t.Path 3 [3, 2, 1, 0] := .child rfl rfl h₂
    intro s sc hs
    have hlt : s < 4 := (List.getElem?_eq_some_iff.1 hs).1
    match s, hlt with
    | 0, _ => exact ⟨_, h₀⟩
    | 1, _ => exact ⟨_, h₁⟩
    | 2, _ => exact ⟨_, h₂⟩
    | 3, _ => exact ⟨_, h₃⟩
  exact ⟨t, r, _, _, _, ht, rfl, rfl, rfl, rfl, rfl, rfl, rfl, rfl, rfl, rfl,
    (refers_iff_nearest ht (by decide) r _ _).1 rfl,
    (refers_iff_nearest ht (by decide) r _ _).1 rfl⟩

end Registry
end LabelHooks
