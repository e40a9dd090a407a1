import LabelHooks.Proofs.Edits
import Mathlib.Data.List.Perm.Subperm

/-!
Names of modifiers: the name that is given out is one that no table or earlier modifier knows.
-/

namespace LabelHooks
set_option autoImplicit true

namespace Text

theorem ofNat_ne_nil (n : Nat) : ofNat n ≠ [] := by
  simp [ofNat, Nat.toDigits_ne_nil]

theorem map_ofNat (n : Nat) : (ofNat n).map (fun b => Char.ofNat b.toNat) = Nat.toDigits 10 n := by
  rw [ofNat, List.map_map]
  refine (List.map_congr_left fun c hc => ?_).trans (List.map_id _)
  have hdigit := Nat.isDigit_of_mem_toDigits (by decide) (by decide) hc
  have hlt : c.toNat < 256 := by
    simp only [Char.isDigit, Bool.and_eq_true, decide_eq_true_eq, UInt32.le_iff_toNat_le] at hdigit
    have : c.toNat ≤ 57 := hdigit.2
    omega
  have hbyte : c.toUInt8.toNat = c.toNat := by
    have : c.toUInt8.toNat = c.toNat % 2 ^ 8 := UInt32.toNat_toUInt8 c.val
    omega
  simp [hbyte]

theorem ofNat_injective : Function.Injective ofNat := by
  intro i j h
  have hdigits : Nat.toDigits 10 i = Nat.toDigits 10 j := by
    rw [← map_ofNat, ← map_ofNat, h]
  rw [← Nat.ofDigitChars_ten_toDigits (n := i), hdigits, Nat.ofDigitChars_ten_toDigits]

end Text

namespace Table

variable {t t' : Table} {s x : ScopeId} {y : Text}

theorem own?_declare (t : Table) (s : ScopeId) (name : Text) (k : BindingKind) (i : Option Ident)
    (x : ScopeId) (y : Text) :
    (t.declare s name k i).own? x y =
      if s = x ∧ name = y ∧ x < t.scopes.length then some ⟨name, k, i⟩ else t.own? x y := by
  unfold own?
  rw [scopes_declare]
  by_cases hx : x < t.scopes.length
  · rw [List.getElem?_eq_getElem hx]
    by_cases hs : s = x <;> by_cases hn : name = y <;> simp [hs, hn, hx]
  · rw [List.getElem?_eq_none (Nat.not_lt.1 hx)]
    simp [hx]

@[simp] theorem own?_bind (t : Table) (m : Mark) (s x : ScopeId) (y : Text) :
    (t.bind m s).own? x y = t.own? x y := by
  unfold own?
  rw [scopes_bind]

theorem own?_removeKind {sc : Scope} (h : sc.own? y = some d) (hk : d.kind ≠ k) :
    (sc.removeKind k).own? y = some d := by
  unfold Scope.own? Scope.removeKind at *
  rw [List.find?_filter]
  obtain ⟨hd, as, bs, heq, hnone⟩ := List.find?_eq_some_iff_append.1 h
  exact List.find?_eq_some_iff_append.2 ⟨by simp [hk, of_decide_eq_true hd], as, bs, heq,
    fun a ha => by
      have hne : a.name ≠ y := by simpa using hnone a ha
      simp [hne]⟩

theorem own?_of_removeKind {sc : Scope} (h : (sc.removeKind k).own? y = some d) :
    (sc.own? y).isSome := by
  have hmem : d ∈ sc.declared := (List.mem_filter.1 (List.mem_of_find?_eq_some h)).1
  have hname : d.name = y := by simpa using List.find?_some h
  exact Scope.isSome_own?.2 (hname ▸ List.mem_map_of_mem hmem)

theorem own?_watched (ho : t.scopeOf? old = some c) (h : t.own? x y = some d)
    (hk : d.kind ≠ .param) : (t.watched old m c).own? x y = some d := by
  obtain ⟨sc, hsc, hown⟩ := Option.bind_eq_some_iff.1 h
  rw [own?, scopes_watched ho, hsc, Option.map_some, Option.bind_some]
  split
  · exact own?_removeKind hown hk
  · exact hown

theorem own?_of_watched (ho : t.scopeOf? old = some c) (h : (t.watched old m c).own? x y = some d) :
    (t.own? x y).isSome := by
  obtain ⟨sc, hsc, hown⟩ := Option.bind_eq_some_iff.1 h
  rw [scopes_watched ho] at hsc
  obtain ⟨sc', hsc', rfl⟩ := Option.map_eq_some_iff.1 hsc
  rw [own?, hsc', Option.bind_some]
  split at hown
  · exact own?_of_removeKind hown
  · simp [hown]

theorem Wraps.own? (h : t.Wraps t' m q s xs cs) (x : ScopeId) (y : Text) :
    t'.own? x y = if x = t.scopes.length then
      (if q.name = y then some ⟨q.name, .param, some q⟩ else none) else t.own? x y := by
  unfold Table.own?
  rw [h.scopes]
  split
  · simp only [callbackScope, Option.bind_some, Scope.own?, List.find?_singleton]
    split <;> simp_all
  · cases hx : t.scopes[x]? with
    | none => rfl
    | some sc =>
      simp only [Option.map_some, Option.bind_some, moved]
      split <;> rfl

end Table

namespace Table

variable {t t' : Table} {x : Text}

def Knows (t : Table) (x : Text) : Prop := x ∈ t.references ∨ x ∈ t.labels ∨ x ∈ t.declared

theorem SameLists.knows (h : SameLists t t') (hx : t.Knows x) : t'.Knows x := by
  rw [Knows, h.references, h.labels, h.declared]
  exact hx

theorem Knows.put (h : t.Knows x) (y : Text) :
    Knows { t with declared := Table.put t.declared y } x :=
  h.imp_right (Or.imp_right fun h => mem_put.2 (.inl h))

theorem Knows.declare (h : t.Knows x) (s : ScopeId) (name : Text) (k : BindingKind)
    (i : Option Ident) : (t.declare s name k i).Knows x := h.put name

def Listed (t : Table) : Prop := ∀ s x d, t.own? s x = some d → x ∈ t.declared

theorem Listed.declare (h : t.Listed) (s : ScopeId) (name : Text) (k : BindingKind)
    (i : Option Ident) : (t.declare s name k i).Listed := by
  intro c x d hd
  refine mem_put.2 ?_
  rw [own?_declare] at hd
  split at hd
  · next hx => exact .inr hx.2.1.symm
  · exact .inl (h c x d hd)

end Table

namespace Modifier

variable {taken : List Text} {t : Table} {s : ScopeId} {name x : Text}

theorem candidate_inj {stem : Text} (hi : 1 ≤ i) (hj : 1 ≤ j)
    (h : candidate stem i = candidate stem j) : i = j := by
  simp only [candidate, List.cons_append, List.cons.injEq, true_and,
    List.append_cancel_left_eq] at h
  split at h <;> split at h
  · exact Text.ofNat_injective h
  · exact absurd h (Text.ofNat_ne_nil i)
  · exact absurd h.symm (Text.ofNat_ne_nil j)
  · omega

def knownNames (taken : List Text) (t : Table) : List Text :=
  taken ++ t.declared ++ t.references ++ t.labels ++ t.scopes.flatMap (·.declared.map (·.name))

theorem length_knownNames : (knownNames taken t).length = known taken t := by
  have hsum : ∀ l : List Scope, (l.flatMap (·.declared.map (·.name))).length =
      l.foldr (fun s n => s.declared.length + n) 0 := by
    intro l
    induction l with
    | nil => rfl
    | cons sc l ih => simp [ih]
  simp only [knownNames, known, List.length_append, hsum]

theorem mem_knownNames (h : isUsed taken t s x = true) : x ∈ knownNames taken t := by
  simp only [isUsed, Bool.or_eq_true, List.contains_iff_mem, Table.isDeclared, Table.hasReference,
    Table.hasLabel] at h
  simp only [knownNames, List.mem_append, List.mem_flatMap]
  obtain (((h | h) | h) | h) | h := h
  · exact .inl (.inl (.inl (.inl h)))
  · right
    obtain ⟨⟨c, d⟩, hd⟩ := Option.isSome_iff_exists.1 h
    obtain ⟨a, -, ha⟩ := List.exists_of_findSome?_eq_some hd
    obtain ⟨e, he, -⟩ := Option.map_eq_some_iff.1 ha
    obtain ⟨sc, hsc, hown⟩ := Option.bind_eq_some_iff.1 he
    exact ⟨sc, List.mem_of_getElem? hsc, Scope.isSome_own?.1 (by simp [hown])⟩
  · exact .inl (.inl (.inl (.inr h)))
  · exact .inl (.inl (.inr h))
  · exact .inl (.inr h)

/-- The first candidate that nothing uses: more candidates than known names cannot all be used. -/
theorem fresh_first (taken : List Text) (t : Table) (s : ScopeId) (name : Text) :
    ∃ i, 1 ≤ i ∧ fresh taken t s name = candidate (stemFor name) i ∧
      isUsed taken t s (candidate (stemFor name) i) = false ∧
      ∀ j, 1 ≤ j → j < i → isUsed taken t s (candidate (stemFor name) j) = true := by
  let free := fun i => !isUsed taken t s (candidate (stemFor name) i)
  have hfree : ∃ i ∈ List.range' 1 (known taken t + 1), free i = true := by
    by_contra hall
    have hsub : (List.range' 1 (known taken t + 1)).map (candidate (stemFor name)) ⊆
        knownNames taken t := by
      intro c hc
      obtain ⟨i, hi, rfl⟩ := List.mem_map.1 hc
      refine mem_knownNames (s := s) ?_
      by_contra hused
      exact hall ⟨i, hi, by simp [free, hused]⟩
    have hnodup : ((List.range' 1 (known taken t + 1)).map (candidate (stemFor name))).Nodup := by
      refine List.Nodup.map_on (fun i hi j hj h => ?_) List.nodup_range'
      exact candidate_inj (List.mem_range'_1.1 hi).1 (List.mem_range'_1.1 hj).1 h
    have hlen := (List.subperm_of_subset hnodup hsub).length_le
    rw [length_knownNames, List.length_map, List.length_range'] at hlen
    omega
  obtain ⟨i, hi⟩ := Option.isSome_iff_exists.1 (List.find?_isSome.2 hfree)
  obtain ⟨hfirst, hmem, hbefore⟩ := List.find?_range'_eq_some.1 hi
  refine ⟨i, (List.mem_range'_1.1 hmem).1, ?_, by simpa [free] using hfirst, fun j hj hlt => ?_⟩
  · have hfresh : fresh taken t s name = (((List.range' 1 (known taken t + 1)).find? free).map
        (candidate (stemFor name))).getD (candidate (stemFor name) 1) := by
      simp only [fresh, List.find?_map]
      rfl
    rw [hfresh, hi]
    rfl
  · simpa [free] using hbefore j hj hlt

theorem isUsed_fresh (taken : List Text) (t : Table) (s : ScopeId) (name : Text) :
    isUsed taken t s (fresh taken t s name) = false := by
  obtain ⟨i, -, hfresh, hfree, -⟩ := fresh_first taken t s name
  rw [hfresh, hfree]

theorem fresh_unknown (taken : List Text) (t : Table) (s : ScopeId) (name : Text) :
    fresh taken t s name ∉ taken ∧ ¬ t.Knows (fresh taken t s name) := by
  have h := isUsed_fresh taken t s name
  have hnot : ∀ {l : List Text} {x : Text}, l.contains x = false → x ∉ l :=
    fun hx hmem => Bool.false_ne_true (hx.symm.trans (List.contains_iff_mem.2 hmem))
  simp only [isUsed, Bool.or_eq_false_iff] at h
  obtain ⟨⟨⟨⟨htaken, -⟩, hdecl⟩, href⟩, hlab⟩ := h
  refine ⟨hnot htaken, ?_⟩
  rintro (hx | hx | hx)
  · exact hnot href hx
  · exact hnot hlab hx
  · exact hnot hdecl hx

theorem fresh_ne_nil : fresh taken t s name ≠ [] := by
  have hcand : ∀ stem i, candidate stem i ≠ [] := by simp [candidate]
  unfold fresh
  dsimp only
  cases h : List.find? _ _ with
  | none => exact hcand _ _
  | some c =>
    obtain ⟨i, -, rfl⟩ := List.mem_map.1 (List.mem_of_find?_eq_some h)
    exact hcand _ _

end Modifier

/-- What holds of names at every moment of the pass. `T` holds the names that labels declare, `K`
the names of the program. -/
structure PassState.Orderly (T K : List Text) (p : PassState) : Prop where
  taken : p.taken = p.done.bindings.map (·.modifier.name)
  nodup : p.taken.Nodup
  unseen : ∀ m ∈ p.taken, m ∉ K
  known : ∀ x ∈ K, x = [] ∨ p.table.Knows x
  listed : p.table.Listed
  names : ∀ b ∈ p.done.bindings, b.name ∈ T
  /-- The modifier is declared in the scope of the state. -/
  own : ∀ b ∈ p.done.bindings, p.table.own? b.scope b.modifier.name =
    some ⟨b.modifier.name, .generated, some b.modifier⟩
  /-- It is declared nowhere else. -/
  alone : ∀ b ∈ p.done.bindings, ∀ s d, p.table.own? s b.modifier.name = some d → s = b.scope

namespace PassState.Orderly

variable {T K : List Text} {p p' : PassState}

theorem modifier_not_mem (h : Orderly T K p) (hb : b ∈ p.done.bindings) : b.modifier.name ∉ K :=
  h.unseen _ (h.taken ▸ List.mem_map_of_mem hb)

theorem of_table (h : Orderly T K p) (hb : p'.done.bindings = p.done.bindings)
    (ht : p'.taken = p.taken) (hk : ∀ x, p.table.Knows x → p'.table.Knows x)
    (hl : p'.table.Listed)
    (hown : ∀ b ∈ p.done.bindings, ∀ s d, p.table.own? s b.modifier.name = some d →
      d.kind = .generated → p'.table.own? s b.modifier.name = some d)
    (halone : ∀ b ∈ p.done.bindings, ∀ s d, p'.table.own? s b.modifier.name = some d →
      (p.table.own? s b.modifier.name).isSome) : Orderly T K p' where
  taken := by rw [ht, hb, h.taken]
  nodup := ht ▸ h.nodup
  unseen := ht ▸ h.unseen
  known x hx := (h.known x hx).imp_right (hk x)
  listed := hl
  names := hb ▸ h.names
  own b hmem := by
    rw [hb] at hmem
    exact hown b hmem _ _ (h.own b hmem) rfl
  alone b hmem s d hd := by
    rw [hb] at hmem
    obtain ⟨d', hd'⟩ := Option.isSome_iff_exists.1 (halone b hmem s d hd)
    exact h.alone b hmem s d' hd'

theorem same (h : Orderly T K p) (hs : p.Same p') : Orderly T K p' := by
  refine h.of_table hs.bindings hs.taken ?_ ?_ ?_ ?_
  all_goals rw [hs.table]
  · exact fun _ hx => hx
  · exact h.listed
  · exact fun _ _ _ _ hd _ => hd
  · exact fun _ _ _ _ hd => by simp [hd]

theorem bind (h : Orderly T K p) (m : Mark) (s : ScopeId) :
    Orderly T K (p.marked (p.table.bind m s)) := by
  have hlists : Table.SameLists p.table (p.table.bind m s) := .bind _ _ _
  refine h.of_table rfl rfl (fun x => hlists.knows) (fun c x d hd => ?_) ?_ ?_
  · exact hlists.declared ▸ h.listed c x d ((Table.own?_bind _ _ _ _ _).symm.trans hd)
  · exact fun b _ c d hd _ => (Table.own?_bind _ _ _ _ _).trans hd
  · exact fun b _ c d hd => by simp [(Table.own?_bind _ _ _ _ _).symm.trans hd]

theorem declare (h : Orderly T K p) (hx : name ∈ K) (s : ScopeId) (k : BindingKind)
    (i : Option Ident) : Orderly T K { p with table := p.table.declare s name k i } := by
  have hown : ∀ b ∈ p.done.bindings, ∀ c, (p.table.declare s name k i).own? c b.modifier.name =
      p.table.own? c b.modifier.name := by
    intro b hb c
    rw [Table.own?_declare, if_neg]
    rintro ⟨-, rfl, -⟩
    exact h.modifier_not_mem hb hx
  refine h.of_table rfl rfl (fun x hx => hx.declare _ _ _ _) (h.listed.declare _ _ _ _) ?_ ?_
  · exact fun b hb c d hd _ => (hown b hb c).trans hd
  · exact fun b hb c d hd => by simp [(hown b hb c).symm.trans hd]

theorem state (h : Orderly T K p) (hTK : ∀ x ∈ T, x ∈ K) (ht : target.name ∈ T)
    (hs : p.table.OpenedBy s i) (hy : Pass.Yields (Pass.declareState target s span) p b p') :
    Orderly T K p' := by
  obtain ⟨name, hname, rfl, rfl⟩ := Pass.yields_declareState hy
  have hfresh := Modifier.fresh_unknown p.taken p.table s target.name
  rw [← hname] at hfresh
  obtain ⟨htaken, hknows⟩ := hfresh
  have hK : name ∉ K := fun hx => (h.known name hx).elim
    (fun hnil => Modifier.fresh_ne_nil (hname.symm.trans hnil)) hknows
  have hne : target.name ≠ name := fun heq => hK (heq ▸ hTK _ ht)
  have hlt : s < p.table.scopes.length := by
    obtain ⟨sc, n, hsc, -⟩ := hs
    exact (List.getElem?_eq_some_iff.1 hsc).1
  -- what is declared for other modifiers does not change
  have hold : ∀ b ∈ p.done.bindings, ∀ c k k' j j',
      ((p.table.declare s name k j).declare s target.name k' j').own? c b.modifier.name =
        p.table.own? c b.modifier.name := by
    intro b hb c k k' j j'
    rw [Table.own?_declare, if_neg, Table.own?_declare, if_neg]
    · rintro ⟨-, heq, -⟩
      exact htaken (heq ▸ h.taken ▸ List.mem_map_of_mem hb)
    · rintro ⟨-, heq, -⟩
      exact h.modifier_not_mem hb (heq ▸ hTK _ ht)
  refine ⟨?_, ?_, ?_, fun x hx => ?_, ?_, ?_, ?_, ?_⟩
  · simp [h.taken, Ident.ofName]
  · exact List.nodup_append'.2 ⟨h.nodup, List.nodup_singleton _,
      List.disjoint_singleton.2 htaken⟩
  · intro m hm
    obtain hm | hm := List.mem_append.1 hm
    · exact h.unseen m hm
    · exact List.mem_singleton.1 hm ▸ hK
  · exact (h.known x hx).imp_right fun hx => (hx.declare _ _ _ _).declare _ _ _ _
  · exact (h.listed.declare _ _ _ _).declare _ _ _ _
  · intro b hb
    obtain hb | hb := List.mem_append.1 hb
    · exact h.names b hb
    · obtain rfl := List.mem_singleton.1 hb
      exact ht
  · intro b hb
    obtain hb | hb := List.mem_append.1 hb
    · exact (hold b hb _ _ _ _ _).trans (h.own b hb)
    · obtain rfl := List.mem_singleton.1 hb
      refine (Table.own?_declare _ _ _ _ _ _ _).trans ?_
      rw [if_neg fun hx => hne hx.2.1, Table.own?_declare, if_pos ⟨rfl, rfl, hlt⟩]
      rfl
  · intro b hb c d hd
    obtain hb | hb := List.mem_append.1 hb
    · exact h.alone b hb c d ((hold b hb _ _ _ _ _).symm.trans hd)
    · obtain rfl := List.mem_singleton.1 hb
      replace hd := (Table.own?_declare _ _ _ _ _ _ _).symm.trans hd
      rw [if_neg fun hx => hne hx.2.1, Table.own?_declare] at hd
      split at hd
      · next hx => exact hx.1.symm
      · exact absurd (.inr (.inr (h.listed c name d hd))) hknows

theorem watch (h : Orderly T K p) (ho : p.table.scopeOf? old = some c) (m : Mark) :
    Orderly T K (p.marked (p.table.watched old m c)) := by
  have hlists : Table.SameLists p.table (p.table.watched old m c) :=
    (Table.SameLists.rebind p.table old _).trans ⟨rfl, rfl, rfl⟩
  refine h.of_table rfl rfl (fun x => hlists.knows) (fun s x d hd => ?_) ?_ ?_
  · obtain ⟨d', hd'⟩ := Option.isSome_iff_exists.1 (Table.own?_of_watched ho hd)
    exact hlists.declared ▸ h.listed s x d' hd'
  · exact fun b _ s d hd hk => Table.own?_watched ho hd (by simp [hk])
  · exact fun b _ s d hd => Table.own?_of_watched ho hd

theorem callback (h : Orderly T K p) (hq : q.name ∈ K)
    (hw : p.table.Wraps t (p.newMark span) q s xs cs) : Orderly T K (p.marked t) := by
  have hlt : ∀ {c y d}, p.table.own? c y = some d → c ≠ p.table.scopes.length := by
    intro c y d hd
    obtain ⟨sc, hsc, -⟩ := Option.bind_eq_some_iff.1 hd
    exact Nat.ne_of_lt (List.getElem?_eq_some_iff.1 hsc).1
  refine h.of_table rfl rfl (fun x hx => hw.lists.knows (hx.put _)) (fun c x d hd => ?_) ?_ ?_
  · refine hw.lists.declared ▸ Table.mem_put.2 ?_
    rw [PassState.marked, hw.own?] at hd
    split at hd
    · split at hd
      · next heq => exact .inr heq.symm
      · cases hd
    · exact .inl (h.listed c x d hd)
  · intro b _ c d hd _
    exact (hw.own? c _).trans ((if_neg (hlt hd)).trans hd)
  · intro b hb c d hd
    rw [PassState.marked, hw.own?] at hd
    split at hd
    · split at hd
      · next heq => exact absurd (heq ▸ hq) (h.modifier_not_mem hb)
      · cases hd
    · simp [hd]

theorem edit (h : Orderly T K p) (hTK : ∀ x ∈ T, x ∈ K) (he : p.Edit N T W p') :
    Orderly T K p' := by
  cases he with
  | note hs => exact h.same hs
  | share => exact h.bind _ _
  | state ht hs hy => exact h.state hTK ht hs hy
  | memo ht => exact h.declare (hTK _ ht) _ _ _
  | watch _ _ _ ho => exact h.watch ho.owner _
  | callback hb hq hw => exact h.callback (hTK _ (hq ▸ h.names _ hb)) hw

theorem edits (h : Orderly T K p) (hTK : ∀ x ∈ T, x ∈ K)
    (he : Relation.ReflTransGen (PassState.Edit N T W) p p') : Orderly T K p' := by
  induction he with
  | refl => exact h
  | tail _ he ih => exact ih.edit hTK he

end PassState.Orderly

namespace Table

variable {t : Table} {y : Text}

theorem knows_record (x : Site) (owner s : ScopeId) (h : t.Knows y) :
    (x.record owner s t).Knows y := by
  cases x with
  | use i =>
    unfold Site.record
    dsimp only
    split
    · exact h
    · exact h.imp_left fun h => mem_put.2 (.inl h)
  | bind k i => exact h.declare _ _ _ _
  | label i body => exact h.imp_right (Or.imp_left fun h => mem_put.2 (.inl h))
  | share m => exact (SameLists.bind t m s).knows h
  | node | call | stray => exact h

theorem listed_record (x : Site) (owner s : ScopeId) (h : t.Listed) :
    (x.record owner s t).Listed := by
  cases x with
  | use i =>
    unfold Site.record
    dsimp only
    split <;> exact h
  | bind k i => exact h.declare _ _ _ _
  | label i body => exact h
  | share m =>
    intro c y d hd
    exact (SameLists.bind t m s).declared ▸ h c y d ((own?_bind t m s c y).symm.trans hd)
  | node | call | stray => exact h

theorem sameLists_opened (t : Table) (s : ScopeId) (k : ScopeKind) (n : Node) :
    SameLists t (t.opened s k n) := by
  refine .trans ?_ (.bind _ _ _)
  exact ⟨rfl, rfl, rfl⟩

theorem Listed.opened (h : t.Listed) (s : ScopeId) (k : ScopeKind) (n : Node) :
    (t.opened s k n).Listed := by
  intro c x d hd
  obtain ⟨sc, hsc, hown⟩ := Option.bind_eq_some_iff.1 hd
  rw [scopes_opened] at hsc
  rw [(sameLists_opened t s k n).declared]
  split at hsc
  · cases hsc
    cases hown
  · exact h c x d (Option.bind_eq_some_iff.2 ⟨sc, hsc, hown⟩)

end Table

namespace Sites

variable {xs : Sites} {t : Table} {y : Text}

theorem knows_record (xs : Sites) (owner s : ScopeId) (t : Table) (h : t.Knows y) :
    (xs.record owner s t).Knows y := by
  induction xs generalizing owner s t with
  | nil => exact h
  | site x rest ih => exact ih _ _ _ (Table.knows_record x owner s h)
  | hoist inner rest ihi ih => exact ih _ _ _ (ihi _ _ _ h)
  | scope k n inner rest ihi ih =>
    exact ih _ _ _ (ihi _ _ _ ((Table.sameLists_opened t s k n).knows h))

theorem listed_record (xs : Sites) (owner s : ScopeId) (t : Table) (h : t.Listed) :
    (xs.record owner s t).Listed := by
  induction xs generalizing owner s t with
  | nil => exact h
  | site x rest ih => exact ih _ _ _ (Table.listed_record x owner s h)
  | hoist inner rest ihi ih => exact ih _ _ _ (ihi _ _ _ h)
  | scope k n inner rest ihi ih => exact ih _ _ _ (ihi _ _ _ (h.opened s k n))

theorem knows_mention (x : Site) (owner s : ScopeId) (t : Table) (h : x.mention? = some (r, y)) :
    y = [] ∨ (x.record owner s t).Knows y := by
  cases x with
  | use i =>
    cases h
    unfold Site.record
    dsimp only
    split
    · next hnil => exact .inl (List.isEmpty_iff.1 hnil)
    · exact .inr (.inl (Table.mem_put.2 (.inr rfl)))
  | bind k i =>
    cases h
    exact .inr (.inr (.inr (Table.mem_put.2 (.inr rfl))))
  | label i body =>
    cases h
    exact .inr (.inr (.inl (Table.mem_put.2 (.inr rfl))))
  | node | call | share | stray => cases h

theorem knows_mentions (xs : Sites) (owner s : ScopeId) (t : Table) (h : (r, y) ∈ xs.mentions) :
    y = [] ∨ (xs.record owner s t).Knows y := by
  obtain ⟨x, hx, hm⟩ := List.mem_filterMap.1 h
  clear h
  induction xs generalizing owner s t with
  | nil => cases hx
  | site z rest ih =>
    obtain rfl | hx := List.mem_cons.1 hx
    · exact (knows_mention x owner s t hm).imp_right (rest.knows_record owner s _)
    · exact ih _ _ _ hx
  | hoist inner rest ihi ih =>
    obtain hx | hx := List.mem_append.1 hx
    · exact (ihi _ _ _ hx).imp_right (rest.knows_record owner s _)
    · exact ih _ _ _ hx
  | scope k n inner rest ihi ih =>
    obtain hx | hx := List.mem_append.1 hx
    · exact (ihi _ _ _ hx).imp_right (rest.knows_record owner s _)
    · exact ih _ _ _ hx

theorem Whole.mem_mentions (h : xs.Whole) (hx : y ∈ xs.targets o) :
    (.reference, y) ∈ xs.mentions := by
  obtain ⟨i, hi, rfl⟩ := List.mem_map.1 hx
  obtain ⟨x, hx, hd⟩ := List.mem_filterMap.1 hi
  cases x with
  | label l body =>
    have hbody : Site.use i ∈ body.sites.flat := by
      simp only [Site.declared?, Options.declared?] at hd
      split at hd
      · split at hd
        · cases hd
        · cases hd
          simp [Stmt.sites, Expr.sites, flat]
      · cases hd
    exact List.mem_filterMap.2 ⟨_, h.labels l body hx _ hbody, rfl⟩
  | node | use | bind | call | share | stray => cases hd

end Sites

namespace Program

variable {o : Options} {p : Program} {d : Desugared} {log : List LogRecord} {p' : PassState}
  {ds : List Text}

theorem orderly_start (o : Options) (p : Program) :
    (start p.numbered).Orderly (p.numbered.1.sites.targets o)
      (p.numbered.1.sites.mentions.map (·.2)) where
  taken := rfl
  nodup := List.nodup_nil
  unseen _ h := nomatch h
  known x hx := by
    obtain ⟨⟨r, y⟩, hm, rfl⟩ := List.mem_map.1 hx
    rw [start, analyze_eq]
    exact Sites.knows_mentions _ _ _ _ hm
  listed := by
    rw [start, analyze_eq]
    refine Sites.listed_record _ _ _ _ fun c x d hd => ?_
    obtain ⟨sc, hsc, hown⟩ := Option.bind_eq_some_iff.1 hd
    cases c with
    | zero =>
      cases hsc
      cases hown
    | succ c => cases hsc
  names _ h := nomatch h
  own _ h := nomatch h
  alone _ h := nomatch h

theorem Run.orderly (h : p.Run o d p' ds) (hp : p.sites.MemberFree) :
    p'.Orderly (p.numbered.1.sites.targets o) (p.numbered.1.sites.mentions.map (·.2)) :=
  (orderly_start o p).edits
    (fun _ hx => List.mem_map.2 ⟨_, p.numbered.1.whole.mem_mentions hx, rfl⟩) (h.edits hp)

theorem nodup_modifiers (hp : p.sites.MemberFree) (h : p.desugar o = (log, .ok d)) :
    (d.expansions.bindings.map (·.modifier.name)).Nodup := by
  obtain ⟨p', ds, hrun⟩ := run_of_desugar h
  have horderly := hrun.orderly hp
  rw [hrun.done, ← horderly.taken]
  exact horderly.nodup

theorem modifier_not_mentioned (hp : p.sites.MemberFree) (h : p.desugar o = (log, .ok d))
    (hb : b ∈ d.expansions.bindings) (r : NameRole) : (r, b.modifier.name) ∉ p.sites.mentions := by
  obtain ⟨p', ds, hrun⟩ := run_of_desugar h
  rw [hrun.done] at hb
  intro hm
  apply (hrun.orderly hp).modifier_not_mem hb
  rw [mentions_numbered]
  exact List.mem_map.2 ⟨_, hm, rfl⟩

/-- The names of modifiers are distinct, and none of them occurs in the program. -/
theorem desugar_modifiers_fresh (hp : p.sites.MemberFree) (h : p.desugar o = (log, .ok d)) :
    (d.expansions.bindings.map (·.modifier.name)).Nodup ∧
      ∀ b ∈ d.expansions.bindings, ∀ r, (r, b.modifier.name) ∉ p.sites.mentions :=
  ⟨nodup_modifiers hp h, fun _ hb r => modifier_not_mentioned hp h hb r⟩

/-- Two states of one name, in a program that already uses the first names for modifiers. -/
theorem desugar_modifiers_fresh_taken :
    ∃ p log d, Program.parse
        ("let _setN = 1; function f(_setN2) \x7b ref: n = 1 \x7d ref: n = _setN3" : Text) = .ok p ∧
      p.sites.MemberFree ∧ p.desugar .empty = (log, .ok d) ∧
      d.expansions.bindings.map (·.modifier.name) = ["_setN4", "_setN5"] ∧
      (d.expansions.bindings.map (·.modifier.name)).Nodup ∧
      ∀ b ∈ d.expansions.bindings, ∀ r, (r, b.modifier.name) ∉ p.sites.mentions := by
  obtain ⟨p, log, d, hp, hd, h⟩ := Text.exists_of_desugars .empty
    "let _setN = 1; function f(_setN2) \x7b ref: n = 1 \x7d ref: n = _setN3"
    (fun p d => decide (p.sites.MemberFree ∧
      d.expansions.bindings.map (·.modifier.name) = ["_setN4", "_setN5"]))
    (by decide +kernel)
  obtain ⟨hfree, hnames⟩ := of_decide_eq_true h
  exact ⟨p, log, d, hp, hfree, hd, hnames, desugar_modifiers_fresh hfree hd⟩

end Program

end LabelHooks
