import LabelHooks.Proofs.Tracking
import Mathlib.Data.List.Pairwise

/-!
Main results on names. A use that the pass leaves in the program finds the declaration that it
found before, and the call of a modifier finds that modifier, in the scope of its state.
-/

namespace LabelHooks
set_option autoImplicit true

open PassState (IsWatcher Plain)
open List

namespace Site

def use? : Site → Option Ident
  | .use u => some u
  | .node _ | .bind _ _ | .label _ _ | .call _ _ _ | .share _ | .stray _ => none

def call? : Site → Option (Ident × Mark × Ident)
  | .call f m q => some (f, m, q)
  | .node _ | .use _ | .bind _ _ | .label _ _ | .share _ | .stray _ => none

theorem use?_eq_some {x : Site} : x.use? = some u ↔ x = .use u := by
  cases x with
  | use v => simp [use?]
  | node | bind | label | call | share | stray => simp [use?]

theorem call?_eq_some {x : Site} : x.call? = some (f, m, q) ↔ x = .call f m q := by
  cases x with
  | call g l r => simp [call?]
  | node | use | bind | label | share | stray => simp [call?]

def useId? (x : Site) : Option Nat := x.use?.bind (·.mark.id)

def others (x : Site) : List Nat := if x.use?.isSome then [] else x.ids

theorem ids_eq (x : Site) : x.ids = x.useId?.toList ++ x.others := by
  cases x with
  | use u => cases h : u.mark.id <;> simp [ids, use?, useId?, others, nodes, Node.ofIdent, h]
  | node | bind | label | call | share | stray => rfl

theorem others_eq_nil {x : Site} (h : ∀ n ∈ x.nodes, n.mark.id = none) : x.others = [] := by
  have hids : x.ids = [] := by simpa [ids] using h
  rw [ids_eq, append_eq_nil_iff] at hids
  exact hids.2

theorem others_bind {i : Ident} (h : i.mark.id = none) : (bind k i).others = [] :=
  others_eq_nil (forall_mem_singleton.2 h)

end Site

namespace Sites

variable {t : Table} {s s' : ScopeId} {xs ys : Sites} {x : Site}

def uses (t : Table) (s : ScopeId) (xs : Sites) : List (ScopeId × Ident) :=
  (xs.placed t s).filterMap fun (r, x) => x.use?.map (r, ·)

/-- The calls of a name with an arrow function of one name, each with the innermost scope around
it. -/
def calls (t : Table) (s : ScopeId) (xs : Sites) : List (ScopeId × Ident × Mark × Ident) :=
  (xs.placed t s).filterMap fun (r, x) => x.call?.map (r, ·)

theorem mem_uses : (r, u) ∈ xs.uses t s ↔ (r, .use u) ∈ xs.placed t s := by
  simp [uses, Site.use?_eq_some]

theorem mem_calls : (r, f, m, q) ∈ xs.calls t s ↔ (r, .call f m q) ∈ xs.placed t s := by
  simp [calls, Site.call?_eq_some]

def others : Sites → List Nat
  | .nil => []
  | .site x rest => x.others ++ rest.others
  | .hoist inner rest => inner.others ++ rest.others
  | .scope _ n inner rest => n.mark.id.toList ++ (inner.others ++ rest.others)

@[simp] theorem others_append (xs ys : Sites) : (xs ++ ys).others = xs.others ++ ys.others := by
  induction xs with
  | nil => rfl
  | site x rest ih => simp only [site_append, others, ih, List.append_assoc]
  | hoist inner rest _ ih => simp only [hoist_append, others, ih, List.append_assoc]
  | scope k n inner rest _ ih => simp only [scope_append, others, ih, List.append_assoc]

theorem ids_perm (xs : Sites) : xs.ids.Perm (xs.flat.filterMap Site.useId? ++ xs.others) := by
  induction xs with
  | nil => exact .refl _
  | site x rest ih =>
    have hcons : (site x rest).flat.filterMap Site.useId? =
        x.useId?.toList ++ rest.flat.filterMap Site.useId? := by
      cases h : x.useId? <;> simp [flat, h]
    rw [ids_site, Site.ids_eq, hcons, others]
    refine (ih.append_left _).trans ?_
    grind
  | hoist inner rest ihi ih =>
    rw [ids_hoist, flat, others, filterMap_append]
    refine (ihi.append ih).trans ?_
    grind
  | scope k n inner rest ihi ih =>
    rw [ids_scope, flat, others, filterMap_append]
    refine ((ihi.append ih).append_left _).trans ?_
    grind

theorem exists_placed (t : Table) (s : ScopeId) (h : x ∈ xs.flat) :
    ∃ s', (s', x) ∈ xs.placed t s := by
  rw [← map_snd_placed t s] at h
  obtain ⟨⟨s', y⟩, hy, rfl⟩ := mem_map.1 h
  exact ⟨s', hy⟩

theorem mem_nodes_of_flat (h : x ∈ xs.flat) (hn : n ∈ x.nodes) : n ∈ xs.nodes := by
  induction xs with
  | nil => cases h
  | site y rest ih =>
    obtain rfl | h := mem_cons.1 h
    · exact mem_append_left _ hn
    · exact mem_append_right _ (ih h)
  | hoist inner rest ihi ih =>
    exact mem_append.2 ((mem_append.1 h).imp ihi ih)
  | scope k m inner rest ihi ih =>
    exact mem_cons_of_mem _ (mem_append.2 ((mem_append.1 h).imp ihi ih))

theorem Distinct.use_unique (hd : xs.Distinct) (hx : (s, x) ∈ xs.placed t r)
    (hy : (s', y) ∈ xs.placed t r) (hi : x.useId? = some i) (hi' : y.useId? = some i) :
    s = s' ∧ x = y := by
  have hnodup : ((xs.placed t r).filterMap (Site.useId? ∘ Prod.snd)).Nodup := by
    rw [← filterMap_map, map_snd_placed]
    exact (nodup_append'.1 (xs.ids_perm.nodup_iff.1 hd.nodup)).1
  have hpairs : (xs.placed t r).Pairwise fun a b =>
      ∀ i, a.2.useId? = some i → ∀ j, b.2.useId? = some j → i ≠ j :=
    pairwise_filterMap.1 hnodup
  have hsymm : Std.Symm fun a b : ScopeId × Site =>
      ∀ i, a.2.useId? = some i → ∀ j, b.2.useId? = some j → i ≠ j :=
    ⟨fun _ _ h i hi j hj => (h j hj i hi).symm⟩
  by_contra hne
  refine hpairs.forall hx hy ?_ i hi i hi' rfl
  exact fun heq => hne ⟨congrArg Prod.fst heq, congrArg Prod.snd heq⟩

end Sites

theorem Table.lookup?_of_alone {t : Table} (hl : t.Path s l) (ha : a ∈ l)
    (hown : t.own? a x = some e) (halone : ∀ c d, t.own? c x = some d → c = a) :
    t.lookup? s x = some (a, e) := by
  rw [lookup?_of_path hl]
  clear hl
  induction l with
  | nil => cases ha
  | cons c l ih =>
    by_cases hc : c = a
    · rw [hc, along_cons_some hown]
    · have hnone : t.own? c x = none :=
        Option.eq_none_iff_forall_ne_some.2 fun d hd => hc (halone c d hd)
      rw [along_cons_none hnone]
      exact ih ((mem_cons.1 ha).resolve_left (Ne.symm hc))

theorem Rewrites.others {o : Options} (h : Rewrites o s p xs ps p' ys qs ds) (hr : xs.Ready N p s) :
    ∀ i ∈ ys.others, i < N → i ∈ xs.others := by
  induction h with
  | keep | hide => exact fun i hi _ => hi
  | part _ _ _ ih | recast _ _ _ ih => exact ih hr
  | miss _ _ _ _ ih => exact fun i hi hlt => ih hr.split.right i hi hlt
  | append hx hy ihx ihy =>
    intro i hi hlt
    rw [Sites.others_append, mem_append] at hi ⊢
    exact hi.imp (ihx hr.left i · hlt) (ihy (hr.next (hx.effect hr.left).frame) i · hlt)
  | hoist _ ih =>
    intro i hi hlt
    simp only [Sites.others, append_nil] at hi ⊢
    exact ih hr.ofHoist i hi hlt
  | scope _ ih =>
    obtain ⟨c, sc, j, hopen, -, -, -, -, hin⟩ := hr.ofScope
    rw [hopen.owner] at ih
    intro i hi hlt
    simp only [Sites.others, append_nil, mem_append] at hi ⊢
    exact hi.imp id (ih hin i · hlt)
  | drop | note => exact fun i hi => (nomatch hi)
  | add _ hn =>
    intro i hi
    simp [Sites.others, Site.others_eq_nil hn] at hi
  | renode hm =>
    intro i hi _
    simpa [Sites.others, Site.others, Site.use?, Site.ids, Site.nodes, hm] using hi
  | relabel => exact fun i hi _ => hi
  | stray hx => cases hx.symm.trans (hr.memberFree _ mem_cons_self)
  | call _ _ _ ih => exact ih hr
  | share =>
    intro i hi hlt
    obtain rfl := mem_singleton.1 hi
    exact absurd hlt (Nat.not_lt.2 hr.bound)
  | state _ _ hy _ hi =>
    obtain ⟨name, -, rfl, rfl⟩ := Pass.yields_declareState hy
    intro i hmem
    simp [Sites.others, Site.others_bind hi, Site.others_bind (i := .ofName _ _) rfl] at hmem
  | memo _ _ hi _ ih =>
    intro i hmem hlt
    rw [Sites.others, Site.others_bind hi] at hmem
    exact ih hr i hmem hlt
  | watch _ _ hy _ _ ih =>
    have hscope := hr.underLabel
    obtain ⟨rfl, rfl, hin, -⟩ := hscope.ofWatch hy
    intro i hi hlt
    simp only [Sites.others, append_nil, mem_append] at hi
    obtain hi | hi := hi
    · obtain rfl := mem_singleton.1 hi
      exact absurd hlt (Nat.not_lt.2 hr.bound)
    · simp [Sites.others, ih hin i hi hlt]
  | callback _ hy hq _ _ _ _ _ _ ih =>
    obtain ⟨rfl, hin, -⟩ := hr.ofCallback hy
    intro i hi hlt
    simp only [Sites.others, Site.others_bind hq, append_nil, mem_append] at hi
    obtain hi | hi | hi | hi | hi := hi
    · cases hi
    · cases hi
    · obtain rfl := mem_singleton.1 hi
      exact absurd hlt (Nat.not_lt.2 hr.bound)
    · cases hi
    · exact ih hin i hi hlt

namespace Program

variable {o : Options} {p : Program} {d : Desugared} {log : List LogRecord} {p' : PassState}
  {ds : List Text}

theorem standing_start (o : Options) (p : Program) :
    Standing p.numbered.2 (p.numbered.1.sites.targets o) (p.numbered.1.sites.mentions.map (·.2))
      (start p.numbered) Table.root where
  bound := Nat.le_refl _
  orderly := orderly_start o p
  targets _ hx := mem_map.2 ⟨_, p.numbered.1.whole.mem_mentions hx, rfl⟩
  path := by
    obtain ⟨sc, hsc, -, -, hparent, -⟩ := p.distinct_numbered.1.analysed.root
    exact ⟨_, .root hsc hparent⟩

theorem Run.tracks (h : p.Run o d p' ds) (hp : p.sites.MemberFree) :
    Tracks p.numbered.2 (p.numbered.1.sites.targets o) (p.numbered.1.sites.mentions.map (·.2))
      (p.numbered.1.sites.watchers o) Table.root (start p.numbered) p.numbered.1.sites p'
      d.program.sites :=
  h.rewrites.tracks (ready_numbered hp) (Sites.within_self o _) (standing_start o p)

/-- An identifier in reference position that is left in the program is still in such a position. -/
theorem Run.exists_use (h : p.Run o d p' ds) (hp : p.sites.MemberFree)
    (hu : .use u ∈ p.numbered.1.sites.flat) (hi : u.mark.id = some i) (hlt : i < p.numbered.2)
    (hn : n ∈ d.program.nodes) (hid : n.mark.id = some i) :
    ∃ u', .use u' ∈ d.program.sites.flat ∧ u'.mark.id = some i := by
  have hd := p.distinct_numbered.1
  have hperm := Sites.ids_perm p.numbered.1.sites
  have huse : i ∈ p.numbered.1.sites.flat.filterMap Site.useId? := mem_filterMap.2 ⟨_, hu, hi⟩
  have hmem : i ∈ d.program.sites.ids := by
    obtain rfl | hn := mem_cons.1 (d.program.nodes_perm.subset hn)
    · have hfresh := hd.fresh i (hperm.mem_iff.2 (mem_append_left _ huse))
      exact absurd (h.mark ▸ hid) hfresh
    · exact Sites.mem_ids hn hid
  -- a node that is no use now was none before
  obtain hmem | hmem := mem_append.1 ((Sites.ids_perm _).subset hmem)
  · obtain ⟨x, hx, hxi⟩ := mem_filterMap.1 hmem
    obtain ⟨u', hu', hi'⟩ := Option.bind_eq_some_iff.1 hxi
    exact ⟨u', Site.use?_eq_some.1 hu' ▸ hx, hi'⟩
  · have hother := h.rewrites.others (ready_numbered hp) i hmem hlt
    exact absurd hother ((nodup_append'.1 (hperm.nodup_iff.1 hd.sites.nodup)).2.2 huse)

/-- A use that is left in the program stands in one scope, and finds from there the declaration
that it found before, or none as before. Its name must not be declared by a label, nor have found
a parameter of a watch function. -/
theorem desugar_captures_nothing (hp : p.sites.MemberFree) (h : p.desugar o = (log, .ok d))
    (hu : (s, u) ∈ p.numbered.1.sites.uses p.numbered.1.analyze Table.root)
    (hn : ∃ n ∈ d.program.nodes, n.mark.id = u.mark.id)
    (ht : u.name ∉ p.numbered.1.sites.targets o.withDefaults)
    (hw : ¬ p.numbered.1.analyze.FindsParam
      (fun n => n.mark ∈ p.numbered.1.sites.watchers o.withDefaults) s u.name) :
    ∃ s', (∀ r, (r, u) ∈ d.program.sites.uses d.table Table.root ↔ r = s') ∧
      d.table.lookup? s' u.name = p.numbered.1.analyze.lookup? s u.name := by
  obtain ⟨p', ds, hrun⟩ := run_of_desugar h
  rw [Sites.mem_uses] at hu
  have hmem := Sites.mem_flat_of_placed hu
  obtain ⟨i, hlt, hi⟩ := p.distinct_numbered.2.2 (.ofIdent u)
    (Sites.mem_nodes_of_flat hmem List.mem_cons_self)
  obtain ⟨n, hn, hid⟩ := hn
  obtain ⟨u', hu', hi'⟩ := hrun.exists_use hp hmem hi hlt hn (hid.trans hi)
  rw [hrun.table]
  obtain ⟨s', hs'⟩ := Sites.exists_placed p'.table Table.root hu'
  obtain ⟨s₁, hs₁, hkeep⟩ := (hrun.tracks hp).uses s' u' i hs' hi' hlt
  obtain ⟨rfl, heq⟩ := p.distinct_numbered.1.sites.use_unique hs₁ hu hi' hi
  obtain rfl := Site.use.inj heq
  refine ⟨s', fun r => ⟨fun hr => ?_, fun hr => Sites.mem_uses.2 (hr ▸ hs')⟩, ?_⟩
  · exact ((hrun.distinct hp).sites.use_unique (Sites.mem_uses.1 hr) hs' hi hi).1
  · have hmention : u'.name ∈ p.numbered.1.sites.mentions.map (·.2) :=
      List.mem_map.2 ⟨_, List.mem_filterMap.2 ⟨_, hmem, rfl⟩, rfl⟩
    obtain hfound | ⟨w, e, n, hfind, hk, hn, hwatch⟩ := hkeep u'.name ⟨hmention, ht⟩
    · exact hfound
    · exact absurd ⟨w, e, n, hfind, hk, hn, hwatch.1⟩ hw

/-- A name of a watch function, used in the callback of an update inside that of another one. -/
theorem desugar_captures_nothing_moved :
    ∃ p log d s u, Program.parse
        ("ref: n = 0; ref: k = 0; watch: (n) => \x7b let b = 2; n = k = b \x7d" : Text) = .ok p ∧
      p.sites.MemberFree ∧ p.desugar .empty = (log, .ok d) ∧ u.name = ("b" : Text) ∧
      (s, u) ∈ p.numbered.1.sites.uses p.numbered.1.analyze Table.root ∧
      (s, u) ∉ d.program.sites.uses d.table Table.root ∧
      ∃ s', (∀ r, (r, u) ∈ d.program.sites.uses d.table Table.root ↔ r = s') ∧
        d.table.lookup? s' u.name = p.numbered.1.analyze.lookup? s u.name := by
  obtain ⟨p, log, d, hp, hd, h⟩ := Text.exists_of_desugars .empty
    "ref: n = 0; ref: k = 0; watch: (n) => \x7b let b = 2; n = k = b \x7d"
    (fun p d => decide (p.sites.MemberFree ∧
      ∃ x ∈ p.numbered.1.sites.uses p.numbered.1.analyze Table.root, x.2.name = ("b" : Text) ∧
        x ∉ d.program.sites.uses d.table Table.root ∧
        (∃ n ∈ d.program.nodes, n.mark.id = x.2.mark.id) ∧
        x.2.name ∉ p.numbered.1.sites.targets Options.empty.withDefaults ∧
        (p.numbered.1.analyze.lookup? x.1 x.2.name).map (·.2.kind) = some .let_))
    (by decide +kernel)
  obtain ⟨hfree, ⟨s, u⟩, hu, hname, hmoved, hn, ht, hkind⟩ := of_decide_eq_true h
  refine ⟨p, log, d, s, u, hp, hfree, hd, hname, hu, hmoved,
    desugar_captures_nothing hfree hd hu hn ht ?_⟩
  rintro ⟨w, e, n, hfind, hk, -⟩
  rw [hfind, Option.map_some, hk] at hkind
  cases hkind

/-- A call with a function that is not of the program is that of a modifier. Wherever it stands, it
finds the declaration of the modifier in the scope of its state, which is a scope around the
  call. -/
theorem desugar_modifiers_reached (hp : p.sites.MemberFree) (h : p.desugar o = (log, .ok d))
    (hc : (s, f, m, q) ∈ d.program.sites.calls d.table Table.root)
    (hm : ∀ n ∈ p.numbered.1.nodes, n.mark ≠ m) :
    ∃ b ∈ d.expansions.bindings, f.name = b.modifier.name ∧ q.name = b.name ∧
      d.table.lookup? s f.name = some (b.scope, ⟨f.name, .generated, some b.modifier⟩) ∧
      d.table.encloses b.scope s = true := by
  obtain ⟨p', ds, hrun⟩ := run_of_desugar h
  have hold : ¬ ∃ n ∈ p.numbered.1.sites.nodes, n.mark = m := fun ⟨n, hn, hnm⟩ =>
    hm n (p.numbered.1.nodes_perm.symm.subset (List.mem_cons_of_mem _ hn)) hnm
  rw [hrun.table, Sites.mem_calls] at hc
  rw [hrun.table, hrun.done]
  obtain hcall | hnode | ⟨b, hb, hf, hq, henc⟩ := (hrun.tracks hp).calls s f m q hc
  · exact absurd (p.numbered.1.whole.calls _ _ _ hcall) hold
  · exact absurd hnode hold
  · have horderly := hrun.orderly hp
    obtain ⟨l, hl⟩ := ((standing_start _ p).edits (hrun.edits hp)).path
    obtain ⟨l', hl'⟩ := (hrun.effect hp).placed.path hl hc
    refine ⟨b, hb, hf, hq, ?_, henc⟩
    rw [hf]
    exact Table.lookup?_of_alone hl' ((Table.encloses_iff hl').1 henc) (horderly.own b hb)
      (horderly.alone b hb)

/-- The call of one modifier in the callback of another one, in a watch function whose parameter
has the name of a state. -/
theorem desugar_modifiers_reached_nested :
    ∃ p log d s f m q, Program.parse
        ("ref: n = 0; ref: k = 0; watch: (n) => \x7b let b = 2; n = k = b \x7d" : Text) = .ok p ∧
      p.sites.MemberFree ∧ p.desugar .empty = (log, .ok d) ∧ f.name = ("_setK" : Text) ∧
      (s, f, m, q) ∈ d.program.sites.calls d.table Table.root ∧
      (∀ n ∈ p.numbered.1.nodes, n.mark ≠ m) ∧
      ∃ b ∈ d.expansions.bindings, f.name = b.modifier.name ∧ q.name = b.name ∧
        d.table.lookup? s f.name = some (b.scope, ⟨f.name, .generated, some b.modifier⟩) ∧
        d.table.encloses b.scope s = true := by
  obtain ⟨p, log, d, hp, hd, h⟩ := Text.exists_of_desugars .empty
    "ref: n = 0; ref: k = 0; watch: (n) => \x7b let b = 2; n = k = b \x7d"
    (fun p d => decide (p.sites.MemberFree ∧
      ∃ c ∈ d.program.sites.calls d.table Table.root, c.2.1.name = ("_setK" : Text) ∧
        ∀ n ∈ p.numbered.1.nodes, n.mark ≠ c.2.2.1))
    (by decide +kernel)
  obtain ⟨hfree, ⟨s, f, m, q⟩, hc, hname, hm⟩ := of_decide_eq_true h
  exact ⟨p, log, d, s, f, m, q, hp, hfree, hd, hname, hc, hm,
    desugar_modifiers_reached hfree hd hc hm⟩

end Program

end LabelHooks
