import LabelHooks.Proofs.Frames

/-!
The effect of a rewriting on sites that are placed: its result is placed too, and every scope
declares the names that the rewritten sites in it declare.
-/

namespace LabelHooks
set_option autoImplicit true

open Pass

namespace Sites

variable {N : Nat} {p p' p₁ p₂ : PassState} {s c : ScopeId} {xs ys inner rest : Sites}

/-- The names that sites declare around them. -/
def names (own far : Bool) (xs : Sites) : List Text := (xs.decls own far).map (·.name)

@[simp] theorem names_nil (own far : Bool) : names own far .nil = [] := rfl

@[simp] theorem names_append (own far : Bool) (xs ys : Sites) :
    (xs ++ ys).names own far = xs.names own far ++ ys.names own far := by
  simp only [names, decls_append, List.map_append]

@[simp] theorem names_site (own far : Bool) (x : Site) (rest : Sites) :
    (site x rest).names own far =
      (if own then x.decl?.toList.map (·.name) else []) ++ rest.names own far := by
  simp only [names, decls, List.map_append]
  split <;> rfl

@[simp] theorem names_hoist (own far : Bool) (inner rest : Sites) :
    (hoist inner rest).names own far = inner.names far far ++ rest.names own far := by
  simp only [names, decls, List.map_append]

@[simp] theorem names_scope (own far : Bool) (k : ScopeKind) (n : Node) (inner rest : Sites) :
    (scope k n inner rest).names own far =
      (if k = .function then [] else inner.names false far) ++ rest.names own far := by
  simp only [names, decls, List.map_append]
  split <;> rfl

theorem Inert.names (h : xs.Inert) (own far : Bool) : xs.names own far = [] := by
  have hnone : Declares (fun _ => False) xs := h.declares
  rw [Sites.names, List.map_eq_nil_iff, List.eq_nil_iff_forall_not_mem]
  exact hnone own far

def SameNames (sc : Scope) (inner : Sites) : Prop :=
  ∀ x, x ∈ sc.declared.map (·.name) ↔ x ∈ inner.names true (decide (sc.kind = .function))

theorem Exact.sameNames (h : Exact sc inner) : SameNames sc inner := by
  intro x
  rw [Exact] at h
  rw [h, Scope.mem_names_declareAll]
  simp [names]

/-- Sites of scope `s` as the pass finds them: it has not worked on any of them yet. Numbers of
nodes that the pass did not make are below `N`. -/
structure Ready (N : Nat) (p : PassState) (s : ScopeId) (xs : Sites) : Prop where
  placed : xs.Placed (fun _ sc inner => Exact sc inner) p.table s
  distinct : xs.Distinct
  memberFree : xs.MemberFree
  old : ∀ i ∈ xs.ids, i < N
  bound : N ≤ p.nextNode
  around : ∃ i, p.table.OpenedBy s i ∧ i ∉ xs.ids ∧ i < p.nextNode

namespace Ready

theorem lt_next (h : Ready N p s xs) : ∀ i ∈ xs.ids, i < p.nextNode :=
  fun i hi => Nat.lt_of_lt_of_le (h.old i hi) h.bound

theorem next_not_mem (h : Ready N p s xs) : p.nextNode ∉ xs.ids :=
  fun hmem => Nat.lt_irrefl _ (h.lt_next _ hmem)

theorem left (h : Ready N p s (xs ++ ys)) : Ready N p s xs where
  placed := (placed_append.1 h.placed).1
  distinct := (Distinct.append_iff.1 h.distinct).1
  memberFree := (memberFree_append.1 h.memberFree).1
  old i hi := h.old i (by simp [hi])
  bound := h.bound
  around := by
    obtain ⟨i, hopen, hi, hlt⟩ := h.around
    rw [ids_append, List.mem_append, not_or] at hi
    exact ⟨i, hopen, hi.1, hlt⟩

theorem next (h : Ready N p s (xs ++ ys)) (hf : p.Frame p₁ s xs.ids ds) : Ready N p₁ s ys := by
  obtain ⟨i, hopen, hi, hlt⟩ := h.around
  rw [ids_append, List.mem_append, not_or] at hi
  obtain ⟨-, hd, hdis⟩ := Distinct.append_iff.1 h.distinct
  refine ⟨?_, hd, (memberFree_append.1 h.memberFree).2, fun i hi => h.old i (by simp [hi]),
    Nat.le_trans h.bound hf.next,
    ⟨i, hf.openedBy_self hopen, hi.2, Nat.lt_of_lt_of_le hlt hf.next⟩⟩
  refine hf.placed (placed_append.1 h.placed).2 hopen hi.2 fun j hj => ⟨fun hj' => hdis hj' hj, ?_⟩
  exact h.lt_next j (by simp [hj])

theorem right (h : Ready N p s (xs ++ ys)) : Ready N p s ys := h.next (.refl p s _)

theorem apart (h : Ready N p s (xs ++ ys)) : ∀ i ∈ ys.ids, i ∉ xs.ids ∧ i < p.nextNode := by
  obtain ⟨-, -, hdis⟩ := Distinct.append_iff.1 h.distinct
  intro i hi
  exact ⟨fun hx => hdis hx hi, h.right.lt_next i hi⟩

theorem split (h : Ready N p s (.site x ys)) : Ready N p s (.site x .nil ++ ys) := h

theorem underLabel (h : Ready N p s (.site x (.ofList before ++ ys))) : Ready N p s ys :=
  right (show Ready N p s (.site x (.ofList before) ++ ys) from h)

theorem ofHoist (h : Ready N p s (.hoist xs .nil)) : Ready N p s xs where
  placed := h.placed.1
  distinct := h.distinct.hoist.1
  memberFree x hx := h.memberFree x (by simpa [flat] using hx)
  old i hi := h.old i (by simp [hi])
  bound := h.bound
  around := by
    obtain ⟨i, hopen, hi, hlt⟩ := h.around
    rw [ids_hoist, List.mem_append, not_or] at hi
    exact ⟨i, hopen, hi.1, hlt⟩

theorem ofScope (h : Ready N p s (.scope k n inner rest)) :
    ∃ c sc i, p.table.Opens s k n c sc ∧ Exact sc inner ∧ n.mark.id = some i ∧ i ∉ inner.ids ∧
      i < N ∧ Ready N p c inner := by
  obtain ⟨⟨c, sc, hopen, hex, hin⟩, -⟩ := h.placed
  obtain ⟨i, hi, hii, -, hdi, -, -⟩ := h.distinct.scope
  have hlt : i < N := h.old i (by simp [hi])
  refine ⟨c, sc, i, hopen, hex, hi, hii, hlt, hin, hdi, fun x hx => ?_, fun j hj => ?_, h.bound,
    i, hopen.openedBy hi, hii, Nat.lt_of_lt_of_le hlt h.bound⟩
  · exact h.memberFree x (by simp [flat, hx])
  · exact h.old j (by simp [hj])

end Ready

end Sites

structure Effect (s : ScopeId) (p : PassState) (xs : Sites) (p' : PassState) (ys : Sites)
    (ds : List Text) : Prop where
  frame : p.Frame p' s xs.ids ds
  ids : ∀ i ∈ ys.ids, i ∈ xs.ids ∨ p.nextNode ≤ i ∧ i < p'.nextNode
  distinct : ys.Distinct
  names : ∀ own far x, x ∈ ys.names own far ↔ x ∈ xs.names own far ∨ own = true ∧ x ∈ ds
  placed : ys.Placed (fun _ sc inner => Sites.SameNames sc inner) p'.table s

namespace Effect

open Sites (Ready)

variable {N : Nat} {s : ScopeId} {p p' p₁ p₂ : PassState} {xs ys xs' ys' : Sites}
  {ds ds' : List Text}

theorem lt_next (h : Effect s p xs p' ys ds) (hr : Ready N p s xs) :
    ∀ i ∈ ys.ids, i < p'.nextNode := by
  intro i hi
  obtain hi | hi := h.ids i hi
  · exact Nat.lt_of_lt_of_le (hr.lt_next i hi) h.frame.next
  · exact hi.2

theorem not_mem_ids (h : Effect s p xs p' ys ds) (hi : i ∉ xs.ids) (hlt : i < p.nextNode) :
    i ∉ ys.ids := by
  intro hmem
  obtain hx | hx := h.ids i hmem
  · exact hi hx
  · exact Nat.not_lt.2 hx.1 hlt

theorem keep (h : Ready N p s xs) : Effect s p xs p xs [] where
  frame := .refl p s _
  ids i hi := .inl hi
  distinct := h.distinct
  names own far x := by simp
  placed := h.placed.imp fun _ _ _ => Sites.Exact.sameNames

theorem apart (hx : Effect s p xs p₁ xs' ds) (hr : Ready N p s (xs ++ ys)) :
    ∀ j ∈ xs'.ids, j ∉ ys.ids ∧ j < p₁.nextNode := by
  obtain ⟨-, -, hdis⟩ := Sites.Distinct.append_iff.1 hr.distinct
  intro j hj
  refine ⟨fun hj' => ?_, hx.lt_next hr.left j hj⟩
  obtain hjx | hjx := hx.ids j hj
  · exact hdis hjx hj'
  · exact Nat.not_lt.2 hjx.1 (hr.lt_next j (by simp [hj']))

theorem append (hr : Ready N p s (xs ++ ys)) (hx : Effect s p xs p₁ xs' ds)
    (hy : Effect s p₁ ys p₂ ys' ds') : Effect s p (xs ++ ys) p₂ (xs' ++ ys') (ds ++ ds') := by
  obtain ⟨i, hopen, hi, hlt⟩ := hr.around
  rw [Sites.ids_append, List.mem_append, not_or] at hi
  have hleft := hx.apart hr
  refine ⟨(hx.frame.mono ?_).trans (hy.frame.mono ?_), fun j hj => ?_, ?_, fun own far x => ?_, ?_⟩
  · exact fun j hj => by simp [hj]
  · exact fun j hj => by simp [hj]
  · rw [Sites.ids_append, List.mem_append] at hj ⊢
    obtain hj | hj := hj
    · exact (hx.ids j hj).imp .inl fun h => ⟨h.1, Nat.lt_of_lt_of_le h.2 hy.frame.next⟩
    · exact (hy.ids j hj).imp .inr fun h => ⟨Nat.le_trans hx.frame.next h.1, h.2⟩
  · refine Sites.Distinct.append_iff.2 ⟨hx.distinct, hy.distinct, fun j hj hj' => ?_⟩
    obtain hjy | hjy := hy.ids j hj'
    · exact (hleft j hj).1 hjy
    · exact Nat.not_lt.2 hjy.1 (hleft j hj).2
  · simp only [Sites.names_append, List.mem_append, hx.names, hy.names]
    tauto
  · refine Sites.placed_append.2 ⟨?_, hy.placed⟩
    exact hy.frame.placed hx.placed (hx.frame.openedBy_self hopen) (hx.not_mem_ids hi.1 hlt) hleft

theorem hoist (hx : Effect s p xs p' ys []) :
    Effect s p (.hoist xs .nil) p' (.hoist ys .nil) [] where
  frame := hx.frame.mono fun i hi => by simp [hi]
  ids i hi := by
    have hi : i ∈ ys.ids := by simpa [Sites.ids, Sites.nodes] using hi
    simpa [Sites.ids, Sites.nodes] using hx.ids i hi
  distinct := by
    refine ⟨?_, ?_⟩
    · simpa [Sites.ids, Sites.nodes] using hx.distinct.nodup
    · simpa [Sites.owners] using hx.distinct.owned
  names own far x := by simpa using hx.names far far x
  placed := ⟨hx.placed, trivial⟩

theorem placedScope (ws : Sites) (hx : Effect c p xs p' ys ds) (hopen : p.table.Opens s k n c sc)
    (hn : n.mark.id = some j) (hj : j ∉ xs.ids) (hlt : j < p.nextNode)
    (hsame : Sites.SameNames sc (ws ++ xs))
    (hws : ws.Placed (fun _ sc inner => Sites.SameNames sc inner) p'.table c) :
    (Sites.scope k n (ws ++ ys) .nil).Placed (fun _ sc inner => Sites.SameNames sc inner)
      p'.table s := by
  obtain ⟨sc', hsc', hkind, hnode, hparent, hnames⟩ := hx.frame.self sc hopen.scope
  have hown : p'.table.scopeOf? n.mark = some c := by
    rw [hx.frame.owners n.mark fun i hi => ?_, hopen.owner]
    cases hn.symm.trans hi
    exact ⟨hj, hlt⟩
  refine ⟨⟨c, sc', ⟨hown, hsc', hkind.trans hopen.kind, hnode.trans hopen.node,
    hparent.trans hopen.parent⟩, fun x => ?_, Sites.placed_append.2 ⟨hws, hx.placed⟩⟩, trivial⟩
  rw [hnames, hsame, hkind, Sites.names_append, Sites.names_append, List.mem_append,
    List.mem_append, hx.names]
  simp [or_assoc]

theorem distinctScope (ws : Sites) (hx : Effect c p xs p' ys ds) (hn : n.mark.id = some j)
    (hj : j ∉ xs.ids) (hlt : j < p.nextNode) (hws : ws.ids = []) (hwo : ws.owners = []) :
    (Sites.scope k n (ws ++ ys) .nil).Distinct := by
  refine ⟨?_, ?_⟩
  · simp only [Sites.ids_scope, hn, Sites.ids_append, hws, Option.toList_some, List.nil_append,
      List.singleton_append, List.nodup_cons, List.mem_append, List.nodup_append']
    have hnil : Sites.nil.ids = [] := rfl
    simpa [hnil] using ⟨hx.not_mem_ids hj hlt, hx.distinct.nodup⟩
  · simpa [Sites.owners, hwo, hn] using hx.distinct.owned

theorem scope (hr : Ready N p s (.scope k n xs .nil)) (hopen : p.table.Opens s k n c sc)
    (hex : Sites.Exact sc xs) (hx : Effect c p xs p' ys ds) :
    Effect s p (.scope k n xs .nil) p' (.scope k n ys .nil) [] := by
  obtain ⟨i, hs, hi, hlt⟩ := hr.around
  obtain ⟨j, hj, hjx, -, -, -, -⟩ := hr.distinct.scope
  have hjlt : j < p.nextNode := hr.lt_next j (by simp [hj])
  refine ⟨?_, fun l hl => ?_, hx.distinctScope .nil hj hjx hjlt rfl rfl, fun own far x => ?_,
    hx.placedScope .nil hopen hj hjx hjlt hex.sameNames trivial⟩
  · exact (PassState.Frame.refl p s _).inside hx.frame (fun l hl => by simp [hl])
      (hopen.openedBy hj) (.inl (by simp [hj])) hs hi hlt
  · simp only [Sites.ids_scope, List.mem_append] at hl ⊢
    obtain hl | hl | hl := hl
    · exact .inl (.inl hl)
    · exact (hx.ids l hl).imp (fun h => .inr (.inl h)) id
    · cases hl
  · by_cases hk : k = .function
    · simp [hk]
    · simpa [hk] using hx.names false far x

theorem plain (hf : p.Frame p' s xs.ids ds) (hids : ys.ids = []) (hown : ys.owners = [])
    (hx : ∀ own far, xs.names own far = [])
    (hn : ∀ own far x, x ∈ ys.names own far ↔ own = true ∧ x ∈ ds)
    (hp : ys.Placed (fun _ sc inner => Sites.SameNames sc inner) p'.table s) :
    Effect s p xs p' ys ds where
  frame := hf
  ids i hi := by simp [hids] at hi
  distinct := ⟨by simp [hids], by simp [hown]⟩
  names own far x := by simp [hx, hn]
  placed := hp

end Effect

theorem Site.decl?_of_isPlain {x : Site} (h : x.isPlain = true) : x.decl? = none := by
  cases x with
  | node | use => rfl
  | bind | label | call | share | stray => cases h

theorem Sites.names_ofList {l : List Site} (h : ∀ x ∈ l, x.isPlain = true) (own far : Bool) :
    (ofList l).names own far = [] := by
  induction l with
  | nil => rfl
  | cons x l ih =>
    simp [ofList, Site.decl?_of_isPlain (h x (by simp)), ih fun y hy => h y (by simp [hy])]

theorem Table.scopeOf?_of_id {t : Table} (h : m.id = none) : t.scopeOf? m = none := by
  simp [scopeOf?, h]

namespace Effect

open Sites (Ready)

variable {N : Nat} {s : ScopeId} {p p' p₁ p₂ : PassState} {xs ys : Sites} {ds : List Text}
  {o : Options}

theorem drop (hx : x.isPlain = true) : Effect s p (.site x .nil) p .nil [] :=
  plain (.refl p s _) rfl rfl (by simp [Site.decl?_of_isPlain hx]) (by simp) trivial

theorem add (hx : x.isPlain = true) (hn : ∀ n ∈ x.nodes, n.mark.id = none) :
    Effect s p .nil p (.site x .nil) [] := by
  refine plain (.refl p s _) ?_ ?_ (by simp) (by simp [Site.decl?_of_isPlain hx]) ⟨?_, trivial⟩
  · simpa [Sites.ids, Sites.nodes] using hn
  · cases x with
    | node | use => rfl
    | bind | label | call | share | stray => cases hx
  · cases x with
    | node | use => exact fun n hmem => Table.scopeOf?_of_id (hn n hmem)
    | bind | label | call | share | stray => cases hx

theorem swap (hr : Ready N p s (.site x .nil)) (hm : y.nodes.map (·.mark) = x.nodes.map (·.mark))
    (hxy : x.owners = [] ∧ y.owners = []) (hd : x.decl? = none ∧ y.decl? = none)
    (hp : x.Placed p.table s → y.Placed p.table s) :
    Effect s p (.site x .nil) p (.site y .nil) [] := by
  have hids : (Sites.site y .nil).ids = (Sites.site x .nil).ids := by
    have := congrArg (List.filterMap Mark.id) hm
    simpa [Sites.ids, Sites.nodes, List.filterMap_map, Function.comp_def] using this
  refine ⟨.refl p s _, fun i hi => .inl (hids ▸ hi), ⟨hids ▸ hr.distinct.nodup, ?_⟩, ?_,
    ⟨hp hr.placed.1, trivial⟩⟩
  · simp [Sites.owners, hxy]
  · simp [hd]

theorem share (span : Span) :
    Effect s p .nil (p.marked (p.table.bind (p.newMark span) s))
      (.site (.share (p.newMark span)) .nil) [] := by
  have hid : (Sites.site (.share (p.newMark span)) .nil).ids = [p.nextNode] := rfl
  refine ⟨.bind p s s _ span, fun i hi => ?_, ⟨by simp [hid], ?_⟩, by simp [Site.decl?],
    ⟨?_, trivial⟩⟩
  · rw [hid, List.mem_singleton] at hi
    exact .inr ⟨Nat.le_of_eq hi.symm, hi ▸ Nat.lt_succ_self _⟩
  · simp [Sites.owners, Site.owners, PassState.newMark]
  · exact (Table.scopeOf?_bind _ _ _ _).trans (if_pos ⟨rfl, rfl⟩)

theorem call (hx : Effect s p xs p' ys ds) (f : Ident) (m : Mark) (q : Ident) :
    Effect s p xs p' (.site (.call f m q) ys) ds where
  frame := hx.frame
  ids i hi := hx.ids i hi
  distinct := ⟨hx.distinct.nodup, hx.distinct.owned⟩
  names own far x := by simpa [Site.decl?] using hx.names own far x
  placed := ⟨fun _ hn => (nomatch hn), hx.placed⟩

theorem state (hpre : ∀ x ∈ pre, x.isPlain = true)
    (hy : Yields (declareState target s span) p b p') (hm : modifier.name = b.modifier.name)
    (hi : modifier.mark.id = none) :
    Effect s p (.site (.label l body) (.ofList pre)) p'
      (.site (.bind .const b.ident) (.site (.bind .const modifier) .nil))
      [target.name, modifier.name] := by
  obtain ⟨name, -, rfl, rfl⟩ := yields_declareState hy
  have hid : (Ident.ofName target.name target.mark.span).mark.id = none := rfl
  refine plain ?_ ?_ rfl ?_ ?_ ⟨?_, ?_, trivial⟩
  · refine .congr_names (.trans (.declare p s _ name .generated _)
      (.trans (.declare _ s _ target.name .reactive _) (.of_table rfl rfl))) ?_
    simp only [hm, Ident.ofName, List.mem_append, List.mem_cons, List.not_mem_nil, or_false]
    tauto
  · simp [Sites.ids, Sites.nodes, Site.nodes, Node.ofIdent, hid, hi]
  · simp [Site.decl?, Sites.names_ofList hpre]
  · intro own far x
    cases own <;> simp [Site.decl?, Ident.ofName]
  · exact List.forall_mem_singleton.2 (Table.scopeOf?_of_id hid)
  · exact List.forall_mem_singleton.2 (Table.scopeOf?_of_id hi)

theorem memo {ident target : Ident} (hr : Ready N p s xs) (hn : ident.name = target.name)
    (hi : ident.mark.id = none) (hx : Effect s p xs p' ys ds) :
    Effect s p xs { p' with table := p'.table.declare s target.name .const (some ident) }
      (.site (.bind .const ident) ys) (ds ++ [target.name]) where
  frame := hx.frame.trans (.declare p' s _ _ _ _)
  ids i hmem := by
    refine hx.ids i ?_
    simpa [Site.ids, Site.nodes, Node.ofIdent, hi] using hmem
  distinct := by
    refine ⟨?_, ?_⟩
    · simpa [Site.ids, Site.nodes, Node.ofIdent, hi] using hx.distinct.nodup
    · simpa [Sites.owners, Site.owners] using hx.distinct.owned
  names own far x := by
    have := hx.names own far x
    cases own <;> simp_all [Site.decl?]
    tauto
  placed := by
    obtain ⟨j, hs, hj, hlt⟩ := hr.around
    refine ⟨List.forall_mem_singleton.2 (Table.scopeOf?_of_id hi), ?_⟩
    exact (PassState.Frame.declare p' s [] target.name .const (some ident)).placed hx.placed
      (hx.frame.openedBy_self hs) (hx.not_mem_ids hj hlt)
      fun l hl => ⟨List.not_mem_nil, hx.lt_next hr l hl⟩

end Effect

theorem Scope.mem_names_removeKind_declareAll {sc : Scope} {ds : List Declaration}
    (h : ∀ d ∈ ds, d.kind ≠ k) :
    x ∈ ((sc.declareAll ds).removeKind k).declared.map (·.name) ↔
      x ∈ (sc.removeKind k).declared.map (·.name) ∨ x ∈ ds.map (·.name) := by
  induction ds generalizing sc with
  | nil => simp
  | cons d ds ih =>
    rw [List.forall_mem_cons] at h
    have hd : x ∈ ((sc.declare d).removeKind k).declared.map (·.name) ↔
        x ∈ (sc.removeKind k).declared.map (·.name) ∨ x = d.name := by
      simp only [removeKind, declare, List.filter_append, List.map_append, List.mem_append,
        List.mem_map, List.mem_filter]
      grind
    rw [declareAll, List.foldl_cons, ← declareAll, ih h.2, hd, List.map_cons, List.mem_cons,
      or_assoc]

theorem Scope.removeKind_declareAll {sc : Scope} {ds : List Declaration}
    (hsc : ∀ d ∈ sc.declared, d.kind = k) (h : ∀ d ∈ ds, d.kind = k) :
    ((sc.declareAll ds).removeKind k).declared = [] := by
  induction ds generalizing sc with
  | nil => simpa [removeKind] using hsc
  | cons d ds ih =>
    rw [List.forall_mem_cons] at h
    refine @ih (sc.declare d) ?_ h.2
    simp only [declare, List.mem_append, List.mem_filter, List.mem_singleton]
    rintro e (he | rfl)
    · exact hsc e he.1
    · exact h.1

namespace Sites

theorem decls_params (ps : List Ident) (far : Bool) :
    (ofList (ps.map (.bind .param))).decls true far = ps.map fun i => ⟨i.name, .param, some i⟩ := by
  induction ps with
  | nil => rfl
  | cons i ps ih => simp [ofList, decls, Site.decl?, ih]

theorem Exact.sameNames_removeKind {sc : Scope} {ps : List Ident} {inner : Body}
    (h : Exact sc (ofList (ps.map (.bind .param)) ++ inner.sites)) (n : Option Node) :
    SameNames ({ sc with node := n : Scope }.removeKind .param) inner.sites := by
  intro x
  rw [Exact, decls_append, decls_params, Scope.declareAll_append] at h
  have hkind : ({ sc with node := n : Scope }.removeKind .param).kind = sc.kind := rfl
  have hdecl : ({ sc with node := n : Scope }.removeKind .param).declared =
      (sc.removeKind .param).declared := rfl
  rw [hkind, hdecl, h, Scope.mem_names_removeKind_declareAll (inner.declares true _)]
  rw [Scope.removeKind_declareAll (by simp) (by simp)]
  simp [names]

end Sites

namespace Sites.Ready

variable {N : Nat} {p p₁ : PassState} {s i : ScopeId} {n : Node} {m : Mark}

theorem ofWatch {ps : List Ident} {inner : Body}
    (hr : Ready N p s (.scope .function n (.ofList (ps.map (.bind .param)) ++ inner.sites) .nil))
    (hy : Yields (openWatcher n.mark span s) p (m, i) p₁) :
    m = p.newMark span ∧ p₁ = p.marked (p.table.watched n.mark m i) ∧ Ready N p₁ i inner.sites ∧
    ∃ sc j, p.table.Opens s .function n i sc ∧ n.mark.id = some j ∧
      Exact sc (.ofList (ps.map (.bind .param)) ++ inner.sites) := by
  obtain ⟨c, sc, j, hopen, hex, hj, hjx, -, hin⟩ := hr.ofScope
  obtain ⟨rfl, rfl, rfl⟩ := yields_openWatcher hopen.owner hy
  refine ⟨rfl, rfl, ?_, sc, j, hopen, hj, hex⟩
  have hin := hin.right
  obtain ⟨l, hs, hl, hlt⟩ := hr.around
  simp only [ids_scope, ids_append, List.mem_append, not_or] at hl hjx
  have hlj : l ∉ [j] := by simpa [hj] using hl.1
  have hf := PassState.Frame.watched p hopen.owner hj List.mem_cons_self (hopen.openedBy hj) hs hlj
    span
  refine ⟨hf.placed hin.placed hs hl.2.1.2 ?_, hin.distinct, hin.memberFree, hin.old,
    Nat.le_trans hin.bound hf.next, p.nextNode, (hopen.watched rfl).openedBy rfl,
    hin.next_not_mem, Nat.lt_succ_self _⟩
  · intro a ha
    refine ⟨?_, hin.lt_next a ha⟩
    rintro hmem
    obtain rfl := List.mem_singleton.1 hmem
    exact hjx.2 ha

theorem ofCallback (hr : Ready N p s e.sites) (hy : Yields (openCallback b q e s span) p c p₁) :
    c = ⟨b, p.newMark span, q, p.table.scopes.length⟩ ∧ Ready N p₁ p.table.scopes.length e.sites ∧
    ∃ t cs, p₁ = p.marked t ∧ p.table.Wraps t (p.newMark span) q s e.sites cs := by
  obtain ⟨rfl, rfl⟩ := yields_openCallback hy
  obtain ⟨i, hs, hi, hlt⟩ := hr.around
  have hnew := hr.next_not_mem
  obtain ⟨cs, hw⟩ : ∃ cs, p.table.Wraps (p.table.wrapped (p.newMark span) q e.outline s)
      (p.newMark span) q s e.sites cs :=
    Table.wraps_wrapped hr.placed hr.distinct hs hi rfl hnew
  refine ⟨rfl, ⟨hw.placed, hr.distinct, hr.memberFree, hr.old, Nat.le_succ_of_le hr.bound,
    p.nextNode, ⟨_, _, (hw.scopes _).trans (if_pos rfl), rfl, rfl⟩, hnew, Nat.lt_succ_self _⟩,
    _, cs, rfl, hw⟩

end Sites.Ready

namespace Effect

open Sites (Ready)

variable {N : Nat} {s : ScopeId} {p p' p₁ p₂ : PassState} {xs ys : Sites} {ds : List Text}
  {n : Node} {m : Mark} {i : ScopeId}

theorem watch {ps : List Ident} {inner : Body} (hpre : ∀ x ∈ pre, x.isPlain = true)
    (hr : Ready N p s (.site (.label l body) (.ofList pre ++ .scope .function n
      (.ofList (ps.map (.bind .param)) ++ inner.sites) .nil)))
    (hy : Yields (openWatcher n.mark span s) p (m, i) p₁)
    (hx : Effect i p₁ inner.sites p₂ ys ds) :
    Effect s p (.site (.label l body) (.ofList pre ++ .scope .function n
      (.ofList (ps.map (.bind .param)) ++ inner.sites) .nil)) p₂
      (.scope .function ⟨.arrowFunc, m, []⟩ ys .nil) [] := by
  have hscope := hr.underLabel
  obtain ⟨rfl, rfl, hin, sc, j, hopen, hj, hex⟩ := hscope.ofWatch hy
  obtain ⟨a, hs, ha, hlt⟩ := hr.around
  have hnew : p.nextNode ∉ inner.sites.ids := fun hmem => hscope.next_not_mem (by simp [hmem])
  have hopen' := hopen.watched (m := p.newMark span) rfl
  have hframe := PassState.Frame.watched p hopen.owner hj (by simp [hj]) (hopen.openedBy hj) hs ha
    span
  have hnext : p.nextNode + 1 ≤ p₂.nextNode := hx.frame.next
  refine ⟨hframe.inside hx.frame (fun b hb => by simp [hb]) (hopen'.openedBy rfl)
    (.inr (Nat.le_refl _)) hs ha hlt, fun b hb => ?_,
    hx.distinctScope .nil rfl hnew (Nat.lt_succ_self _) rfl rfl, fun own far x => ?_,
    hx.placedScope .nil hopen' rfl hnew (Nat.lt_succ_self _) ?_ trivial⟩
  · simp only [Sites.ids_scope, List.mem_append] at hb
    obtain hb | hb | hb := hb
    · obtain rfl : b = p.nextNode := by simpa [PassState.newMark] using hb
      exact .inr ⟨Nat.le_refl _, hnext⟩
    · obtain hb | hb := hx.ids b hb
      · exact .inl (by simp [hb])
      · exact .inr ⟨Nat.le_trans (Nat.le_succ _) hb.1, hb.2⟩
    · cases hb
  · simp [Site.decl?, Sites.names_ofList hpre]
  · exact hex.sameNames_removeKind _

theorem callback {e : Expr} (hr : Ready N p s e.sites)
    (hy : Yields (openCallback b q e s span) p c p₁) (hq : q.mark.id = none)
    (hx : Effect c.scope p₁ e.sites p₂ ys []) (hi : f.mark.id = none) :
    Effect s p e.sites p₂ (.site (.call f c.mark q) (.site (.use f)
      (.scope .function ⟨.arrowFunc, c.mark, []⟩ (.site (.bind .param q) ys) .nil))) [] := by
  obtain ⟨rfl, hin, t, cs, rfl, hw⟩ := hr.ofCallback hy
  obtain ⟨a, hs, ha, hlt⟩ := hr.around
  have hnew := hr.next_not_mem
  have hopen : t.Opens s .function ⟨.arrowFunc, p.newMark span, []⟩ p.table.scopes.length
      (Table.callbackScope (p.newMark span) q s) :=
    ⟨(hw.owner _).trans (if_pos ⟨rfl, rfl⟩), (hw.scopes _).trans (if_pos rfl), rfl, rfl, rfl⟩
  have hnext : p.nextNode + 1 ≤ p₂.nextNode := hx.frame.next
  have hws : (Sites.site (.bind .param q) .nil).ids = [] := by
    simp [Sites.ids, Sites.nodes, Site.nodes, Node.ofIdent, hq]
  have hplain : Effect s p e.sites p₂ (.scope .function ⟨.arrowFunc, p.newMark span, []⟩
      (.site (.bind .param q) ys) .nil) [] := by
    refine ⟨(PassState.Frame.wrapped hw hs ha).inside hx.frame (fun _ h => h) (hopen.openedBy rfl)
      (.inr (Nat.le_refl _)) hs ha hlt, fun b hb => ?_,
      hx.distinctScope (.site (.bind .param q) .nil) rfl hnew (Nat.lt_succ_self _) hws rfl,
      fun own far x => ?_,
      hx.placedScope (.site (.bind .param q) .nil) hopen rfl hnew (Nat.lt_succ_self _) ?_
        ⟨?_, trivial⟩⟩
    · simp only [Sites.ids_scope, List.mem_append] at hb
      obtain hb | hb | hb := hb
      · obtain rfl : b = p.nextNode := by simpa [PassState.newMark] using hb
        exact .inr ⟨Nat.le_refl _, hnext⟩
      · have hb : b ∈ ys.ids := by
          simpa [Site.ids, Site.nodes, Node.ofIdent, hq] using hb
        exact (hx.ids b hb).imp id fun h => ⟨Nat.le_trans (Nat.le_succ _) h.1, h.2⟩
      · cases hb
    · simp [e.inert.names]
    · intro x
      simp [Table.callbackScope, e.inert.names, Site.decl?]
    · exact List.forall_mem_singleton.2 (Table.scopeOf?_of_id hq)
  have huse : Effect s p .nil p (.site (.use f) .nil) [] := by
    refine add rfl (by simpa [Site.nodes, Node.ofIdent] using hi)
  exact .call (.append (show Ready N p s (.nil ++ e.sites) from hr) huse hplain) f _ q

end Effect

theorem Rewrites.effect (h : Rewrites o s p xs ps p' ys qs ds) (hr : xs.Ready N p s) :
    Effect s p xs p' ys ds := by
  -- by induction on the rewriting; the frame of one part keeps the next part ready
  induction h with
  | keep | hide => exact .keep hr
  | part _ _ _ ih | recast _ _ _ ih => exact ih hr
  | miss _ _ _ _ ih => exact .append hr.split (.keep hr.split.left) (ih hr.split.right)
  | append _ _ ihx ihy =>
    have hx := ihx hr.left
    exact .append hr hx (ihy (hr.next hx.frame))
  | hoist _ ih => exact .hoist (ih hr.ofHoist)
  | scope _ ih =>
    obtain ⟨c, sc, j, hopen, hex, -, -, -, hin⟩ := hr.ofScope
    rw [hopen.owner] at ih
    exact .scope hr hopen hex (ih hin)
  | drop hx => exact .drop hx
  | add hx hn => exact .add hx hn
  | renode hm =>
    refine .swap hr (by simpa [Site.nodes] using hm) ⟨rfl, rfl⟩ ⟨rfl, rfl⟩ fun hp => ?_
    exact List.forall_mem_singleton.2 (hm ▸ hp _ List.mem_cons_self)
  | relabel _ => exact .swap hr rfl ⟨rfl, rfl⟩ ⟨rfl, rfl⟩ id
  | stray hx => cases hx.symm.trans (hr.memberFree _ List.mem_cons_self)
  | call _ _ _ ih => exact (ih hr).call _ _ _
  | note h => exact .plain (.of_table h.table h.nextNode) rfl rfl (by simp) (by simp) trivial
  | share => exact .share _
  | state _ hpre hy hm hi => exact .state hpre hy hm hi
  | memo _ hn hi _ ih => exact .memo hr hn hi (ih hr)
  | watch _ hpre hy _ _ ih =>
    have hscope := hr.underLabel
    exact .watch hpre hr hy (ih (hscope.ofWatch hy).2.2.1)
  | callback _ hy hq _ _ hi _ _ _ ih =>
    have hin := hr.ofCallback hy
    exact .callback hr hy hq (ih (hin.1 ▸ hin.2.1)) hi

end LabelHooks
