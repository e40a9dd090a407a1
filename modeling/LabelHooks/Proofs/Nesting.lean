import LabelHooks.Proofs.Callbacks
import LabelHooks.Proofs.Counts
import LabelHooks.Proofs.FixedPoint

/-!
No update is nested in itself. Inside the callback of a call of a modifier, the name of the state is
the parameter of the callback or something closer, and no call of the same modifier stands there.
-/

namespace LabelHooks
set_option autoImplicit true

open Pass
open Parts (above)

namespace Part

def callee? (x : Part) : Option Text :=
  match x.call? with
  | some (.name f, _) => some f
  | _ => none

/-- The parts inside the arrow functions that a call passes. -/
def passed : Part → List Part
  | .expr (.call _ _ as _) => as.flatMap fun
    | .arrow _ _ _ body => body.parts.flat
    | _ => []
  | _ => []

def root? : Part → Option Ident
  | .expr (.assign _ _ target _) | .expr (.update _ _ _ target) => target.rootIdent?
  | _ => none

end Part

theorem Expr.use_of_rootIdent? {e : Expr} (h : e.rootIdent? = some j) (t : Table) (r : ScopeId) :
    (r, .use j) ∈ e.sites.placed t r := by
  fun_induction Expr.rootIdent? e with
  | case1 i =>
    cases h
    exact List.mem_cons_self
  | case2 m x prop computed optional ih =>
    refine List.mem_cons_of_mem _ ?_
    rw [Sites.placed_eq_append]
    exact List.mem_append_left _ (ih h)
  | case3 => cases h

theorem Part.use_of_root? {x : Part} (h : x.root? = some j) :
    x.isRigid = true ∧ ∀ (t : Table) (r : ScopeId), (r, .use j) ∈ x.sites.placed t r := by
  cases x with
  | stmt s => cases h
  | expr e =>
    cases e with
    | assign m op target y =>
      refine ⟨rfl, fun t r => List.mem_cons_of_mem _ ?_⟩
      rw [Sites.placed_eq_append]
      exact List.mem_append_left _ (Expr.use_of_rootIdent? h t r)
    | update m op before target =>
      exact ⟨rfl, fun t r => List.mem_cons_of_mem _ (Expr.use_of_rootIdent? h t r)⟩
    | _ => cases h

/-- The functions that the pass calls. -/
def Options.factories (o : Options) : List Text := [o.stateFactory, o.effectFactory, o.memoFactory]

namespace Pass

variable {y : Part} {f : Text}

theorem face_of_callee? {m : Mark} {c : Expr} {as : List Expr} {optional : Bool}
    (h : (Part.expr (.call m c as optional)).callee? = some f) : c.face = .name f := by
  simp only [Part.callee?, Part.call?] at h
  split at h
  · next heq =>
    cases h
    exact (Prod.mk.inj (Option.some.inj heq)).1
  · cases h

theorem callee?_of_isWord (h : y.isWord = true) : y.callee? = none := by
  rw [Part.callee?, Part.call?_of_isWord h]

theorem callee?_factory (h : y ∈ ((factory path span).parts true).flat) : y.callee? = none := by
  rw [Part.callee?, Expr.call?_factory path span y h]

theorem mem_call {c : Callback} (hy : y ∈ ((c.call body).parts true).flat)
    (hf : y.callee? = some f) : y = .expr (c.call body) ∨ y ∈ body.parts.flat := by
  simp only [Callback.call, Expr.callOf, Expr.ofName, Expr.parts, Expr.partsList, Parts.when,
    Parts.flat_above, Parts.flat_append, Parts.flat, List.mem_cons, List.mem_append,
    List.not_mem_nil, or_false] at hy
  obtain rfl | rfl | rfl | rfl | hy := hy
  · exact .inl rfl
  · cases hf
  · cases hf
  · cases hf
  · exact .inr hy

theorem mem_updated (hy : y ∈ ((updated m op i right).parts true).flat) (hf : y.callee? = some f) :
    y ∈ (right.parts true).flat := by
  unfold updated at hy
  cases hop : op.binary? with
  | none => rwa [hop] at hy
  | some b =>
    rw [hop] at hy
    simp only [Expr.ofName, Expr.parts, Parts.when, Parts.flat_above, Parts.flat_append, Parts.flat,
      List.mem_cons, List.mem_append, List.not_mem_nil, or_false] at hy
    obtain rfl | rfl | hy := hy
    · cases hf
    · cases hf
    · exact hy

theorem callee?_stepped (hy : y ∈ ((stepped m op i).parts true).flat) : y.callee? = none := by
  simp only [stepped, Expr.ofName, Expr.parts, Parts.when, Parts.flat_above, Parts.flat_append,
    Parts.flat, List.mem_cons, List.mem_append, List.not_mem_nil, or_false] at hy
  obtain rfl | rfl | rfl := hy <;> rfl

theorem mem_stateDecl {o : Options} {m am : Mark} {target : Ident} {b : Reactive}
    (hy : y ∈ (stateDecl o m am target b init).parts.flat) (hf : y.callee? = some f) :
    (factory o.stateFactory m.span).face = .name f ∨ y ∈ (init.parts true).flat := by
  simp only [stateDecl, Stmt.parts, VarDecl.const, VarDecl.parts, Declarator.partsList, Expr.parts?,
    Expr.callOf, Expr.ofName, Expr.parts, Expr.partsList, Parts.when, Parts.flat_above,
    Parts.flat_append, Parts.flat, List.mem_cons, List.mem_append, List.not_mem_nil, or_false] at hy
  obtain rfl | (rfl | rfl | rfl) | rfl | hy | hy := hy
  · cases hf
  · cases hf
  · cases hf
  · cases hf
  · exact .inl (face_of_callee? hf)
  · cases (callee?_factory hy).symm.trans hf
  · exact .inr hy

theorem mem_watchCall {path : Text} {m k : Mark} {body : Body} {is : List Ident}
    (hy : y ∈ ((watchCall path m k body is span callSpan).parts true).flat)
    (hf : y.callee? = some f) : (factory path m.span).face = .name f ∨ y ∈ body.parts.flat := by
  simp only [watchCall, Expr.callOf, Expr.parts, Expr.partsList, Parts.when, Parts.flat_above,
    Parts.flat_append, Parts.flat, List.mem_cons, List.mem_append, List.not_mem_nil, or_false,
    false_or] at hy
  obtain rfl | hy | (rfl | hy) | rfl | hy := hy
  · exact .inl (face_of_callee? hf)
  · cases (callee?_factory hy).symm.trans hf
  · cases hf
  · exact .inr hy
  · cases hf
  · cases (callee?_of_isWord (Expr.isWord_of_names hy)).symm.trans hf

end Pass

theorem Part.exists_of_callee? {x : Part} (h : x.callee? = some f) :
    ∃ m i as optional, x = .expr (.call m (.ident i) as optional) ∧ i.name = f := by
  cases x with
  | stmt s => cases h
  | expr e =>
    cases e with
    | call m c as optional =>
      obtain ⟨i, rfl, rfl⟩ := Expr.ident_of_face (face_of_callee? h)
      exact ⟨m, i, as, optional, rfl, rfl⟩
    | _ => cases h

theorem Options.isPath_of_mem (h : Options.validate o = .ok ()) (hpath : path ∈ o.factories) :
    Options.isPath path = true := by
  obtain ⟨-, hs, he, hm⟩ := words_of_validate h
  simp only [factories, List.mem_cons, List.not_mem_nil, or_false] at hpath
  obtain rfl | rfl | rfl := hpath
  · exact hs
  · exact he
  · exact hm

/-- What is called in part `y` was called in one of `ps`, or it is one of the functions of the
options, or `y` is what a mutation of a state has become. -/
def Parts.Calls (o : Options) (ps : Parts) (r : Expansions) (y : Part) (f : Text) : Prop :=
  (∃ x ∈ ps.flat, x.callee? = some f) ∨
    (∃ path ∈ o.factories, ∃ span, (factory path span).face = .name f) ∨
    ∃ c body, c.binding ∈ r.bindings ∧ c.param.name = c.binding.name ∧
      y = .expr (Callback.call c body)

theorem Parts.Calls.mono (h : Parts.Calls o ps r y f) (hps : ∀ x ∈ ps.flat, x ∈ ps'.flat)
    (hr : ∀ b ∈ r.bindings, b ∈ Expansions.bindings r') : Parts.Calls o ps' r' y f := by
  obtain ⟨x, hx, hf⟩ | h | ⟨c, body, hb, hq, hy⟩ := h
  · exact .inl ⟨x, hps x hx, hf⟩
  · exact .inr (.inl h)
  · exact .inr (.inr ⟨c, body, hr _ hb, hq, hy⟩)

theorem Expands.calls (h : Expands o r ps r' qs) {y : Part} (hy : y ∈ qs.flat)
    (hf : y.callee? = some f) : ps.Calls o r' y f := by
  induction h with
  | nil => cases hy
  | skip => exact .inl ⟨y, hy, hf⟩
  | append hx hy' ihx ihy =>
    rw [Parts.flat_append, List.mem_append] at hy
    obtain hy | hy := hy
    · exact (ihx hy).mono (by simp +contextual) hy'.bindings_subset
    · exact (ihy hy).mono (by simp +contextual) fun _ h => h
  | part hc _ _ _ ih =>
    rw [Parts.flat_above, List.mem_cons] at hy
    obtain rfl | hy := hy
    · exact .inl ⟨_, List.mem_cons_self, by rwa [Part.callee?, ← hc]⟩
    · exact (ih hy).mono (by simp +contextual) fun _ h => h
  | assign hb hq h ih =>
    obtain rfl | hy := mem_call hy hf
    · exact .inr (.inr ⟨_, _, h.bindings_subset _ hb, hq, rfl⟩)
    · exact (ih (mem_updated hy hf)).mono
        (by simp +contextual [Expr.parts, Parts.when, Parts.flat]) fun _ h => h
  | step hb hq =>
    obtain rfl | hy := mem_call hy hf
    · exact .inr (.inr ⟨_, _, hb, hq, rfl⟩)
    · cases (callee?_stepped hy).symm.trans hf
  | wrap hb hq h ih =>
    obtain rfl | hy := mem_call hy hf
    · exact .inr (.inr ⟨_, _, h.bindings_subset _ hb, hq, rfl⟩)
    · simp only [Body.parts, Block.parts, Stmt.partsList, Stmt.parts, Parts.append_nil,
        Parts.flat_above, List.mem_cons] at hy
      obtain rfl | hy := hy
      · cases hf
      · exact ih hy
  | state hl hface h ih =>
    obtain hface | hy := mem_stateDecl hy hf
    · exact .inr (.inl ⟨_, by simp [Options.factories], _, hface⟩)
    · exact (ih hy).mono (by simp +contextual [Stmt.parts, Expr.parts, Parts.when, Parts.flat])
        fun _ h => h
  | effect hl hx _ h ih =>
    rw [Stmt.parts, Parts.flat_above, List.mem_cons] at hy
    obtain rfl | hy := hy
    · cases hf
    obtain hface | hy := mem_watchCall hy hf
    · exact .inr (.inl ⟨_, by simp [Options.factories], _, hface⟩)
    · refine (ih hy).mono ?_ fun _ h => h
      simp +contextual [Stmt.parts, Expr.parts_of_anonymous hx]
  | memo hl hx _ h ih =>
    simp only [Stmt.parts, VarDecl.const, VarDecl.parts, Declarator.partsList, Expr.parts?,
      Parts.append_nil, Parts.flat_above, Parts.flat_append, List.mem_cons, List.mem_append] at hy
    obtain rfl | hy | hy := hy
    · cases hf
    · obtain rfl := List.mem_singleton.1 hy
      cases hf
    obtain hface | hy := mem_watchCall hy hf
    · exact .inr (.inl ⟨_, by simp [Options.factories], _, hface⟩)
    · refine (ih hy).mono ?_ fun _ h => h
      simp +contextual [Stmt.parts, Expr.parts, Parts.when, Parts.flat, Expr.parts_of_anonymous hx]

theorem Site.isMember_of_isPlain {x : Site} (h : x.isPlain = true) : x.isMember = false := by
  cases x with
  | node | use => rfl
  | bind | label | call | share | stray => cases h

theorem Rewrites.memberFree (h : Rewrites o s p xs ps p' ys qs ds) (hm : xs.MemberFree) :
    ys.MemberFree := by
  induction h with
  | keep | hide => exact hm
  | part _ _ _ ih | recast _ _ _ ih => exact ih hm
  | append _ _ ihx ihy =>
    obtain ⟨hx, hy⟩ := Sites.memberFree_append.1 hm
    exact Sites.memberFree_append.2 ⟨ihx hx, ihy hy⟩
  | hoist _ ih | scope _ ih =>
    have hin := ih fun x hx => hm x (by simp [Sites.flat, hx])
    exact fun x hx => hin x (by simpa [Sites.flat] using hx)
  | drop | note => exact fun x hx => by cases hx
  | add hx => exact List.forall_mem_singleton.2 (Site.isMember_of_isPlain hx)
  | renode | relabel | share | state => simp [Sites.MemberFree, Sites.flat, Site.isMember]
  | stray hx => cases hx.symm.trans (hm _ List.mem_cons_self)
  | call _ _ _ ih => exact List.forall_mem_cons.2 ⟨rfl, ih hm⟩
  | memo _ _ _ _ ih => exact List.forall_mem_cons.2 ⟨rfl, ih hm⟩
  | watch _ _ _ _ _ ih =>
    have hin := ih fun x hx => hm x (by simp [Sites.flat, hx])
    exact fun x hx => hin x (by simpa [Sites.flat] using hx)
  | miss _ _ _ _ ih =>
    exact List.forall_mem_cons.2 ⟨rfl, ih fun x hx => hm x (List.mem_cons_of_mem _ hx)⟩
  | callback _ _ _ _ _ _ _ _ _ ih =>
    have hin := ih hm
    simp only [Sites.MemberFree, Sites.flat, List.append_nil, List.forall_mem_cons]
    exact ⟨rfl, rfl, rfl, hin⟩

namespace Program

variable {o : Options} {p : Program} {d : Desugared} {log : List LogRecord} {p' : PassState}
  {ds : List Text} {src : Text}

theorem Run.stands (h : p.Run o d p' ds) (hp : Program.parse src = .ok p)
    (hfree : p.sites.MemberFree) (hx : x ∈ d.program.parts.flat) (hr : x.isRigid = true) :
    Parts.Stands d.program.parts d.program.sites x := by
  apply Stmt.shownList d.program.body ?_ ?_ x hx hr
  · exact (h.rewrites.clears (visited_numbered (visited_of_parse hp))).1
  · exact h.rewrites.memberFree (memberFree_numbered hfree)

theorem Run.explains (h : p.Run o d p' ds) (hfree : p.sites.MemberFree)
    (hc : (r, .call f m q) ∈ d.program.sites.placed p'.table Table.root) :
    p.numbered.1.sites.Explains o p' d.program.sites r f m q := by
  have hr := ready_numbered hfree
  obtain ⟨sc, hsc, -, -, hparent, -⟩ := p.distinct_numbered.1.analysed.root
  have hclear : (start p.numbered).Clear p.numbered.1.sites.ids [Table.root] := by
    intro a ha
    obtain rfl := List.mem_singleton.1 ha
    exact hr.around
  exact h.rewrites.called hr (Sites.within_self o _) (.root hsc hparent) hclear hc

end Program

namespace Table

variable {t : Table} {s i a : ScopeId} {m l : List ScopeId} {x : Text}

theorem Path.lookup?_before (h : t.Path s (m ++ i :: l)) (hi : (t.own? i x).isSome) :
    ∃ S e, t.lookup? s x = some (S, e) ∧ t.encloses i S = true := by
  have hfound : (t.lookup? s x).isSome := by
    rw [lookup?_of_path h, along, List.findSome?_isSome_iff]
    exact ⟨i, by simp, by simpa using hi⟩
  obtain ⟨⟨S, e⟩, hS⟩ := Option.isSome_iff_exists.1 hfound
  refine ⟨S, e, hS, h.encloses_of_mem ?_⟩
  obtain ⟨l₁, l₂, heq, hnone⟩ := lookup?_split h hS
  obtain ⟨as, rfl, has⟩ | ⟨as, rfl, has⟩ := List.append_eq_append_iff.1 heq
  · cases as with
    | nil =>
      cases has
      simp
    | cons j as =>
      cases has
      rw [hnone i (by simp)] at hi
      cases hi
  · cases as with
    | nil =>
      cases has
      simp
    | cons j as =>
      cases has
      simp

end Table

namespace Pass.Callback

variable {body : Body} {y : Part}

theorem sites_call (c : Callback) (body : Body) :
    (c.call body).sites = .site (.node ⟨.callExpr, .ofSpan c.mark.span, []⟩)
      (.site (.call (.ofName c.binding.modifier.name c.mark.span) c.mark c.param)
        (.site (.use (.ofName c.binding.modifier.name c.mark.span))
          (.scope .function ⟨.arrowFunc, c.mark, []⟩ (.site (.bind .param c.param) body.sites)
            .nil))) := rfl

theorem holds_call (c : Callback) (h : t.scopeOf? c.mark = some i) :
    Sites.Holds t r (c.call body).sites i body.sites := by
  rw [sites_call]
  refine .site (.site (.site (.scope (.site ?_))))
  rw [h]
  exact .refl

theorem visited_of_call (c : Callback) (h : ((c.call body).parts true).Visited) :
    body.parts.Visited := by
  simp only [Callback.call, Expr.callOf, Expr.ofName, Expr.parts, Expr.partsList, Parts.when,
    Parts.visited_above, Parts.visited_append] at h
  exact h.2.1.2

theorem mem_parts_call (c : Callback) (h : y ∈ body.parts.flat) :
    y ∈ ((c.call body).parts true).flat := by
  simp [Callback.call, Expr.callOf, Expr.parts, Expr.partsList, Parts.when, Parts.flat, h]

end Pass.Callback

/-- A call of `c` on `body` that stands in scope `r` in the result of the pass: its callback has
scope `i`, where the body stands. -/
structure Nested (p : PassState) (program : Program) (c : Callback) (body : Body) (r i : ScopeId)
    (l : List ScopeId) : Prop where
  called : Called p program.sites r (.ofName c.binding.modifier.name c.mark.span) c.mark c.param
    c.binding i l
  inside : p.table.Path i (i :: l)
  placed : body.sites.Placed (fun _ sc inner => Sites.SameNames sc inner) p.table i
  holds : Sites.Holds p.table Table.root program.sites i body.sites
  shown : ∀ y ∈ body.parts.flat, y.isRigid = true → Parts.Stands body.parts body.sites y
  parts : ∀ y ∈ body.parts.flat, y ∈ program.parts.flat

namespace Nested

variable {p : PassState} {program : Program} {c c' : Callback} {body body' : Body}
  {r i r' i' : ScopeId} {l l' : List ScopeId}

theorem path (h : Nested p program c body r i l) (hz : Sites.Holds p.table i body.sites r' zs) :
    ∃ m, p.table.Path r' (m ++ i :: l) := hz.path h.placed h.inside

theorem apart (h : Nested p program c body r i l) (h' : Nested p program c' body' r' i' l')
    (hz : Sites.Holds p.table i body.sites r' (c'.call body').sites)
    (hname : c'.binding.name = c.binding.name) :
    c'.binding ≠ c.binding ∧ p.table.encloses i c'.binding.scope = true := by
  obtain ⟨m, hm⟩ := h.path hz
  obtain rfl := hm.unique h'.called.path
  have hnot := h'.called.clear m i l rfl (hname ▸ h.called.param)
  refine ⟨fun heq => hnot (heq ▸ h.called.around), ?_⟩
  have haround := h'.called.around
  rw [List.append_cons, List.mem_append] at haround
  exact hm.encloses_of_mem (haround.resolve_right hnot)

theorem lookup (h : Nested p program c body r i l)
    (hz : Sites.Holds p.table i body.sites r' zs) :
    ∃ S e, p.table.lookup? r' c.binding.name = some (S, e) ∧ p.table.encloses i S = true := by
  obtain ⟨m, hm⟩ := h.path hz
  obtain ⟨e, he, -⟩ := h.called.param
  exact hm.lookup?_before (by rw [he]; rfl)

end Nested

namespace Program

theorem Run.nested (h : p.Run o d p' ds) (hp : Program.parse src = .ok p)
    (hfree : p.sites.MemberFree) (hpath : Options.isPath o.stateFactory = true) {c : Callback}
    {body : Body} (hx : .expr (c.call body) ∈ d.program.parts.flat)
    (hmem : c.binding ∈ d.expansions.bindings) (hf : c.binding.modifier.name ∉ o.factories)
    (hholds : Sites.Holds p'.table Table.root d.program.sites r (c.call body).sites) :
    ∃ i l, Nested p' d.program c body r i l := by
  have hstands := h.stands hp hfree hx rfl
  have hcall : (r, .call (.ofName c.binding.modifier.name c.mark.span) c.mark c.param) ∈
      d.program.sites.placed p'.table Table.root := by
    apply hholds.mem_placed
    rw [Callback.sites_call]
    exact List.mem_cons_of_mem _ List.mem_cons_self
  have horderly := h.orderly hfree
  rw [h.done] at hmem
  obtain hin | ⟨span, hfactory⟩ | ⟨b, i, l, hcalled⟩ := h.explains hfree hcall
  · -- modifiers do not occur in the program
    have huse := p.numbered.1.whole.callees _ _ _ hin
    refine absurd ?_ (horderly.modifier_not_mem hmem)
    exact List.mem_map.2 ⟨_, List.mem_filterMap.2 ⟨_, huse, rfl⟩, rfl⟩
  · refine absurd ?_ hf
    obtain hname | ⟨_, _, _, hmember⟩ := (factory_of_isPath hpath span).1
    · rw [hname] at hfactory
      have hsame : o.stateFactory = c.binding.modifier.name :=
        congrArg Ident.name (Head.name.inj hfactory)
      rw [← hsame]
      exact List.mem_cons_self
    · rw [hmember] at hfactory
      cases hfactory
  · have hnodup := horderly.nodup
    rw [horderly.taken] at hnodup
    obtain rfl : b = c.binding :=
      List.inj_on_of_nodup_map hnodup hcalled.mem hmem hcalled.modifier.symm
    have hplaced := hholds.placed (h.effect hfree).placed
    rw [Callback.sites_call] at hplaced
    obtain ⟨-, -, -, ⟨i', sc, hopen, -, -, hbody⟩, -⟩ := hplaced
    obtain rfl : i' = i := Option.some.inj (hopen.owner.symm.trans hcalled.owner)
    have hinner := hholds.trans (c.holds_call hopen.owner)
    refine ⟨i', l, hcalled, .child hopen.scope hopen.parent hcalled.path, hbody, hinner, ?_, ?_⟩
    · refine Body.shown body (c.visited_of_call hstands.visited) fun y hy => ?_
      exact h.rewrites.memberFree (memberFree_numbered hfree) y (hinner.mem_flat hy)
    · exact fun y hy => hstands.inside y (c.mem_parts_call hy)

theorem exists_callback (hp : Program.parse src = .ok p) (hfree : p.sites.MemberFree)
    (h : p.desugar o = (log, .ok d)) {b : Reactive} (hb : b ∈ d.expansions.bindings)
    (hf : b.modifier.name ∉ o.withDefaults.factories) (hx : x ∈ d.program.parts.flat)
    (hcall : x.callee? = some b.modifier.name) :
    ∃ c body, x = .expr (Callback.call c body) ∧ c.binding = b ∧ c.param.name = b.name := by
  have hnodup := nodup_modifiers hfree h
  obtain ⟨y, hy, hycall⟩ | ⟨path, hpath, span, hface⟩ | ⟨c, body, hc, hq, rfl⟩ :=
    (expands_of_desugar h).calls hx hcall
  · obtain ⟨m, i, as, optional, rfl, hi⟩ := Part.exists_of_callee? hycall
    refine absurd ?_ (modifier_not_mentioned hfree h hb .reference)
    rw [← mentions_numbered, ← hi]
    exact mentions_of_call (visited_numbered (visited_of_parse hp)) (memberFree_numbered hfree) hy
  · have hvalid := Options.validate_of_complete (desugarWith_of_desugar h).1
    obtain hname | ⟨_, _, _, hmember⟩ :=
      (factory_of_isPath (Options.isPath_of_mem hvalid hpath) span).1
    · rw [hname] at hface
      cases hface
      exact absurd hpath hf
    · rw [hmember] at hface
      cases hface
  · have hsame : c.binding.modifier.name = b.modifier.name := Option.some.inj hcall
    obtain rfl := List.inj_on_of_nodup_map hnodup hc hb hsame
    exact ⟨c, body, rfl, rfl, hq⟩

/-- No call of a modifier stands in the callback of another call of it, unless the pass makes calls
of that name for other reasons. In such a callback the name of the state that is changed is the
parameter or something closer; where it is a state, this is another state, further inside. -/
theorem desugar_updates_apart (hp : Program.parse src = .ok p) (hfree : p.sites.MemberFree)
    (h : p.desugar o = (log, .ok d)) {b : Reactive} (hb : b ∈ d.expansions.bindings)
    (hf : b.modifier.name ∉ o.withDefaults.factories) {x : Part} (hx : x ∈ d.program.parts.flat)
    (hcall : x.callee? = some b.modifier.name) :
    (∀ y ∈ x.passed, y.callee? ≠ some b.modifier.name) ∧
      ∃ m i k q body c, x = .expr (.call m (.ident i) [.arrow k false [.ident q] body] false) ∧
        q.name = b.name ∧ d.table.scopeOf? k = some c ∧
        (∀ y ∈ body.parts.flat, ∀ b' ∈ d.expansions.bindings,
          y.callee? = some b'.modifier.name → b'.modifier.name ∉ o.withDefaults.factories →
          b'.name = b.name → d.table.encloses c b'.scope = true) ∧
        ∀ y ∈ body.parts.flat, ∀ j, y.root? = some j → j.name = b.name →
          ∃ r, (r, j) ∈ body.sites.uses d.table c ∧
            ∃ S e, d.table.lookup? r j.name = some (S, e) ∧ d.table.encloses c S = true := by
  obtain ⟨p', ds, hrun⟩ := run_of_desugar h
  have hvalid := Options.validate_of_complete (desugarWith_of_desugar h).1
  have hpath := (Options.words_of_validate hvalid).2.1
  obtain ⟨c, body, rfl, rfl, hq⟩ := exists_callback hp hfree h hb hf hx hcall
  obtain ⟨r, hr⟩ := (hrun.stands hp hfree hx rfl).holds p'.table Table.root
  obtain ⟨i, l, hnested⟩ := hrun.nested hp hfree hpath hx hb hf hr
  -- a call of a modifier in the callback is a callback of its own
  have hinner : ∀ y ∈ body.parts.flat, ∀ b' ∈ d.expansions.bindings,
      y.callee? = some b'.modifier.name → b'.modifier.name ∉ o.withDefaults.factories →
      b'.name = c.binding.name → b' ≠ c.binding ∧ p'.table.encloses i b'.scope = true := by
    intro y hy b' hb' hycall hf' hname
    have hy' := hnested.parts y hy
    obtain ⟨c', body', rfl, rfl, -⟩ := exists_callback hp hfree h hb' hf' hy' hycall
    obtain ⟨r', hr'⟩ := (hnested.shown _ hy rfl).holds p'.table i
    obtain ⟨i', l', hnested'⟩ := hrun.nested hp hfree hpath hy' hb' hf' (hnested.holds.trans hr')
    exact hnested.apart hnested' hr' hname
  rw [hrun.table]
  refine ⟨?_, _, _, _, _, body, i, rfl, hq, hnested.called.owner, ?_, ?_⟩
  · intro y hy hycall
    have hy : y ∈ body.parts.flat := by simpa [Part.passed, Callback.call, Expr.callOf] using hy
    exact (hinner y hy c.binding hb hycall hf rfl).1 rfl
  · exact fun y hy b' hb' hycall hf' hname => (hinner y hy b' hb' hycall hf' hname).2
  · intro y hy j hj hname
    obtain ⟨hrigid, huse⟩ := Part.use_of_root? hj
    obtain ⟨r', hr'⟩ := (hnested.shown y hy hrigid).holds p'.table i
    refine ⟨r', Sites.mem_uses.2 (hr'.mem_placed _ (huse _ _)), ?_⟩
    rw [hname]
    exact hnested.lookup hr'

/-- A callback in which the name of its state is changed, and that of another state too. -/
theorem desugar_updates_apart_inner :
    ∃ p log d b x, Program.parse
        ("ref: x = 0; x = () => \x7b x = 1; if (x) \x7b ref: x = 2; x = 3 \x7d \x7d" : Text) =
        .ok p ∧
      p.sites.MemberFree ∧ p.desugar .empty = (log, .ok d) ∧ b ∈ d.expansions.bindings ∧
      b.modifier.name ∉ Options.empty.withDefaults.factories ∧ x ∈ d.program.parts.flat ∧
      x.callee? = some b.modifier.name ∧ d.expansions.mutations = 2 ∧
      x.passed.any (·.callee?.isSome) = true ∧ x.passed.any (·.root?.isSome) = true ∧
      ∀ y ∈ x.passed, y.callee? ≠ some b.modifier.name := by
  obtain ⟨p, log, d, hp, hd, h⟩ := Text.exists_of_desugars .empty
    "ref: x = 0; x = () => \x7b x = 1; if (x) \x7b ref: x = 2; x = 3 \x7d \x7d"
    (fun p d => decide (p.sites.MemberFree ∧ d.expansions.mutations = 2 ∧
      ∃ b ∈ d.expansions.bindings, b.modifier.name ∉ Options.empty.withDefaults.factories ∧
        ∃ x ∈ d.program.parts.flat, x.callee? = some b.modifier.name ∧
          x.passed.any (·.callee?.isSome) = true ∧ x.passed.any (·.root?.isSome) = true))
    (by decide +kernel)
  obtain ⟨hfree, hmutations, b, hb, hf, x, hx, hcall, hcalls, hroots⟩ := of_decide_eq_true h
  exact ⟨p, log, d, b, x, hp, hfree, hd, hb, hf, hx, hcall, hmutations, hcalls, hroots,
    (desugar_updates_apart hp hfree hd hb hf hx hcall).1⟩

/-- Names of modifiers are made without regard to the functions of the options: here the effect
function has the name of a modifier, which is called in the function that it gets. -/
theorem desugar_updates_apart_factory :
    ∃ p log d, Program.parse ("ref: x = 0; watch: () => \x7b x = 1 \x7d" : Text) = .ok p ∧
      p.sites.MemberFree ∧
      p.desugar { Options.empty with effectFactory := "_setX" } = (log, .ok d) ∧
      ∃ b ∈ d.expansions.bindings, ∃ x ∈ d.program.parts.flat,
        x.callee? = some b.modifier.name ∧ ∃ y ∈ x.passed, y.callee? = some b.modifier.name := by
  obtain ⟨p, log, d, hp, hd, h⟩ := Text.exists_of_desugars
    { Options.empty with effectFactory := "_setX" } "ref: x = 0; watch: () => \x7b x = 1 \x7d"
    (fun p d => decide (p.sites.MemberFree ∧ ∃ b ∈ d.expansions.bindings,
      ∃ x ∈ d.program.parts.flat, x.callee? = some b.modifier.name ∧
        ∃ y ∈ x.passed, y.callee? = some b.modifier.name))
    (by decide +kernel)
  obtain ⟨hfree, hnested⟩ := of_decide_eq_true h
  exact ⟨p, log, d, hp, hfree, hd, hnested⟩

end Program

end LabelHooks
