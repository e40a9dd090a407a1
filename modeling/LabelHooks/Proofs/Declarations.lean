import LabelHooks.Proofs.Counts

/-!
The declarations that replace labels stand exactly where the labels stood. The language allows a
label where it does not allow a declaration, as the only statement under a condition or a loop, and
the pass makes no difference.
-/

namespace LabelHooks
set_option autoImplicit true

open Pass

section Words

variable {f : Stmt → Option Mark}

theorem Pass.marksOf_factory (path : Text) (span : Span) :
    ((factory path span).parts true).marksOf f = [] := by
  apply Parts.marksOf_of_flat
  intro x hx
  obtain ⟨y, rfl, hy⟩ := Expr.isPath_factory path span x hx
  cases y <;> first | rfl | cases hy

theorem Expr.marksOf_params (is : List Ident) :
    (Expr.partsList false (is.map .ident)).marksOf f = [] :=
  Parts.marksOf_of_flat fun _ hx => Part.held_of_isWord (isWord_of_params hx)

theorem Expr.marksOf_names (is : List Ident) : (Expr.partsList true (names is)).marksOf f = [] :=
  Parts.marksOf_of_flat fun _ hx => Part.held_of_isWord (isWord_of_names hx)

theorem Expr.held_of_anonymous (h : x.anonymous? = some (params, body)) :
    (Part.expr x).held = body.held := by
  cases x with
  | arrow m isAsync ps b =>
    cases h
    rfl
  | function m g =>
    obtain ⟨fm, name, ps, b, isAsync, generator⟩ := g
    cases name with
    | some i => cases h
    | none =>
      cases generator with
      | true => cases h
      | false =>
        cases h
        rfl
  | _ => cases h

theorem Expr.marksOf_anonymous {x : Expr} {is : List Ident}
    (h : x.anonymous? = some (is.map .ident, body)) :
    (x.parts true).marksOf f = marksOf f body.held ++ body.parts.marksOf f := by
  rw [parts_of_anonymous h, Parts.marksOf_above, Parts.marksOf_append, marksOf_params,
    held_of_anonymous h, List.nil_append]

theorem Expr.marksOf_ident (i : Ident) (seen : Bool) :
    ((Expr.ident i).parts seen).marksOf f = [] := by
  cases seen <;> rfl

theorem Expr.marksOf_assignName (m : Mark) (op : AssignOp) (i : Ident) (right : Expr) :
    ((Expr.assign m op (.ident i) right).parts true).marksOf f = (right.parts true).marksOf f := by
  rw [Expr.parts, Parts.when, Parts.marksOf_above, Parts.marksOf_append, Expr.marksOf_ident]
  rfl

end Words

namespace Pass

variable {f : Stmt → Option Mark}

theorem marksOf_callOf (callee : Expr) (args : List Expr) (span : Span) :
    ((Expr.callOf callee args span).parts true).marksOf f =
      (callee.parts true).marksOf f ++ (Expr.partsList true args).marksOf f := by
  rw [Expr.callOf, Expr.parts, Parts.when, Parts.marksOf_above, Parts.marksOf_append]
  rfl

theorem marksOf_call (c : Callback) (body : Body) :
    ((c.call body).parts true).marksOf f = marksOf f body.held ++ body.parts.marksOf f := by
  rw [Callback.call, marksOf_callOf, Expr.ofName, Expr.marksOf_ident]
  simp only [Expr.partsList, Expr.parts, Parts.append_nil, Parts.when, Parts.marksOf_above]
  rw [Parts.marksOf_append]
  rfl

theorem marksOf_updated (m : Mark) (op : AssignOp) (i : Ident) (right : Expr) :
    ((updated m op i right).parts true).marksOf f = (right.parts true).marksOf f := by
  unfold updated
  split
  · rfl
  · rw [Expr.parts, Parts.when, Parts.marksOf_above, Parts.marksOf_append, Expr.ofName,
      Expr.marksOf_ident]
    rfl

theorem marksOf_constDecl (target init : Expr) (m : Mark)
    (h : (target.parts false).marksOf f = []) :
    (Stmt.varDecl (.const target init m)).parts.marksOf f = (init.parts true).marksOf f := by
  simp only [VarDecl.const, Stmt.parts, VarDecl.parts, Declarator.partsList, Expr.parts?,
    Parts.append_nil, Parts.marksOf_above, Parts.marksOf_append, h]
  rfl

theorem marksOf_stateDecl (o : Options) (m am : Mark) (target : Ident) (b : Reactive)
    (init : Expr) :
    (stateDecl o m am target b init).parts.marksOf f = (init.parts true).marksOf f := by
  rw [stateDecl, marksOf_constDecl _ _ _ rfl, marksOf_callOf, marksOf_factory, Expr.partsList,
    Expr.partsList, Parts.append_nil, List.nil_append]

theorem marksOf_watchCall (path : Text) (m k : Mark) (body : Body) (is : List Ident)
    (span callSpan : Span) :
    ((watchCall path m k body is span callSpan).parts true).marksOf f =
      marksOf f body.held ++ body.parts.marksOf f := by
  rw [watchCall, marksOf_callOf, marksOf_factory]
  simp only [Expr.partsList, Expr.parts, Parts.when, Parts.append_nil, Parts.nil_append,
    Parts.marksOf_append, Parts.marksOf_above, Expr.marksOf_names]
  simp [Part.held, marksOf]

end Pass

/-- The constants after the pass are the constants before it and the labels that ask for them, in
the same slots. -/
theorem Expands.marksOf_eq (h : Expands o r ps r' qs) (hv : ps.Visited) :
    qs.marksOf Stmt.const? = ps.marksOf (Stmt.constant? o) := by
  induction h with
  | nil => rfl
  | skip => rw [Parts.marksOf_skip hv, Parts.marksOf_skip hv]
  | append _ _ ihx ihy =>
    obtain ⟨hx, hy⟩ := Parts.visited_append.1 hv
    rw [Parts.marksOf_append, Parts.marksOf_append, ihx hx, ihy hy]
  | part _ _ hh _ ih =>
    rw [Parts.marksOf_above, Parts.marksOf_above, hh, ih (Parts.visited_above.1 hv)]
  | assign _ _ _ ih =>
    have hright := (Parts.visited_append.1 (Parts.visited_above.1 hv)).2
    rw [marksOf_call, Body.parts, marksOf_updated, Expr.marksOf_assignName, ih hright]
    rfl
  | step => rfl
  | wrap _ _ _ ih =>
    rw [marksOf_call, ← ih hv]
    simp only [Body.parts, Block.parts, Stmt.partsList, Stmt.parts, Parts.append_nil,
      Parts.marksOf_above]
    rfl
  | state _ _ _ ih =>
    have hright := (Parts.visited_append.1 (Parts.visited_above.1 (Parts.visited_above.1
      (Parts.visited_above.1 hv)))).2
    rw [marksOf_stateDecl, ih hright, Stmt.parts, Stmt.parts, Parts.marksOf_above,
      Parts.marksOf_above, Expr.marksOf_assignName]
    rfl
  | effect _ hx hh _ ih =>
    have hbody := Expr.visited_of_anonymous hx (Parts.visited_above.1 (Parts.visited_above.1 hv))
    rw [Stmt.parts, Stmt.parts, Stmt.parts, Parts.marksOf_above, Parts.marksOf_above,
      Parts.marksOf_above, marksOf_watchCall, Expr.marksOf_anonymous hx, hh, ih hbody]
    rfl
  | memo _ hx hh _ ih =>
    have hright := (Parts.visited_append.1 (Parts.visited_above.1 (Parts.visited_above.1
      (Parts.visited_above.1 hv)))).2
    have hbody := Expr.visited_of_anonymous hx hright
    rw [marksOf_constDecl _ _ _ rfl, marksOf_watchCall, Stmt.parts, Stmt.parts,
      Parts.marksOf_above, Parts.marksOf_above, Expr.marksOf_assignName,
      Expr.marksOf_anonymous hx, hh, ih hbody]
    rfl

namespace Program

variable {o : Options} {src : Text} {p : Program} {log : List LogRecord} {d : Desugared}

theorem marksOf_of_desugar (hv : p.numbered.1.parts.Visited) (h : p.desugar o = (log, .ok d)) :
    marksOf Stmt.const? d.program.held =
      marksOf (Stmt.constant? o.withDefaults) p.numbered.1.held := by
  have hparts := (expands_of_desugar h).marksOf_eq hv
  obtain ⟨-, h⟩ := desugarWith_of_desugar h
  unfold desugarWith at h
  dsimp only at h
  split at h
  · cases h
  · next body p' hrun =>
    cases h
    exact marksOf_append_congr (marksOf_listed hrun) hparts

/-- The declarations of constants in a desugared program are those that there were and one for each
label of a state or a memo, and each has the slot of what it comes from. So none stands alone under
a condition, a loop or a label just if neither a declaration nor such a label did before. -/
theorem desugar_keeps_slots (hp : Program.parse src = .ok p) (hd : p.desugar o = (log, .ok d)) :
    marksOf Stmt.const? d.program.held =
        marksOf (Stmt.constant? o.withDefaults) p.numbered.1.held ∧
      ((∃ s, (.alone, s) ∈ d.program.held ∧ s.isConst = true) ↔
        ∃ s, (.alone, s) ∈ p.numbered.1.held ∧
          (s.introduces o.withDefaults = true ∨ s.isConst = true)) := by
  have heq := marksOf_of_desugar (visited_numbered (visited_of_parse hp)) hd
  refine ⟨heq, ?_⟩
  have hiff := mem_marksOf Stmt.const? d.program.held .alone
  rw [heq, mem_marksOf] at hiff
  simpa only [Stmt.const?_ne_none, Stmt.constant?_ne_none] using hiff.symm

/-- A state in a function, and a memo in a case. -/
theorem desugar_keeps_slots_listed :
    ∃ p log d, Program.parse
        ("if (a) f(() => \x7b ref: x = 0 \x7d); switch (b) \x7b default: watch: y = x => x \x7d" :
          Text) = .ok p ∧
      p.desugar .empty = (log, .ok d) ∧ (marksOf Stmt.const? d.program.held).length = 2 ∧
      marksOf Stmt.const? d.program.held =
        marksOf (Stmt.constant? Options.empty.withDefaults) p.numbered.1.held ∧
      ¬ ∃ s, (.alone, s) ∈ d.program.held ∧ s.isConst = true := by
  obtain ⟨p, log, d, hp, hd, h⟩ := Text.exists_of_desugars .empty
    "if (a) f(() => \x7b ref: x = 0 \x7d); switch (b) \x7b default: watch: y = x => x \x7d"
    (fun p d => decide ((marksOf Stmt.const? d.program.held).length = 2) &&
      p.numbered.1.held.all fun a =>
        a.1 = .listed || !(a.2.introduces Options.empty.withDefaults || a.2.isConst))
    (by decide +kernel)
  obtain ⟨htwo, hlisted⟩ := Bool.and_eq_true_iff.1 h
  obtain ⟨hmarks, hiff⟩ := desugar_keeps_slots hp hd
  refine ⟨p, log, d, hp, hd, of_decide_eq_true htwo, hmarks, fun hs => ?_⟩
  obtain ⟨s, hs, hconst⟩ := hiff.1 hs
  have hslot := List.all_eq_true.1 hlisted _ hs
  simp_all

/-- Under a condition, where only the label is allowed, the declaration comes in its place. -/
theorem desugar_keeps_slots_alone :
    ∃ p log d s, Program.parse ("if (a) ref: x = 0;" : Text) = .ok p ∧
      p.desugar .empty = (log, .ok d) ∧ (∀ b ∈ p.held, b.2.isConst = false) ∧
      (.alone, s) ∈ d.program.held ∧ s.isConst = true := by
  obtain ⟨p, log, d, hp, hd, h⟩ := Text.exists_of_desugars .empty "if (a) ref: x = 0;"
    (fun p d => (p.held.all fun b => !b.2.isConst) &&
      d.program.held.any fun b => b.1 = .alone && b.2.isConst)
    (by decide +kernel)
  obtain ⟨hnone, hsome⟩ := Bool.and_eq_true_iff.1 h
  obtain ⟨⟨k, s⟩, hs, halone⟩ := List.any_eq_true.1 hsome
  simp only [Bool.and_eq_true, decide_eq_true_eq] at halone
  obtain ⟨rfl, hconst⟩ := halone
  refine ⟨p, log, d, s, hp, hd, fun b hb => ?_, hs, hconst⟩
  simpa using List.all_eq_true.1 hnone b hb

end Program
end LabelHooks
