import LabelHooks.Proofs.Erasure
import LabelHooks.Proofs.Turning
import LabelHooks.Proofs.Freshness
import LabelHooks.Proofs.PartSites
import LabelHooks.Proofs.Paths
import LabelHooks.Proofs.Reading

/-!
The account that the pass gives of its work. States, effects and memos are counted by the labels of
the program, mutations by the calls of modifiers in what it returns.
-/

namespace LabelHooks
set_option autoImplicit true

open Pass
open Parts (above)

def Face.updates (F : List Text) (block : Bool) : Face → List Face → Bool
  | .name f, [.arrow b] => decide (f ∈ F) && b == block
  | _, _ => false

theorem Face.mem_of_updates {F : List Text} {block : Bool} {as : List Face}
    (h : Face.updates F block c as = true) : ∃ f ∈ F, c = .name f := by
  unfold Face.updates at h
  split at h
  · next f b => exact ⟨f, of_decide_eq_true (Bool.and_eq_true_iff.1 h).1, rfl⟩
  · cases h

theorem Expr.ident_of_face {e : Expr} (h : e.face = .name f) : ∃ i, e = .ident i ∧ i.name = f := by
  cases e with
  | ident i =>
    cases h
    exact ⟨i, rfl, rfl⟩
  | _ => cases h

namespace Part

variable {o : Options} {F : List Text} {block : Bool}

def isState (o : Options) : Part → Bool
  | .stmt (.labeled _ l _) => o.classify l.name = .state
  | _ => false

def isWatch (o : Options) (memo : Bool) : Part → Bool
  | .stmt (.labeled _ l (.expr _ (.assign _ _ _ _))) => o.classify l.name = .watch && memo
  | .stmt (.labeled _ l _) => o.classify l.name = .watch && !memo
  | _ => false

def isUpdate (F : List Text) (block : Bool) (x : Part) : Bool :=
  match x.call? with
  | some (c, as) => c.updates F block as
  | none => false

def startsUpdate (o : Options) (F : List Text) (block : Bool) : Part → Bool
  | .stmt (.labeled m l (.expr _ (.assign _ _ _ init))) =>
    o.classify l.name = .state &&
      Face.updates F block (factory o.stateFactory m.span).face [init.face]
  | _ => false

theorem isUpdate_congr {x y : Part} (h : y.call? = x.call?) :
    y.isUpdate F block = x.isUpdate F block := by
  rw [isUpdate, h, isUpdate]

theorem isUpdate_of_call? {x : Part} (h : x.call? = none) : x.isUpdate F block = false := by
  rw [isUpdate, h]

@[simp] theorem isUpdate_stmt (s : Stmt) : isUpdate F block (.stmt s) = false := rfl

theorem updates_of_startsUpdate {x : Part} (h : x.startsUpdate o F block = true) :
    ∃ span as, Face.updates F block (factory o.stateFactory span).face as = true := by
  unfold startsUpdate at h
  split at h
  · exact ⟨_, _, (Bool.and_eq_true_iff.1 h).2⟩
  · cases h

@[simp] theorem startsUpdate_exprStmt : startsUpdate o F block (.stmt (.expr m x)) = false := rfl

theorem startsUpdate_watch (hl : o.classify l.name = .watch) :
    startsUpdate o F block (.stmt (.labeled m l body)) = false := by
  unfold startsUpdate
  split
  · next h =>
    cases h
    simp [hl]
  · rfl

theorem call?_of_isWord {x : Part} (h : x.isWord = true) : x.call? = none := by
  cases x with
  | stmt s => rfl
  | expr e =>
    cases e with
    | call m c as optional => cases h
    | _ => rfl

theorem exists_of_isUpdate {x : Part} (h : x.isUpdate F block = true) :
    ∃ m i as optional, x = .expr (.call m (.ident i) as optional) ∧ i.name ∈ F := by
  cases x with
  | stmt s => cases h
  | expr e =>
    cases e with
    | call m c as optional =>
      obtain ⟨f, hf, hc⟩ := Face.mem_of_updates h
      obtain ⟨i, rfl, rfl⟩ := Expr.ident_of_face hc
      exact ⟨m, i, as, optional, rfl, hf⟩
    | _ => cases h

def Unmatched (o : Options) (x : Part) : Prop :=
  ∀ l, x.label? = some l → o.classify l.name = .unmatched

namespace Unmatched

theorem ofExpr (e : Expr) : (Part.expr e).Unmatched o := fun _ h => by cases h

theorem isState {x : Part} (h : x.Unmatched o) : x.isState o = false := by
  cases x with
  | expr e => rfl
  | stmt s =>
    cases s with
    | labeled m l body => simp [Part.isState, h l rfl]
    | _ => rfl

theorem isWatch {x : Part} (h : x.Unmatched o) (memo : Bool) : x.isWatch o memo = false := by
  unfold Part.isWatch
  split
  · next l _ _ _ _ _ => simp [h l rfl]
  · next l _ _ => simp [h l rfl]
  · rfl

theorem startsUpdate {x : Part} (h : x.Unmatched o) : x.startsUpdate o F block = false := by
  unfold Part.startsUpdate
  split
  · next l _ _ _ _ _ => simp [h l rfl]
  · rfl

end Unmatched

@[simp] theorem isWatch_expr (memo : Bool) : isWatch o memo (.stmt (.expr m x)) = false := rfl

theorem isWatch_of_anonymous (hx : x.anonymous? = some y) (memo : Bool) :
    isWatch o memo (.stmt (.labeled m l (.expr xm x))) =
      (o.classify l.name = .watch && !memo) := by
  cases x with
  | assign am aop t right => cases hx
  | _ => rfl

theorem unmatched_of_isWord {x : Part} (h : x.isWord = true) : x.Unmatched o := by
  cases x with
  | expr e => exact .ofExpr e
  | stmt s => cases h

end Part

namespace Parts

variable {ps qs : Parts} {x : Part} {f : Part → Bool} {o : Options} {F : List Text} {block : Bool}

/-- How many of the parts `f` picks. -/
def number (f : Part → Bool) (ps : Parts) : Nat := ps.flat.countP f

@[simp] theorem number_nil : number f .nil = 0 := rfl

@[simp] theorem number_append : (ps ++ qs).number f = ps.number f + qs.number f := by
  simp [number]

@[simp] theorem number_above :
    (above x ps).number f = ps.number f + if f x = true then 1 else 0 := by
  simp [number, List.countP_cons]

@[simp] theorem number_skip : (Parts.skip ps qs).number f = ps.number f + qs.number f := by
  simp [number, flat]

theorem number_eq_zero (h : ∀ x ∈ ps.flat, f x = false) : ps.number f = 0 := by
  rw [number, List.countP_eq_zero]
  intro x hx
  simp [h x hx]

theorem number_hidden (h : (Parts.skip ps .nil).Visited) (hf : ∀ x, x.isWord = true → f x = false) :
    (Parts.skip ps .nil).number f = 0 := by
  apply number_eq_zero
  intro x hx
  exact hf x (visited_skip.1 h x (by simpa [flat] using hx))

theorem number_numbered (hf : ∀ x, f x.erased = f x) (p : Program) :
    p.numbered.1.parts.number f = p.parts.number f := by
  have hcomp : f ∘ Part.erased = f := funext hf
  have hmap (ps : Parts) : ps.erased.number f = ps.number f := by
    rw [number, flat_erased, List.countP_map, hcomp, number]
  rw [← hmap, Program.parts_numbered_erased, hmap]

end Parts

namespace Expr

variable {x : Expr}

theorem parts_of_anonymous (h : x.anonymous? = some (params, body)) :
    x.parts true = above (.expr x) (Expr.partsList false params ++ body.parts) := by
  cases x with
  | arrow m isAsync ps b =>
    cases h
    rfl
  | function m f =>
    obtain ⟨fm, name, ps, b, isAsync, generator⟩ := f
    cases name with
    | some i => cases h
    | none =>
      cases generator with
      | true => cases h
      | false =>
        cases h
        rfl
  | _ => cases h

theorem isWord_of_params {is : List Ident} {x : Part}
    (hx : x ∈ (Expr.partsList false (is.map .ident)).flat) : x.isWord = true := by
  induction is with
  | nil => cases hx
  | cons i is ih =>
    obtain rfl | hx := List.mem_cons.1 hx
    · rfl
    · exact ih hx

theorem isWord_of_names {is : List Ident} {x : Part}
    (hx : x ∈ (Expr.partsList true (names is)).flat) : x.isWord = true := by
  induction is with
  | nil => cases hx
  | cons i is ih =>
    obtain rfl | hx := List.mem_cons.1 hx
    · rfl
    · exact ih hx

def IsPath (e : Expr) : Prop := ∀ x ∈ (e.parts true).flat, ∃ y : Expr, x = .expr y ∧ y.isReference

theorem isPath_extend {span : Span} {path : Option Expr} (h : ∀ e, path = some e → e.IsPath) :
    ∀ e, extend span path part = some e → e.IsPath := by
  intro e he
  unfold extend at he
  split at he
  · exact h e he
  · split at he
    · cases he
      exact List.forall_mem_singleton.2 ⟨_, rfl, rfl⟩
    · next y =>
      cases he
      intro x hx
      rw [Expr.parts, Parts.flat_above, Parts.flat_append, List.mem_cons, List.mem_append] at hx
      obtain rfl | hx | hx := hx
      · exact ⟨_, rfl, rfl⟩
      · exact h y rfl x hx
      · obtain rfl := List.mem_singleton.1 hx
        exact ⟨_, rfl, rfl⟩

theorem isPath_factory (path : Text) (span : Span) : (factory path span).IsPath := by
  have hfold : ∀ (parts : List Text) (start : Option Expr), (∀ e, start = some e → e.IsPath) →
      ∀ e, parts.foldl (extend span) start = some e → e.IsPath := by
    intro parts
    induction parts with
    | nil => exact fun _ h => h
    | cons part parts ih => exact fun _ h => ih _ (isPath_extend h)
  unfold factory
  cases h : ofPath? path span with
  | none => exact fun _ hx => by cases hx
  | some e => exact hfold _ none (fun _ h => by cases h) e h

theorem call?_factory (path : Text) (span : Span) :
    ∀ x ∈ ((factory path span).parts true).flat, x.call? = none := by
  intro x hx
  obtain ⟨y, rfl, hy⟩ := isPath_factory path span x hx
  cases y with
  | call m c as optional => cases hy
  | _ => rfl

theorem call?_of_anonymous (h : x.anonymous? = some y) : (Part.expr x).call? = none := by
  cases x with
  | call m c as optional => cases h
  | _ => rfl

theorem visited_of_anonymous (h : x.anonymous? = some (params, body))
    (hv : (x.parts true).Visited) : body.parts.Visited := by
  rw [parts_of_anonymous h] at hv
  exact (Parts.visited_append.1 (Parts.visited_above.1 hv)).2

/-! Words are not counted: what is counted in a statement with a label, or in what comes in its
place, stands in the initial value or in the body of the function. -/

section Words

variable {f : Part → Bool} {m : Mark} {op : AssignOp} {i : Ident} {right : Expr}

theorem number_assignName (hw : ∀ x : Part, x.isWord = true → f x = false) :
    ((assign m op (.ident i) right).parts true).number f =
      (right.parts true).number f +
        if f (.expr (assign m op (.ident i) right)) = true then 1 else 0 := by
  have hi : ((Expr.ident i).parts false).number f = 0 := by
    apply Parts.number_eq_zero
    exact List.forall_mem_singleton.2 (hw (.expr (.ident i)) rfl)
  rw [Expr.parts, Parts.when, Parts.number_above, Parts.number_append, hi, Nat.zero_add]

theorem number_anonymous (hw : ∀ x : Part, x.isWord = true → f x = false) {is : List Ident}
    (h : x.anonymous? = some (is.map .ident, body)) :
    (x.parts true).number f = body.parts.number f + if f (.expr x) = true then 1 else 0 := by
  have hparams : (Expr.partsList false (is.map .ident)).number f = 0 :=
    Parts.number_eq_zero fun x hx => hw x (isWord_of_params hx)
  rw [parts_of_anonymous h, Parts.number_above, Parts.number_append, hparams, Nat.zero_add]

end Words

end Expr

theorem Stmt.number_labeled : (Stmt.labeled m l (.expr xm x)).parts.number f =
      (x.parts true).number f + (if f (.stmt (.expr xm x)) = true then 1 else 0) +
        if f (.stmt (.labeled m l (.expr xm x))) = true then 1 else 0 := by
  rw [Stmt.parts, Stmt.parts, Parts.number_above, Parts.number_above]

namespace Pass

variable {F : List Text} {block : Bool}

@[simp] theorem number_names (is : List Ident) :
    (Expr.partsList true (names is)).number (Part.isUpdate F block) = 0 :=
  Parts.number_eq_zero fun _ hx => Part.isUpdate_of_call? (Part.call?_of_isWord
    (Expr.isWord_of_names hx))

@[simp] theorem number_factory (path : Text) (span : Span) :
    ((factory path span).parts true).number (Part.isUpdate F block) = 0 :=
  Parts.number_eq_zero fun x hx => Part.isUpdate_of_call? (Expr.call?_factory path span x hx)

@[simp] theorem number_updated (m : Mark) (op : AssignOp) (i : Ident) (right : Expr) :
    ((updated m op i right).parts true).number (Part.isUpdate F block) =
      (right.parts true).number (Part.isUpdate F block) := by
  unfold updated
  cases op.binary? with
  | none => rfl
  | some b =>
    rw [Expr.parts, Parts.when, Parts.number_above, Parts.number_append]
    exact Nat.zero_add _

@[simp] theorem number_ident (seen : Bool) (i : Ident) :
    ((Expr.ident i).parts seen).number (Part.isUpdate F block) = 0 := by
  cases seen <;> rfl

theorem number_call (c : Callback) (body : Body) :
    ((c.call body).parts true).number (Part.isUpdate F block) =
      body.parts.number (Part.isUpdate F block) +
        if c.binding.modifier.name ∈ F ∧ body.isBlock = block then 1 else 0 := by
  simp [Callback.call, Expr.callOf, Expr.ofName, Expr.parts, Expr.partsList, Parts.when,
    Part.isUpdate, Part.call?, Face.updates, Expr.face, Ident.ofName]

theorem number_stateDecl (o : Options) (m am : Mark) (target : Ident) (b : Reactive)
    (init : Expr) :
    (stateDecl o m am target b init).parts.number (Part.isUpdate F block) =
      (init.parts true).number (Part.isUpdate F block) +
        if Face.updates F block (factory o.stateFactory m.span).face [init.face] = true then 1
        else 0 := by
  simp [stateDecl, Expr.callOf, Expr.ofName, Expr.parts, Expr.partsList, Stmt.parts, VarDecl.const,
    VarDecl.parts, Declarator.partsList, Expr.parts?, Parts.when,
    Part.isUpdate, Part.call?]

theorem number_watchCall (path : Text) (m k : Mark) (body : Body) (is : List Ident)
    (span callSpan : Span) :
    ((watchCall path m k body is span callSpan).parts true).number (Part.isUpdate F block) =
      body.parts.number (Part.isUpdate F block) := by
  simp [watchCall, Expr.callOf, Expr.parts, Expr.partsList, Parts.when, Part.isUpdate, Part.call?,
    Face.updates]

end Pass

namespace Expansions

/-- The names of the modifiers of all states. -/
def modifiers (r : Expansions) : List Text := r.bindings.map (·.modifier.name)

def updates (r : Expansions) (block : Bool) : Nat := if block = true then r.wrapped else r.mutations

theorem updates_mutation (r : Expansions) (block : Bool) :
    ({ r with mutations := r.mutations + 1 } : Expansions).updates block =
      r.updates block + if false = block then 1 else 0 := by
  cases block <;> rfl

theorem updates_wrapped (r : Expansions) (block : Bool) :
    ({ r with wrapped := r.wrapped + 1 } : Expansions).updates block =
      r.updates block + if true = block then 1 else 0 := by
  cases block <;> rfl

end Expansions

namespace Expands

variable {o : Options} {r r' : Expansions} {ps qs : Parts} {F : List Text}

theorem bindings_subset (h : Expands o r ps r' qs) : ∀ b ∈ r.bindings, b ∈ r'.bindings := by
  induction h with
  | nil | skip | step => exact fun _ hb => hb
  | append _ _ ihx ihy => exact fun b hb => ihy b (ihx b hb)
  | part _ _ _ _ ih | assign _ _ _ ih | wrap _ _ _ ih | effect _ _ _ _ ih
  | memo _ _ _ _ ih => exact ih
  | state _ _ _ ih => exact fun b hb => ih b (List.mem_append_left _ hb)

theorem number_labels (h : Expands o r ps r' qs) (hv : ps.Visited) :
    r'.bindings.length = r.bindings.length + ps.number (Part.isState o) ∧
      r'.memos = r.memos + ps.number (Part.isWatch o true) ∧
      r'.effects = r.effects + ps.number (Part.isWatch o false) := by
  have hstate : ∀ x : Part, x.isWord = true → x.isState o = false :=
    fun _ hx => (Part.unmatched_of_isWord hx).isState
  have hwatch (memo : Bool) : ∀ x : Part, x.isWord = true → x.isWatch o memo = false :=
    fun _ hx => (Part.unmatched_of_isWord hx).isWatch memo
  have hassign {m : Mark} {op : AssignOp} {i : Ident} {right : Expr} :
      ((Expr.assign m op (.ident i) right).parts true).number (Part.isState o) =
        (right.parts true).number (Part.isState o) ∧
      ∀ memo, ((Expr.assign m op (.ident i) right).parts true).number (Part.isWatch o memo) =
        (right.parts true).number (Part.isWatch o memo) :=
    ⟨Expr.number_assignName hstate, fun memo => Expr.number_assignName (hwatch memo)⟩
  have hbody {x : Expr} {is : List Ident} {body : Body}
      (hx : x.anonymous? = some (is.map .ident, body)) :
      (x.parts true).number (Part.isState o) = body.parts.number (Part.isState o) ∧
      ∀ memo, (x.parts true).number (Part.isWatch o memo) =
        body.parts.number (Part.isWatch o memo) :=
    ⟨Expr.number_anonymous hstate hx, fun memo => Expr.number_anonymous (hwatch memo) hx⟩
  induction h with
  | nil => exact ⟨rfl, rfl, rfl⟩
  | skip =>
    rw [Parts.number_hidden hv hstate, Parts.number_hidden hv (hwatch _),
      Parts.number_hidden hv (hwatch _)]
    exact ⟨rfl, rfl, rfl⟩
  | append _ _ ihx ihy =>
    obtain ⟨hvx, hvy⟩ := Parts.visited_append.1 hv
    obtain ⟨hs, hm, he⟩ := ihx hvx
    obtain ⟨hs', hm', he'⟩ := ihy hvy
    simp only [Parts.number_append]
    omega
  | part _ hl _ _ ih =>
    have hun : Part.Unmatched o _ := hl
    simp only [Parts.number_above, hun.isState, hun.isWatch]
    exact ih (Parts.visited_above.1 hv)
  | assign _ _ _ ih =>
    rw [hassign.1, hassign.2, hassign.2]
    exact ih (Parts.visited_append.1 (Parts.visited_above.1 hv)).2
  | step => exact ⟨rfl, rfl, rfl⟩
  | wrap _ _ _ ih => exact ih hv
  | state hl _ _ ih =>
    obtain ⟨hs, hm, he⟩ := ih (Parts.visited_append.1 (Parts.visited_above.1
      (Parts.visited_above.1 (Parts.visited_above.1 hv)))).2
    rw [hs, hm, he]
    simp [Stmt.parts, hassign, Part.isState, Part.isWatch, hl]
    omega
  | effect hl hx _ _ ih =>
    obtain ⟨hs, hm, he⟩ := ih (Expr.visited_of_anonymous hx
      (Parts.visited_above.1 (Parts.visited_above.1 hv)))
    simp [Stmt.parts, hbody hx, Part.isState, Part.isWatch_of_anonymous hx, hl, hs, hm, he,
      Nat.add_assoc]
  | memo hl hx _ _ ih =>
    have hright := (Parts.visited_append.1 (Parts.visited_above.1 (Parts.visited_above.1
      (Parts.visited_above.1 hv)))).2
    obtain ⟨hs, hm, he⟩ := ih (Expr.visited_of_anonymous hx hright)
    simp [Stmt.parts, hassign, hbody hx, Part.isState, Part.isWatch, hl, hs, hm, he, Nat.add_assoc]

/-- Every mutation that is counted became a call of a modifier; there are no other such calls but
those that there were, and those of the state function where it has the name of a modifier. -/
theorem number_updates (h : Expands o r ps r' qs) (hv : ps.Visited)
    (hF : ∀ b ∈ r'.bindings, b.modifier.name ∈ F) (block : Bool) :
    qs.number (Part.isUpdate F block) + r.updates block =
      ps.number (Part.isUpdate F block) + r'.updates block +
        ps.number (Part.startsUpdate o F block) := by
  have hupdate : ∀ x : Part, x.isWord = true → x.isUpdate F block = false :=
    fun _ hx => Part.isUpdate_of_call? (Part.call?_of_isWord hx)
  have hstart : ∀ x : Part, x.isWord = true → x.startsUpdate o F block = false :=
    fun _ hx => (Part.unmatched_of_isWord hx).startsUpdate
  have hassign {m : Mark} {op : AssignOp} {i : Ident} {right : Expr} :
      ((Expr.assign m op (.ident i) right).parts true).number (Part.isUpdate F block) =
        (right.parts true).number (Part.isUpdate F block) ∧
      ((Expr.assign m op (.ident i) right).parts true).number (Part.startsUpdate o F block) =
        (right.parts true).number (Part.startsUpdate o F block) :=
    ⟨Expr.number_assignName hupdate, Expr.number_assignName hstart⟩
  have hbody {x : Expr} {is : List Ident} {body : Body}
      (hx : x.anonymous? = some (is.map .ident, body)) :
      (x.parts true).number (Part.isUpdate F block) = body.parts.number (Part.isUpdate F block) ∧
      (x.parts true).number (Part.startsUpdate o F block) =
        body.parts.number (Part.startsUpdate o F block) := by
    rw [Expr.number_anonymous hupdate hx, Expr.number_anonymous hstart hx,
      Part.isUpdate_of_call? (Expr.call?_of_anonymous hx)]
    exact ⟨rfl, rfl⟩
  induction h with
  | nil => simp
  | skip =>
    rw [Parts.number_hidden hv hstart]
    rfl
  | append _ hy ihx ihy =>
    obtain ⟨hvx, hvy⟩ := Parts.visited_append.1 hv
    have hx := ihx hvx fun b hb => hF b (hy.bindings_subset b hb)
    have hy := ihy hvy hF
    simp only [Parts.number_append]
    omega
  | part hc hl _ _ ih =>
    have hun : Part.Unmatched o _ := hl
    have hi := ih (Parts.visited_above.1 hv) hF
    simp only [Parts.number_above, hun.startsUpdate, Part.isUpdate_congr hc, Bool.false_eq_true,
      if_false]
    omega
  | assign hb _ h ih =>
    have hi := ih (Parts.visited_append.1 (Parts.visited_above.1 hv)).2 hF
    have hmem := hF _ (h.bindings_subset _ hb)
    simp only [number_call, hassign, Expansions.updates_mutation, Body.parts, number_updated,
      Body.isBlock, hmem, true_and]
    omega
  | step hb =>
    have hmem := hF _ hb
    simp only [number_call, Expansions.updates_mutation, Body.isBlock, hmem, true_and]
    rw [Nat.add_right_comm]
    exact Nat.add_assoc _ _ _
  | wrap hb _ h ih =>
    have hi := ih hv hF
    have hmem := hF _ (h.bindings_subset _ hb)
    simp only [number_call, Expansions.updates_wrapped, Body.isBlock, hmem, true_and]
    simp [Body.parts, Block.parts, Stmt.partsList, Stmt.parts]
    omega
  | state hl hf _ ih =>
    have hi := ih (Parts.visited_append.1 (Parts.visited_above.1 (Parts.visited_above.1
      (Parts.visited_above.1 hv)))).2 hF
    simp only [Expansions.updates] at hi ⊢
    simp [number_stateDecl, hf, Stmt.number_labeled, hassign, Part.startsUpdate, hl]
    omega
  | effect hl hx _ _ ih =>
    have hi := ih (Expr.visited_of_anonymous hx (Parts.visited_above.1 (Parts.visited_above.1 hv)))
      hF
    simp only [Expansions.updates] at hi ⊢
    simp [Stmt.parts, number_watchCall, hbody hx, Part.startsUpdate_watch hl, hi]
  | memo hl hx _ _ ih =>
    have hright := (Parts.visited_append.1 (Parts.visited_above.1 (Parts.visited_above.1
      (Parts.visited_above.1 hv)))).2
    have hi := ih (Expr.visited_of_anonymous hx hright) hF
    simp only [Expansions.updates] at hi ⊢
    simp [Stmt.parts, VarDecl.const, VarDecl.parts, Declarator.partsList, Expr.parts?,
      number_watchCall, hassign, hbody hx, Part.startsUpdate_watch hl, hi]

end Expands

theorem Expr.face_erased (e : Expr) : e.erased.face = e.face := by
  cases e with
  | arrow m isAsync params body => cases body <;> rfl
  | _ => rfl

theorem Expr.faces_erased (es : List Expr) :
    (Expr.visitList Mark.erase es).run.map Expr.face = es.map Expr.face := by
  induction es with
  | nil => rfl
  | cons e es ih =>
    change e.erased.face :: _ = e.face :: _
    rw [e.face_erased]
    exact congrArg _ ih

namespace Part

variable {o : Options} {F : List Text} {block : Bool}

theorem isState_erased (x : Part) : x.erased.isState o = x.isState o := by
  cases x with
  | expr e => rfl
  | stmt s => cases s <;> rfl

theorem isWatch_erased (memo : Bool) (x : Part) : x.erased.isWatch o memo = x.isWatch o memo := by
  cases x with
  | expr e => rfl
  | stmt s =>
    cases s with
    | labeled m l body =>
      cases body with
      | expr xm x => cases x <;> rfl
      | _ => rfl
    | _ => rfl

theorem call?_erased (x : Part) : x.erased.call? = x.call? := by
  cases x with
  | stmt s => rfl
  | expr e =>
    cases e with
    | call m c as optional => exact congrArg some (Prod.ext c.face_erased (Expr.faces_erased as))
    | _ => rfl

theorem startsUpdate_erased (x : Part) :
    x.erased.startsUpdate o F block = x.startsUpdate o F block := by
  cases x with
  | expr e => rfl
  | stmt s =>
    cases s with
    | labeled m l body =>
      cases body with
      | expr xm x =>
        cases x with
        | assign am op target init =>
          change (_ && Face.updates F block _ [init.erased.face]) = _
          rw [init.face_erased]
          rfl
        | _ => rfl
      | _ => rfl
    | _ => rfl

end Part

namespace Program

variable {p : Program} {o : Options} {log : List LogRecord} {d : Desugared}

theorem expands_of_desugar (h : p.desugar o = (log, .ok d)) :
    Expands o.withDefaults {} p.numbered.1.parts d.expansions d.program.parts := by
  obtain ⟨-, h⟩ := desugarWith_of_desugar h
  unfold desugarWith at h
  dsimp only at h
  split at h
  · cases h
  · next body p' hrun =>
    cases h
    obtain ⟨_, hturns⟩ := Stmt.turnsList p.numbered.1.body hrun
    exact hturns.expands

theorem mentions_of_call {i : Ident} {as : List Expr} {optional : Bool} (hv : p.parts.Visited)
    (hfree : p.sites.MemberFree) (hx : .expr (.call m (.ident i) as optional) ∈ p.parts.flat) :
    (.reference, i.name) ∈ p.sites.mentions := by
  obtain ⟨r, hr⟩ := (Stmt.shownList p.body hv hfree _ hx rfl).holds p.analyze Table.root
  have huse : Site.use i ∈ p.sites.flat := hr.mem_flat (by
    simp [Part.sites, Expr.sites, Sites.flat])
  exact List.mem_filterMap.2 ⟨_, huse, rfl⟩

theorem number_updates_of_parse (hv : p.parts.Visited) (hfree : p.sites.MemberFree)
    (h : p.desugar o = (log, .ok d)) (block : Bool) :
    p.parts.number (Part.isUpdate d.expansions.modifiers block) = 0 := by
  apply Parts.number_eq_zero
  intro x hx
  rw [Bool.eq_false_iff]
  intro hupdate
  obtain ⟨m, i, as, optional, rfl, hi⟩ := Part.exists_of_isUpdate hupdate
  obtain ⟨b, hb, hname⟩ := List.mem_map.1 hi
  apply modifier_not_mentioned hfree h hb .reference
  rw [hname]
  exact mentions_of_call hv hfree hx

theorem number_startsUpdate (h : p.desugar o = (log, .ok d))
    (hfactory : o.withDefaults.stateFactory ∉ F) (block : Bool) :
    p.parts.number (Part.startsUpdate o.withDefaults F block) = 0 := by
  have hvalid := Options.validate_of_complete (desugarWith_of_desugar h).1
  have hpath := (Options.words_of_validate hvalid).2.1
  apply Parts.number_eq_zero
  intro x _
  rw [Bool.eq_false_iff]
  intro hstart
  obtain ⟨span, as, hupdates⟩ := Part.updates_of_startsUpdate hstart
  obtain ⟨f, hf, hface⟩ := Face.mem_of_updates hupdates
  obtain hname | ⟨_, _, _, hmember⟩ := (factory_of_isPath hpath span).1
  · rw [hname] at hface
    cases hface
    exact hfactory hf
  · rw [hmember] at hface
    cases hface

/-- The account of a run is exact: of labels it counts those of the program, of mutations the calls
of modifiers in the result. The only other calls that look like one come from a state function that
has the name of a modifier. -/
theorem desugar_counts {src : Text} (hp : Program.parse src = .ok p) (hfree : p.sites.MemberFree)
    (h : p.desugar o = (log, .ok d)) :
    d.expansions.bindings.length = p.parts.number (Part.isState o.withDefaults) ∧
      d.expansions.memos = p.parts.number (Part.isWatch o.withDefaults true) ∧
      d.expansions.effects = p.parts.number (Part.isWatch o.withDefaults false) ∧
      (∀ block, d.program.parts.number (Part.isUpdate d.expansions.modifiers block) =
        d.expansions.updates block +
          p.parts.number (Part.startsUpdate o.withDefaults d.expansions.modifiers block)) ∧
      (o.withDefaults.stateFactory ∉ d.expansions.modifiers →
        d.expansions.mutations =
          d.program.parts.number (Part.isUpdate d.expansions.modifiers false) ∧
        d.expansions.wrapped =
          d.program.parts.number (Part.isUpdate d.expansions.modifiers true)) := by
  have hv := visited_of_parse hp
  have hexp := expands_of_desugar h
  obtain ⟨hs, hm, he⟩ := hexp.number_labels (visited_numbered hv)
  rw [Parts.number_numbered Part.isState_erased] at hs
  rw [Parts.number_numbered (Part.isWatch_erased _)] at hm he
  have hupdates (block : Bool) :
      d.program.parts.number (Part.isUpdate d.expansions.modifiers block) =
        d.expansions.updates block +
          p.parts.number (Part.startsUpdate o.withDefaults d.expansions.modifiers block) := by
    have hmem : ∀ b ∈ d.expansions.bindings, b.modifier.name ∈ d.expansions.modifiers :=
      fun b hb => List.mem_map.2 ⟨b, hb, rfl⟩
    have hexact := hexp.number_updates (visited_numbered hv) hmem block
    rw [Parts.number_numbered fun x => Part.isUpdate_congr x.call?_erased,
      Parts.number_numbered Part.startsUpdate_erased, number_updates_of_parse hv hfree h] at hexact
    have hstart : ({} : Expansions).updates block = 0 := by cases block <;> rfl
    omega
  refine ⟨by simpa using hs, by simpa using hm, by simpa using he, hupdates, fun hfactory => ?_⟩
  have hfalse := hupdates false
  have htrue := hupdates true
  rw [number_startsUpdate h hfactory] at hfalse htrue
  exact ⟨hfalse.symm, htrue.symm⟩

/-- All the kinds at once: a state, three mutations, an effect and a memo. -/
theorem desugar_counts_all :
    ∃ p log d, Program.parse
        ("ref: n = 0; n++; n = 2; n.a = 1; watch: n => 1; watch: t = n => n" : Text) = .ok p ∧
      p.sites.MemberFree ∧ p.desugar .empty = (log, .ok d) ∧
      d.expansions.mutations = 2 ∧ d.expansions.wrapped = 1 ∧
      d.expansions.bindings.length = p.parts.number (Part.isState Options.empty.withDefaults) ∧
      d.expansions.memos = p.parts.number (Part.isWatch Options.empty.withDefaults true) ∧
      d.expansions.effects = p.parts.number (Part.isWatch Options.empty.withDefaults false) ∧
      d.program.parts.number (Part.isUpdate d.expansions.modifiers false) = 2 ∧
      d.program.parts.number (Part.isUpdate d.expansions.modifiers true) = 1 := by
  obtain ⟨p, log, d, hp, hd, h⟩ := Text.exists_of_desugars .empty
    "ref: n = 0; n++; n = 2; n.a = 1; watch: n => 1; watch: t = n => n"
    (fun p d => decide (p.sites.MemberFree ∧ d.expansions.mutations = 2 ∧
      d.expansions.wrapped = 1 ∧ Options.empty.withDefaults.stateFactory ∉ d.expansions.modifiers))
    (by decide +kernel)
  obtain ⟨hfree, hmutations, hwrapped, hfactory⟩ := of_decide_eq_true h
  obtain ⟨hs, hm, he, -, hexact⟩ := desugar_counts hp hfree hd
  obtain ⟨hfalse, htrue⟩ := hexact hfactory
  exact ⟨p, log, d, hp, hfree, hd, hmutations, hwrapped, hs, hm, he, hfalse ▸ hmutations,
    htrue ▸ hwrapped⟩

/-- Names of modifiers are made without regard to the state function: here both are the same, and
the call that declares the state looks like a mutation that nobody counted. -/
theorem desugar_counts_factory :
    ∃ p log d, Program.parse ("ref: x = y => y;" : Text) = .ok p ∧ p.sites.MemberFree ∧
      p.desugar { Options.empty with stateFactory := "_setX" } = (log, .ok d) ∧
      d.expansions.mutations = 0 ∧
      d.program.parts.number (Part.isUpdate d.expansions.modifiers false) = 1 := by
  obtain ⟨p, log, d, hp, hd, h⟩ := Text.exists_of_desugars
    { Options.empty with stateFactory := "_setX" } "ref: x = y => y;"
    (fun p d => decide (p.sites.MemberFree ∧ d.expansions.mutations = 0 ∧
      d.program.parts.number (Part.isUpdate d.expansions.modifiers false) = 1))
    (by decide +kernel)
  obtain ⟨hfree, hmutations, hnumber⟩ := of_decide_eq_true h
  exact ⟨p, log, d, hp, hfree, hd, hmutations, hnumber⟩

end Program
end LabelHooks
