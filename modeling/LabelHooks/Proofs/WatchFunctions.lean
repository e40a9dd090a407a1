import LabelHooks.Layout.Print
import LabelHooks.Proofs.Marking
import LabelHooks.Proofs.Rejection
import LabelHooks.Proofs.Unrenaming

/-!
Where giving parameters their names back changes a program: at identifiers in the functions under
the watch label only, and nowhere else. Which functions these are is said by the labels of the
program, not by the way it is walked.
-/

namespace LabelHooks
set_option autoImplicit true

/-- The tree without the names of its identifiers. -/
def Marking.unnamed : Marking := ⟨id, fun _ => []⟩

def Program.unnamed (p : Program) : Program := p.marked .unnamed

def Node.ident? (n : Node) : Option Ident :=
  if n.kind = .ident then some ⟨n.mark, n.name⟩ else none

namespace Outline

/-- The identifiers in the order of a walk. -/
def idents (os : List Outline) : List Ident :=
  (walkList (fun _ => true) os).filterMap Node.ident?

end Outline

def Program.idents (p : Program) : List Ident := p.nodes.filterMap Node.ident?

/-- An anonymous function directly under a label for which `named` holds, or on the right side of
an assignment there. -/
def Parts.FunctionUnder (ps : Parts) (named : Ident → Prop) (f : List Expr × Body) : Prop :=
  ∃ m l s, .stmt (.labeled m l s) ∈ ps.flat ∧ named l ∧ s.value.anonymous? = some f

namespace Restore

/-- The name is recorded for the identifier, and for a parameter that has the same name. -/
def Restores (renames : Renames) (ps : List Expr) (name : Text) (i : Ident) : Prop :=
  recorded renames i = some name ∧
    ∃ j, .ident j ∈ ps ∧ j.name = i.name ∧ recorded renames j = some name

/-- The functions under the label, and those in them under a label that gets its name back. -/
inductive Watched (p : Program) (label : Text) (renames : Renames) : List Expr × Body → Prop
  | plain : p.parts.FunctionUnder (·.name = label) f → Watched p label renames f
  | restored : Watched p label renames f →
      f.2.parts.FunctionUnder (Restores renames f.1 label) g → Watched p label renames g

/-- The identifier is a parameter of the function or stands in its body. -/
def Holds (f : List Expr × Body) (i : Ident) : Prop :=
  .ident i ∈ f.1 ∨ i ∈ Outline.idents f.2.outline

/-- An identifier stays as it is, or it gets the name recorded where it starts, by a parameter of
a watch function that holds it. -/
def Follows (p : Program) (label : Text) (renames : Renames) (i i' : Ident) : Prop :=
  i' = i ∨ i'.mark = i.mark ∧ (∃ f, p.parts.FunctionUnder (·.name = label) f ∧ Holds f i) ∧
    ∃ f, Watched p label renames f ∧ Holds f i ∧ Restores renames f.1 i'.name i

/-- The watch functions around a place, whose parameters are its frames. -/
structure Around (p : Program) (label : Text) (renames : Renames) (fs : Frames)
    (ws : List (List Expr × Body)) : Prop where
  frames : fs = ws.map Prod.fst
  watched : ∀ f ∈ ws, Watched p label renames f
  outer : ∀ f ∈ ws.getLast?, p.parts.FunctionUnder (·.name = label) f

/-- A watch function at a place where the watch functions `ws` stand around. -/
structure Opens (p : Program) (label : Text) (renames : Renames) (ws : List (List Expr × Body))
    (f : List Expr × Body) : Prop where
  watched : Watched p label renames f
  outer : ws = [] → p.parts.FunctionUnder (·.name = label) f

variable {p : Program} {label : Text} {renames : Renames} {ws : List (List Expr × Body)}
  {n : Naming} {fs : Frames}

theorem Renamed.param (h : Renamed renames ([.ident i] :: fs) i i') (hi : .ident i ∈ ps) :
    Renamed renames (ps :: fs) i i' := by
  obtain h | ⟨hmark, hrec, qs, hqs, j, hj, hname⟩ := h
  · exact .inl h
  · obtain rfl | hqs := List.mem_cons.1 hqs
    · rw [List.mem_singleton] at hj
      exact .inr ⟨hmark, hrec, ps, .head _, j, hj ▸ hi, hname⟩
    · exact .inr ⟨hmark, hrec, qs, .tail _ hqs, j, hj, hname⟩

theorem Around.cons (h : Around p label renames fs ws) (hf : Opens p label renames ws f) :
    Around p label renames (f.1 :: fs) (f :: ws) where
  frames := by simp [h.frames]
  watched := List.forall_mem_cons.2 ⟨hf.watched, h.watched⟩
  outer g hg := by
    cases ws with
    | nil =>
      obtain rfl : f = g := by simpa using hg
      exact hf.outer rfl
    | cons g' ws => exact h.outer g (by simpa using hg)

theorem Around.follows (h : Around p label renames fs ws) (hi : ∀ f ∈ ws, Holds f i)
    (hr : Renamed renames fs i i') : Follows p label renames i i' := by
  obtain heq | ⟨hmark, hrec, ps, hps, hparam⟩ := hr
  · exact .inl heq
  · rw [h.frames] at hps
    obtain ⟨f, hf, rfl⟩ := List.mem_map.1 hps
    have hne : ws ≠ [] := List.ne_nil_of_mem hf
    have hlast : Holds (ws.getLast hne) i := hi _ (List.getLast_mem hne)
    exact .inr ⟨hmark, ⟨_, h.outer _ (List.getLast?_eq_some_getLast hne), hlast⟩,
      f, h.watched f hf, hi f hf, hrec, hparam⟩

/-- A function under a label that has the name or gets it back. -/
theorem Around.opens (h : Around p label renames fs ws)
    (hp : .stmt (.labeled m l s) ∈ p.parts.flat)
    (hws : ∀ f ∈ ws, .stmt (.labeled m l s) ∈ f.2.parts.flat) (hr : Renamed renames fs l l')
    (hl : l'.name = label) (hf : s.value.anonymous? = some f) : Opens p label renames ws f := by
  obtain rfl | ⟨-, hrec, ps, hps, hparam⟩ := hr
  · have hunder : p.parts.FunctionUnder (·.name = label) f := ⟨m, _, s, hp, hl, hf⟩
    exact ⟨.plain hunder, fun _ => hunder⟩
  · rw [h.frames] at hps
    obtain ⟨g, hg, rfl⟩ := List.mem_map.1 hps
    rw [hl] at hrec hparam
    refine ⟨.restored (h.watched g hg) ⟨m, l, s, hws g hg, ⟨hrec, hparam⟩, hf⟩, fun hnil => ?_⟩
    subst hnil
    cases hg

/-- The identifiers of a tree with the parts `xs` are followed wherever the frames are `fs` and
`g`, if any, is a watch function. -/
def Tracks (p : Program) (label : Text) (renames : Renames) (fs : Frames)
    (g : Option (List Expr × Body)) (xs : List Part) (os os' : List Outline) : Prop :=
  ∀ ws, Around p label renames fs ws → (∀ f ∈ g, Opens p label renames ws f) →
    (∀ x ∈ xs, x ∈ p.parts.flat ∧ ∀ f ∈ ws, x ∈ f.2.parts.flat) →
    (∀ i ∈ Outline.idents os, ∀ f ∈ ws, Holds f i) →
    List.Forall₂ (Follows p label renames) (Outline.idents os) (Outline.idents os')

namespace Tracks

open Outline (idents ofIdent walkList)

theorem nil : Tracks p label renames fs g xs [] [] := fun _ _ _ _ _ => .nil

theorem idents_append (os qs : List Outline) : idents (os ++ qs) = idents os ++ idents qs := by
  rw [idents, Outline.walkList_append, List.filterMap_append]
  rfl

theorem append (h : Tracks p label renames fs g xs os os')
    (h' : Tracks p label renames fs g ys qs qs') :
    Tracks p label renames fs g (xs ++ ys) (os ++ qs) (os' ++ qs') := by
  intro ws hws hg hparts hidents
  rw [List.forall_mem_append] at hparts
  simp only [idents_append, List.forall_mem_append] at hidents ⊢
  exact List.rel_append (h ws hws hg hparts.1 hidents.1) (h' ws hws hg hparts.2 hidents.2)

/-- Identifiers that are in no part. -/
theorem before (h : Tracks p label renames fs g [] os os')
    (h' : Tracks p label renames fs g ys qs qs') :
    Tracks p label renames fs g ys (os ++ qs) (os' ++ qs') := append h h'

/-- A node that is no identifier. -/
theorem above (h : Tracks p label renames fs g xs os os') (k k' : Node) (hk : k.kind ≠ .ident)
    (hk' : k'.kind ≠ .ident) :
    Tracks p label renames fs g xs (Outline.above k os) (Outline.above k' os') := by
  have hos : idents (Outline.above k os) = idents os := by
    simp [idents, Node.ident?, hk]
  have hos' : idents (Outline.above k' os') = idents os' := by
    simp [idents, Node.ident?, hk']
  unfold Tracks
  rw [hos, hos']
  exact h

theorem mono (h : Tracks p label renames fs none xs os os') (hsub : xs ⊆ ys) :
    Tracks p label renames fs g ys os os' :=
  fun ws hws _ hparts => h ws hws nofun fun x hx => hparts x (hsub hx)

theorem part (h : Tracks p label renames fs g xs os os') :
    Tracks p label renames fs g (x :: xs) os os' :=
  fun ws hws hg hparts => h ws hws hg (List.forall_mem_cons.1 hparts).2

theorem leaf (k : Node) (hk : k.kind ≠ .ident) :
    Tracks p label renames fs g xs [Outline.leaf k] [Outline.leaf k] :=
  above nil k k hk hk

theorem literal? (l : Option Literal) :
    Tracks p label renames fs g xs (l.toList.map Outline.ofLiteral)
      (l.toList.map Outline.ofLiteral) := by
  cases l with
  | none => exact nil
  | some l => exact leaf (.ofLiteral l) nofun

theorem ident (hr : Renamed renames fs i i') :
    Tracks p label renames fs g xs [ofIdent i] [ofIdent i'] :=
  fun _ hws _ _ hi => .cons (hws.follows (hi i (.head _)) hr) .nil

/-- A parameter of a watch function is held by that function too. -/
theorem param {w : Bool} (hr : Renamed renames (if w then [.ident i] :: fs else fs) i i')
    (hi : w = true → .ident i ∈ f.1) :
    Tracks p label renames fs (if w then some f else none) xs [ofIdent i] [ofIdent i'] := by
  cases w with
  | false => exact ident hr
  | true =>
    intro ws hws hg _ hidents
    have hfollows : Follows p label renames i i' := (hws.cons (hg f rfl)).follows
      (List.forall_mem_cons.2 ⟨.inl (hi rfl), hidents i (.head _)⟩) (hr.param (hi rfl))
    exact .cons hfollows .nil

/-- The body of a watch function has one frame more. -/
theorem body {w : Bool} {b : Body}
    (h : Tracks p label renames (if w then ps :: fs else fs) none b.parts.flat b.outline os') :
    Tracks p label renames fs (if w then some (ps, b) else none) b.parts.flat b.outline os' := by
  cases w with
  | false => exact h
  | true =>
    intro ws hws hg hparts hidents
    refine h ((ps, b) :: ws) (hws.cons (hg _ rfl)) nofun (fun x hx => ?_) fun i hi => ?_
    · exact ⟨(hparts x hx).1, List.forall_mem_cons.2 ⟨hx, (hparts x hx).2⟩⟩
    · exact List.forall_mem_cons.2 ⟨.inr hi, hidents i hi⟩

theorem labeled {w : Bool} (hr : Renamed renames fs l l') (hw : w = true → l'.name = label)
    (h : Tracks p label renames fs (if w then s.value.anonymous? else none) s.parts.flat os os') :
    Tracks p label renames fs none (.stmt (.labeled m l s) :: s.parts.flat) (ofIdent l :: os)
      (ofIdent l' :: os') := by
  intro ws hws _ hparts hidents
  obtain ⟨hl, hs⟩ := List.forall_mem_cons.1 hparts
  have hrest : List.Forall₂ (Follows p label renames) (idents os) (idents os') := by
    refine h ws hws (fun f hf => ?_) hs fun i hi => hidents i (.tail _ hi)
    cases w with
    | false => cases hf
    | true => exact hws.opens hl.1 hl.2 hr (hw rfl) hf
  exact .cons (hws.follows (hidents l (.head _)) hr) hrest

variable (hn : n.Lawful renames)
include hn

theorem ident? (l : Option Ident) : Tracks p label renames fs g xs (l.toList.map ofIdent)
    ((l.map (n.rename fs)).toList.map ofIdent) := by
  cases l with
  | none => exact nil
  | some i => exact ident (hn.renamed fs i)

theorem imports (specs : List ImportSpec) : Tracks p label renames fs g xs
    (specs.flatMap (·.outline)) ((specs.map (n.importSpec fs)).flatMap (·.outline)) := by
  induction specs with
  | nil => exact nil
  | cons s specs ih =>
    refine before ?_ ih
    cases s with
    | named m i j =>
      exact above (before (ident (hn.renamed fs i)) (ident (hn.renamed fs j))) _ _ nofun nofun
    | default m i => exact above (ident (hn.renamed fs i)) _ _ nofun nofun
    | star m i => exact above (ident (hn.renamed fs i)) _ _ nofun nofun

theorem exports (specs : List ExportSpec) : Tracks p label renames fs g xs
    (specs.flatMap (·.outline)) ((specs.map (n.exportSpec fs)).flatMap (·.outline)) := by
  induction specs with
  | nil => exact nil
  | cons s specs ih =>
    refine before (above ?_ _ _ nofun nofun) ih
    exact before (ident (hn.renamed fs s.source)) (ident (hn.renamed fs s.exported))

end Tracks

instance : Nonempty Body := ⟨.expr .hole⟩

instance : Nonempty Mark := ⟨⟨⟨⟨0, 0, 0⟩, ⟨0, 0, 0⟩⟩, [], none⟩⟩

namespace Naming

open Outline (idents ofIdent walkList)

attribute [local simp] expr expr? exprs func body block block? varDecl declarators head head?
  handler? cases stmt stmt? stmts

attribute [local simp] Expr.parts Expr.parts? Expr.partsList Body.parts Func.parts Block.parts
  Block.parts? Declarator.partsList VarDecl.parts ForHead.parts ForHead.parts? Catch.parts?
  Case.partsList Stmt.parts Stmt.parts? Stmt.partsList

attribute [local simp] Expr.outline Expr.outline? Expr.outlineList Body.outline Func.outline
  Block.outline Block.outline? Declarator.outlineList VarDecl.outline ForHead.outline
  ForHead.outline? Catch.outline? Case.outlineList Stmt.outline Stmt.outline? Stmt.outlineList

/-- What is tracked from `x` to its result, for things that are no function. -/
abbrev Tracked (p : Program) (n : Naming) (renames : Renames) (parts : α → Parts)
    (outline : α → List Outline) (f : Frames → α → α) (fs : Frames) (x : α) : Prop :=
  Tracks p n.label renames fs none (parts x).flat (outline x) (outline (f fs x))

theorem tracked_stmts (hn : n.Lawful renames) (fs : Frames) (ss : List Stmt) :
    Tracked p n renames Stmt.partsList Stmt.outlineList n.stmts fs ss := by
  apply stmts.induct n
    (fun fs w e => Tracks p n.label renames fs (if w then e.anonymous? else none)
      (e.parts true).flat e.outline (n.expr fs w e).outline)
    (Tracked p n renames Body.parts Body.outline n.body)
    (Tracked p n renames Block.parts Block.outline n.block)
    (Tracked p n renames Stmt.partsList Stmt.outlineList n.stmts)
    (fun fs w s => Tracks p n.label renames fs (if w then s.value.anonymous? else none)
      s.parts.flat s.outline (n.stmt fs w s).outline)
    (Tracked p n renames Case.partsList Case.outlineList n.cases)
    (Tracked p n renames (Expr.parts? true) Expr.outline? n.expr?)
    (Tracked p n renames Block.parts? Block.outline? n.block?)
    (Tracked p n renames Catch.parts? Catch.outline? n.handler?)
    (Tracked p n renames (ForHead.parts true) ForHead.outline n.head)
    (Tracked p n renames VarDecl.parts VarDecl.outline n.varDecl)
    (Tracked p n renames Declarator.partsList Declarator.outlineList n.declarators)
    (Tracked p n renames ForHead.parts? ForHead.outline? n.head?)
    (Tracked p n renames Stmt.parts? Stmt.outline? n.stmt?)
    (fun fs w f => ∀ m, Tracks p n.label renames fs
      (if w then (Expr.function m f).anonymous? else none) f.parts.flat f.outline
      (n.func fs w f).outline)
    (fun fs w es => ∀ g : List Expr × Body, (w = true → es ⊆ g.1) →
      Tracks p n.label renames fs (if w then some g else none) (Expr.partsList true es).flat
        (Expr.outlineList es) (Expr.outlineList (n.exprs fs w es)))
  -- Arrow functions, functions, labels and parameters are where frames and watch functions arise.
  case case12 =>
    intro fs w m isAsync ps b ihps ihb
    have hps := ihps (ps, b) fun _ => List.Subset.refl ps
    simp only [Expr.parts, Expr.outline, expr, Parts.flat_when, Parts.flat_above,
      Parts.flat_append, Expr.flat_partsList]
    exact .part (.above (.append hps (.body ihb)) _ _ (by simp) (by simp))
  case case30 =>
    intro fs w m name ps b isAsync generator w' ihps ihb m'
    have hg : (if w then (Expr.function m' (.mk m name ps b isAsync generator)).anonymous?
        else none) = if w' then some (ps, .block b) else none := by
      cases w <;> cases name <;> cases generator <;> rfl
    have hps := ihps (ps, .block b) fun _ => List.Subset.refl ps
    have hbody := Tracks.body (b := .block b) ihb
    simp only [Func.parts, Func.outline, func, Parts.flat_append, Expr.flat_partsList]
    rw [hg]
    exact .above (.append (.before (.ident? hn name) hps) hbody) _ _ (by simp) (by simp)
  case case40 =>
    intro fs w m l s ih
    have hs := Tracks.labeled (m := m) (hn.renamed fs l) of_decide_eq_true ih
    simp only [Stmt.parts, Stmt.outline, stmt, Parts.flat_above]
    exact .mono (.above hs _ _ (by simp) (by simp)) (List.Subset.refl _)
  case case61 =>
    intro fs w i es ih g hg
    simp only [Expr.partsList, Parts.flat_append, Expr.outlineList, exprs]
    exact .append (.param (hn.renamed _ i) fun hw => hg hw (.head _))
      (ih g fun hw => List.subset_of_cons_subset (hg hw))
  case case62 =>
    intro fs w e es he ihe ih g hg
    simp only [Expr.partsList, Parts.flat_append, Expr.outlineList]
    rw [exprs, Expr.outlineList]
    · exact .append (ihe.mono (List.Subset.refl _))
        (ih g fun hw => List.subset_of_cons_subset (hg hw))
    · exact he
  all_goals
    intros
    simp [Tracked, Expr.anonymous?, Stmt.value, -List.append_assoc, -List.nil_append,
      -List.append_nil, *] at * <;>
    grind [Tracks.nil, Tracks.append, Tracks.before, Tracks.above, Tracks.part, Tracks.mono,
      Tracks.leaf, Tracks.literal?, Tracks.ident, Tracks.ident?, Tracks.imports, Tracks.exports,
      Lawful.renamed, Node.ofLiteral, Outline.ofLiteral]

/-- Nothing but names is different. -/
abbrev Keeps (marked : Marking → α → α) (f : Frames → α → α) (fs : Frames) (x : α) : Prop :=
  marked .unnamed (f fs x) = marked .unnamed x

theorem keeps_stmts (hn : n.Lawful renames) (fs : Frames) (ss : List Stmt) :
    Keeps Stmt.markedList n.stmts fs ss := by
  have hident (fs : Frames) (i : Ident) :
      (n.rename fs i).marked .unnamed = i.marked .unnamed := by
    simp [Ident.marked, hn.mark_rename, Marking.unnamed]
  have hident? (fs : Frames) (l : Option Ident) :
      (l.map (n.rename fs)).map (Ident.marked .unnamed) = l.map (Ident.marked .unnamed) := by
    cases l <;> simp [hident]
  have himport (fs : Frames) (s : ImportSpec) :
      (n.importSpec fs s).marked .unnamed = s.marked .unnamed := by
    cases s <;> simp [importSpec, ImportSpec.marked, hident]
  have hexport (fs : Frames) (s : ExportSpec) :
      (n.exportSpec fs s).marked .unnamed = s.marked .unnamed := by
    simp [exportSpec, ExportSpec.marked, hident]
  apply stmts.induct n (fun fs w => Keeps Expr.marked (n.expr · w) fs) (Keeps Body.marked n.body)
    (Keeps Block.marked n.block) (Keeps Stmt.markedList n.stmts)
    (fun fs w => Keeps Stmt.marked (n.stmt · w) fs) (Keeps Case.markedList n.cases)
    (Keeps Expr.marked? n.expr?) (Keeps Block.marked? n.block?)
    (Keeps Catch.marked? n.handler?) (Keeps ForHead.marked n.head)
    (Keeps VarDecl.marked n.varDecl) (Keeps Declarator.markedList n.declarators)
    (Keeps ForHead.marked? n.head?) (Keeps Stmt.marked? n.stmt?)
    (fun fs w => Keeps Func.marked (n.func · w) fs)
    (fun fs w => Keeps Expr.markedList (n.exprs · w) fs)
  case case30 =>
    intro fs w m name ps b isAsync generator w' ihps ihb
    simp only [Keeps, func, Func.marked, hident?]
    exact congrArg₂ (Func.mk _ _ · · isAsync generator) ihps ihb
  all_goals
    intros
    simp_all [Keeps, Function.comp_def]

theorem settled_value (hn : n.Lawful renames)
    (h : (n.stmt fs true s).value.anonymous? = some f) : Settled renames f.1 := by
  have hexpr (e : Expr) (he : (n.expr fs true e).anonymous? = some f) : Settled renames f.1 := by
    cases e with
    | arrow m isAsync ps b =>
      obtain rfl := Option.some.inj he
      exact hn.settled_exprs fs ps
    | function m g =>
      obtain ⟨m', name, ps, b, isAsync, generator⟩ := g
      cases name <;> cases generator <;> simp [Expr.anonymous?] at he
      subst he
      exact hn.settled_exprs fs ps
    | _ => cases he
  cases s with
  | expr m e => cases e <;> exact hexpr _ h
  | _ => cases h

/-- A watch function in the tree has the recorded parameters. -/
def SettledPart (renames : Renames) (label : Text) : Part → Prop
  | .stmt (.labeled _ l s) => l.name = label → ∀ f ∈ s.value.anonymous?, Settled renames f.1
  | _ => True

abbrev Gives (n : Naming) (renames : Renames) (parts : α → Parts) (f : Frames → α → α)
    (fs : Frames) (x : α) : Prop := (parts (f fs x)).All (SettledPart renames n.label)

theorem gives_stmts (hn : n.Lawful renames) (fs : Frames) (ss : List Stmt) :
    Gives n renames Stmt.partsList n.stmts fs ss := by
  apply stmts.induct n (fun fs w => Gives n renames (Expr.parts true) (n.expr · w) fs)
    (Gives n renames Body.parts n.body) (Gives n renames Block.parts n.block)
    (Gives n renames Stmt.partsList n.stmts)
    (fun fs w => Gives n renames Stmt.parts (n.stmt · w) fs)
    (Gives n renames Case.partsList n.cases) (Gives n renames (Expr.parts? true) n.expr?)
    (Gives n renames Block.parts? n.block?) (Gives n renames Catch.parts? n.handler?)
    (Gives n renames (ForHead.parts true) n.head) (Gives n renames VarDecl.parts n.varDecl)
    (Gives n renames Declarator.partsList n.declarators)
    (Gives n renames ForHead.parts? n.head?) (Gives n renames Stmt.parts? n.stmt?)
    (fun fs w => Gives n renames Func.parts (n.func · w) fs)
    (fun fs w => Gives n renames (Expr.partsList true) (n.exprs · w) fs)
  case case30 =>
    intro fs w m name ps b isAsync generator w' ihps ihb
    simp only [Gives, func, Func.parts, Parts.all_append, Expr.all_partsList]
    exact ⟨ihps, ihb⟩
  case case40 =>
    intro fs w m l s ih
    simp only [Gives, stmt, Stmt.parts, Parts.all_above]
    refine ⟨fun hl f hf => ?_, ih⟩
    rw [decide_eq_true hl] at hf
    exact settled_value hn hf
  all_goals
    intros
    simp_all [Gives, SettledPart, Expr.all_parts, Expr.all_partsList, Expr.all_parts?,
      ForHead.all_parts]

end Naming
end Restore

namespace Program

/-- Nothing changes but names, and only in the functions directly under the label: an identifier
gets the name recorded where it starts, if a watch function that holds it has a parameter of the
name it had that gets the same. After that the parameters of all functions under the label have
their names, and nothing changes any more. -/
theorem restoreWatchParams_local (p : Program) (label : Text) (renames : Renames)
    (h : ∀ e ∈ renames, e.2 ≠ []) :
    let q := p.restoreWatchParams label renames
    q.unnamed = p.unnamed ∧ List.Forall₂ (Restore.Follows p label renames) p.idents q.idents ∧
      (∀ f, q.parts.FunctionUnder (·.name = label) f → Restore.Settled renames f.1) ∧
      q.restoreWatchParams label renames = q := by
  have hn : (Restore.naming renames label).Lawful renames := Restore.naming_lawful h
  have haround : Restore.Around p label renames [] [] := ⟨rfl, nofun, nofun⟩
  unfold restoreWatchParams
  split
  · next hnil =>
    rw [List.isEmpty_iff] at hnil
    subst hnil
    exact ⟨rfl, List.forall₂_same.2 fun i _ => .inl rfl, fun f _ j _ name => nofun, rfl⟩
  · refine ⟨?_, ?_, ?_, ?_⟩
    · have hbody := Restore.Naming.keeps_stmts hn [] p.body
      simp only [Restore.Naming.Keeps, Stmt.markedList_eq] at hbody
      exact congrArg (fun body => ({ p with body } : Program)) hbody
    · exact Restore.Naming.tracked_stmts hn [] p.body [] haround nofun (fun x hx => ⟨hx, nofun⟩)
        nofun
    · rintro f ⟨m, l, s, hmem, hl, hf⟩
      exact Restore.Naming.gives_stmts hn [] p.body _ hmem hl f hf
    · exact congrArg (fun body => ({ p with body } : Program))
        (Restore.Naming.settles_stmts [] p.body [] ⟨hn, by simp⟩)

example : Text.reads "v: x = (b) => b" (fun p => decide
    ((p.restoreWatchParams "w" [(8, "a"), (14, "a")]).format = ("v: x = b => b;\n" : Text))) =
      true := by
  decide +kernel

/-- A parameter and its use get their name back, the same name outside does not. -/
theorem restoreWatchParams_local_use :
    let renames : Renames := [(8, "a"), (14, "a"), (17, "a")]
    ∃ p, parse ("w: x = (b) => b; b" : Text) = .ok p ∧
      (p.restoreWatchParams "w" renames).format = ("w: x = a => a;\nb;\n" : Text) ∧
      (p.restoreWatchParams "w" renames).restoreWatchParams "w" renames =
        p.restoreWatchParams "w" renames := by
  intro renames
  obtain ⟨p, hp, hprint⟩ := Text.exists_of_reads "w: x = (b) => b; b"
    (fun p => decide ((p.restoreWatchParams "w" renames).format =
      ("w: x = a => a;\nb;\n" : Text))) (by decide +kernel)
  exact ⟨p, hp, of_decide_eq_true hprint,
    (restoreWatchParams_local p "w" renames (by decide)).2.2.2⟩

/-- A label that gets the name of the watch label back in a watch function makes one of the
function under it. -/
theorem restoreWatchParams_label :
    let renames : Renames := [(4, "w"), (12, "w"), (16, "z"), (22, "z")]
    ∃ p, parse ("w: (p) => \x7b p: (y) => y \x7d" : Text) = .ok p ∧
      (p.restoreWatchParams "w" renames).format =
        ("w: w => \x7b\n  w: z => z;\n\x7d;\n" : Text) := by
  intro renames
  obtain ⟨p, hp, hprint⟩ := Text.exists_of_reads "w: (p) => \x7b p: (y) => y \x7d"
    (fun p => decide ((p.restoreWatchParams "w" renames).format =
      ("w: w => \x7b\n  w: z => z;\n\x7d;\n" : Text))) (by decide +kernel)
  exact ⟨p, hp, of_decide_eq_true hprint⟩

end Program
end LabelHooks
