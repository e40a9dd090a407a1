import LabelHooks.Reactive.Restore
import Mathlib.Logic.Basic

/-!
The names that are given back: each is the one recorded where the identifier starts, and in a tree
where all parameters have theirs nothing changes any more.
-/

namespace LabelHooks
set_option autoImplicit true

namespace Restore

/-- An identifier stays as it is, or it gets the name recorded where it starts and a parameter
around it had the name it had and is recorded with the same. -/
def Renamed (renames : Renames) (fs : Frames) (i i' : Ident) : Prop :=
  i' = i ∨ i'.mark = i.mark ∧ recorded renames i = some i'.name ∧
    ∃ ps ∈ fs, ∃ p, .ident p ∈ ps ∧ p.name = i.name ∧ recorded renames p = some i'.name

/-- Names are given by the rule, and parameters get theirs. -/
structure Naming.Lawful (n : Naming) (renames : Renames) : Prop where
  renamed : ∀ fs i, Renamed renames fs i (n.rename fs i)
  param : ∀ fs i name, recorded renames i = some name → (n.rename ([.ident i] :: fs) i).name = name

/-- The parameters have the names recorded for them. -/
def Settled (renames : Renames) (ps : List Expr) : Prop :=
  ∀ p, .ident p ∈ ps → ∀ name, recorded renames p = some name → p.name = name

/-- The parameters around have their names already. -/
structure Naming.Still (n : Naming) (renames : Renames) (gs : Frames) : Prop
    extends n.Lawful renames where
  settled : ∀ ps ∈ gs, Settled renames ps

variable {renames : Renames}

namespace Naming

variable {n : Naming}

theorem Lawful.mark_rename (hn : n.Lawful renames) (fs : Frames) (i : Ident) :
    (n.rename fs i).mark = i.mark := by
  obtain h | ⟨hmark, -⟩ := hn.renamed fs i
  · rw [h]
  · exact hmark

/-- A parameter with its name back has the name recorded where it starts. -/
theorem Lawful.rename_param (hn : n.Lawful renames) (hp : p = n.rename ([.ident i] :: fs) i)
    (h : recorded renames p = some name) : p.name = name := by
  subst hp
  rw [recorded, hn.mark_rename] at h
  exact hn.param fs i name h

theorem Lawful.settled_exprs (hn : n.Lawful renames) (fs : Frames) (ps : List Expr) :
    Settled renames (n.exprs fs true ps) := by
  intro p hp
  induction ps with
  | nil => cases hp
  | cons e ps ih =>
    cases e with
    | ident i =>
      obtain hi | hp := List.mem_cons.1 hp
      · exact fun name => hn.rename_param (Expr.ident.inj hi)
      · exact ih hp
    | _ =>
      obtain hi | hp := List.mem_cons.1 hp
      · simp [expr] at hi
      · exact ih hp

namespace Still

theorem rename (h : n.Still renames gs) (i : Ident) : n.rename gs i = i := by
  obtain heq | ⟨hmark, -, ps, hps, p, hp, hname, hrec⟩ := h.renamed gs i
  · exact heq
  · have hsame : (n.rename gs i).name = i.name := (h.settled ps hps p hp _ hrec).symm.trans hname
    cases hi : n.rename gs i
    cases i
    simp_all

theorem cons (h : n.Still renames gs) (hps : Settled renames ps) : n.Still renames (ps :: gs) :=
  ⟨h.toLawful, List.forall_mem_cons.2 ⟨hps, h.settled⟩⟩

theorem inner (h : n.Still renames gs) (fs : Frames) (w : Bool) (ps : List Expr) :
    n.Still renames (if w then n.exprs fs w ps :: gs else gs) := by
  cases w with
  | false => exact h
  | true => exact h.cons (h.settled_exprs fs ps)

theorem single (h : n.Still renames gs) (fs : Frames) (w : Bool) (i : Ident) :
    n.Still renames (if w then
      [.ident (n.rename (if w then [.ident i] :: fs else fs) i)] :: gs else gs) := by
  cases w with
  | false => exact h
  | true =>
    refine h.cons fun p hp name => ?_
    exact h.rename_param (Expr.ident.inj (List.mem_singleton.1 hp))

theorem importSpec (h : n.Still renames gs) (s : ImportSpec) :
    n.importSpec gs (n.importSpec fs s) = n.importSpec fs s := by
  cases s <;> simp only [Naming.importSpec, h.rename]

theorem exportSpec (h : n.Still renames gs) (s : ExportSpec) :
    n.exportSpec gs (n.exportSpec fs s) = n.exportSpec fs s := by
  cases s
  simp only [Naming.exportSpec, h.rename]

theorem map_rename (h : n.Still renames gs) (fs : Frames) (l : Option Ident) :
    (l.map (n.rename fs)).map (n.rename gs) = l.map (n.rename fs) := by
  cases l <;> simp only [Option.map_none, Option.map_some, h.rename]

end Still

/-- Names that were given in the frames `fs` stay in frames where all is settled. -/
abbrev Settles (n : Naming) (renames : Renames) (f : Frames → α → α) (fs : Frames) (x : α) : Prop :=
  ∀ gs, n.Still renames gs → f gs (f fs x) = f fs x

attribute [local simp] expr expr? exprs func body block block? varDecl declarators head head?
  handler? cases stmt stmt? stmts

-- The cases done by hand are those where the frames grow or a clause hides another.
theorem settles_stmts (fs : Frames) (ss : List Stmt) : Settles n renames n.stmts fs ss := by
  apply stmts.induct n (fun fs w => Settles n renames (n.expr · w) fs) (Settles n renames n.body)
    (Settles n renames n.block) (Settles n renames n.stmts)
    (fun fs w => Settles n renames (n.stmt · w) fs) (Settles n renames n.cases)
    (Settles n renames n.expr?) (Settles n renames n.block?) (Settles n renames n.handler?)
    (Settles n renames n.head) (Settles n renames n.varDecl) (Settles n renames n.declarators)
    (Settles n renames n.head?) (Settles n renames n.stmt?)
    (fun fs w => Settles n renames (n.func · w) fs) (fun fs w => Settles n renames (n.exprs · w) fs)
  case case12 =>
    intro fs w m isAsync ps b ihps ihb gs h
    simp only [expr, ihps gs h, ihb _ (h.inner fs w ps)]
  case case30 =>
    intro fs w m name ps b isAsync generator w' ihps ihb gs h
    simp only [func, Option.isNone_map, h.map_rename]
    exact congrArg₂ (Func.mk m _ · · isAsync generator) (ihps gs h) (ihb _ (h.inner fs w' ps))
  case case38 =>
    intro fs w m x hx ih gs h
    cases x with
    | assign => exact absurd rfl (hx _ _ _ _)
    | _ => exact congrArg (Stmt.expr m) (ih gs h)
  case case61 =>
    intro fs w i es ih gs h
    simp only [exprs, ih gs h, (h.single fs w i).rename]
  case case62 =>
    intro fs w e es he ihe ih gs h
    cases e with
    | ident => exact absurd rfl (he _)
    | _ => exact congrArg₂ List.cons (ihe gs h) (ih gs h)
  all_goals
    intros
    intro gs h
    simp_all [Settles, h.rename, h.map_rename, h.importSpec, h.exportSpec, Function.comp_def]

end Naming

theorem mark_ident (renames : Renames) (r : Restored) (i : Ident) :
    (ident renames r i).mark = i.mark := by
  have happly : ∀ (k : Ident) names, (apply renames k names).mark = k.mark := by
    intro k names
    rw [apply]
    split
    · rfl
    · split <;> rfl
  induction r generalizing i with
  | nil => rfl
  | cons names r ih => exact (ih _).trans (happly i names)

theorem ident_restored (ps : List Expr) (fs : Frames) (i : Ident) :
    ident renames (restored renames (ps :: fs)) i =
      apply renames (ident renames (restored renames fs) i)
        (ps.foldl (addName renames (restored renames fs)) []) := by
  rw [restored, ident, List.foldl_append]
  rfl

theorem mem_addName {ps : List Expr} (h : e ∈ ps.foldl (addName renames r) names) : e ∈ names ∨
      ∃ p, .ident p ∈ ps ∧ (ident renames r p).name = e.1 ∧ recorded renames p = some e.2 := by
  induction ps generalizing names with
  | nil => exact .inl h
  | cons q ps ih =>
    obtain h | ⟨p, hp, h⟩ := ih h
    · cases q with
      | ident i =>
        cases hi : recorded renames i with
        | none =>
          simp only [addName, hi] at h
          exact .inl h
        | some name =>
          simp only [addName, hi, List.mem_cons] at h
          obtain rfl | h := h
          · exact .inr ⟨i, .head _, rfl, hi⟩
          · exact .inl h
      | _ => exact .inl h
    · exact .inr ⟨p, .tail _ hp, h⟩

theorem mem_of_lookup [BEq α] [LawfulBEq α] {l : List (α × β)} (h : l.lookup a = some b) :
    (a, b) ∈ l := by
  obtain ⟨l₁, l₂, rfl, -⟩ := List.lookup_eq_some_iff.1 h
  exact List.mem_append_right _ (.head _)

theorem Renamed.cons (h : Renamed renames fs i i') (ps : List Expr) :
    Renamed renames (ps :: fs) i i' := by
  obtain h | ⟨hmark, hrec, qs, hqs, h⟩ := h
  · exact .inl h
  · exact .inr ⟨hmark, hrec, qs, .tail _ hqs, h⟩

/-- One more watch function: a name changes only if it is still the one in the text. -/
theorem renamed_cons (hname : ∀ e ∈ renames, e.2 ≠ [])
    (h : ∀ i, Renamed renames fs i (ident renames (restored renames fs) i)) (ps : List Expr)
    (i : Ident) :
    Renamed renames (ps :: fs) i (ident renames (restored renames (ps :: fs)) i) := by
  rw [ident_restored, apply]
  split
  · exact (h i).cons ps
  · next name hlookup =>
    split
    · next hget =>
      obtain hnil | ⟨p, hp, hpi, hprec⟩ := mem_addName (mem_of_lookup hlookup)
      · cases hnil
      · have hrec : recorded renames i = some name := by
          rw [recorded, mark_ident] at hget
          rw [recorded]
          cases hi : renames.find? i.mark.span.start.offset with
          | none =>
            rw [hi] at hget
            exact absurd hget.symm (hname _ (mem_of_lookup hprec))
          | some text => exact congrArg some (by simpa [hi] using hget)
        obtain hsame | ⟨hmark, hgot, -⟩ := h i
        · obtain hpsame | ⟨-, hpgot, -⟩ := h p
          · rw [hpsame, hsame] at hpi
            exact .inr ⟨mark_ident _ _ i, hrec, ps, .head _, p, hp, hpi, hprec⟩
          · -- The parameter has its name from outside, and it is the one that `i` has.
            rw [hpgot] at hprec
            obtain rfl : i.name = name := by
              rw [hsame] at hpi
              exact hpi.symm.trans (Option.some.inj hprec)
            rw [hsame]
            exact .inl rfl
        · rw [hgot] at hrec
          rw [← Option.some.inj hrec]
          exact (h i).cons ps
    · exact (h i).cons ps

theorem naming_lawful (h : ∀ e ∈ renames, e.2 ≠ []) : (naming renames label).Lawful renames where
  renamed fs := by
    induction fs with
    | nil => exact fun i => .inl rfl
    | cons ps fs ih => exact renamed_cons h ih ps
  param fs i name hrec := by
    have hmark := mark_ident renames (restored renames fs) i
    refine (congrArg Ident.name (ident_restored _ _ _)).trans ?_
    have hlater : recorded renames (ident renames (restored renames fs) i) = some name := by
      rw [recorded, hmark]
      exact hrec
    simp [addName, hrec, apply, hlater]

end Restore

end LabelHooks
