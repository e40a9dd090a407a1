import LabelHooks.Proofs.Parts
import LabelHooks.Reactive.Options

/-!
Where statements stand: in a list of statements, or alone under what holds them. Declarations of
constants are followed through the pass together with the labels that become such declarations.
-/

namespace LabelHooks

inductive Slot where
  /-- In the list of a program, a block, a function body or a case. -/
  | listed
  /-- As the only statement under a condition, a loop or a label. -/
  | alone
  | exported
deriving DecidableEq, Repr

namespace Stmt

def introduces (o : Options) : Stmt → Bool
  | .labeled _ l (.expr _ (.assign _ _ _ _)) => o.classify l.name ≠ .unmatched
  | _ => false

def isConst : Stmt → Bool
  | .varDecl (.mk _ .const _) => true
  | _ => false

def const? (s : Stmt) : Option Mark := if s.isConst then some s.mark else none

def constant? (o : Options) (s : Stmt) : Option Mark :=
  if s.introduces o || s.isConst then some s.mark else none

theorem const?_ne_none {s : Stmt} : s.const? ≠ none ↔ s.isConst = true := by
  rw [const?]
  split <;> simp [*]

theorem constant?_ne_none {o : Options} {s : Stmt} :
    s.constant? o ≠ none ↔ s.introduces o = true ∨ s.isConst = true := by
  rw [constant?, ← Bool.or_eq_true]
  split <;> simp [*]

def listed (list : List Stmt) : List (Slot × Stmt) := list.map (.listed, ·)

end Stmt

def Block.held (b : Block) : List (Slot × Stmt) := Stmt.listed b.list

def Block.held? : Option Block → List (Slot × Stmt)
  | none => []
  | some b => b.held

def Body.held : Body → List (Slot × Stmt)
  | .block b => b.held
  | .expr _ => []

def Func.held : Func → List (Slot × Stmt)
  | .mk _ _ _ body _ _ => body.held

def Catch.held? : Option Catch → List (Slot × Stmt)
  | none => []
  | some (.mk _ _ body) => body.held

def Case.held : Case → List (Slot × Stmt)
  | .mk _ _ body => Stmt.listed body

def Part.held : Part → List (Slot × Stmt)
  | .expr (.arrow _ _ _ body) => body.held
  | .expr (.function _ f) | .stmt (.funcDecl _ f) => f.held
  | .stmt (.block b) => b.held
  | .stmt (.ifElse _ _ yes no) => (.alone, yes) :: no.toList.map (.alone, ·)
  | .stmt (.labeled _ _ body) | .stmt (.forLoop _ _ _ _ body) | .stmt (.forIn _ _ _ body _ _)
  | .stmt (.whileLoop _ _ body) | .stmt (.doWhile _ body _) => [(.alone, body)]
  | .stmt (.tryCatch _ b handler finalizer) =>
    b.held ++ Catch.held? handler ++ Block.held? finalizer
  | .stmt (.switch _ _ cases) => cases.flatMap Case.held
  | .stmt (.exportDecl _ _ decl) => [(.exported, decl)]
  | _ => []

theorem Part.held_of_isWord {x : Part} (h : x.isWord = true) : x.held = [] := by
  cases x with
  | stmt s => cases h
  | expr e => cases e <;> first | rfl | cases h

def Program.held (p : Program) : List (Slot × Stmt) :=
  Stmt.listed p.body ++ p.parts.flat.flatMap Part.held

def marksOf (f : Stmt → Option Mark) (held : List (Slot × Stmt)) : List (Slot × Mark) :=
  held.filterMap fun a => (f a.2).map (a.1, ·)

section Marks

variable {f g : Stmt → Option Mark} {xs ys xs' ys' : List (Slot × Stmt)}

@[simp] theorem marksOf_append : marksOf f (xs ++ ys) = marksOf f xs ++ marksOf f ys :=
  List.filterMap_append ..

theorem marksOf_cons_congr {k : Slot} {s s' : Stmt} (hs : f s' = g s)
    (h : marksOf f xs' = marksOf g xs) : marksOf f ((k, s') :: xs') = marksOf g ((k, s) :: xs) := by
  simp only [marksOf, List.filterMap_cons, hs] at h ⊢
  rw [h]

theorem marksOf_append_congr (hx : marksOf f xs' = marksOf g xs)
    (hy : marksOf f ys' = marksOf g ys) :
    marksOf f (xs' ++ ys') = marksOf g (xs ++ ys) := by
  rw [marksOf_append, marksOf_append, hx, hy]

theorem mem_marksOf (f : Stmt → Option Mark) (held : List (Slot × Stmt)) (k : Slot) :
    (∃ m, (k, m) ∈ marksOf f held) ↔ ∃ s, (k, s) ∈ held ∧ f s ≠ none := by
  constructor
  · rintro ⟨m, hm⟩
    obtain ⟨⟨k', s⟩, hs, hf⟩ := List.mem_filterMap.1 hm
    obtain ⟨m', hm', heq⟩ := Option.map_eq_some_iff.1 hf
    cases heq
    exact ⟨s, hs, by simp [hm']⟩
  · rintro ⟨s, hs, hf⟩
    obtain ⟨m, hm⟩ := Option.ne_none_iff_exists'.1 hf
    exact ⟨m, List.mem_filterMap.2 ⟨(k, s), hs, by simp [hm]⟩⟩

end Marks

namespace Parts

variable {f : Stmt → Option Mark} {ps qs : Parts}

def marksOf (f : Stmt → Option Mark) (ps : Parts) : List (Slot × Mark) :=
  LabelHooks.marksOf f (ps.flat.flatMap Part.held)

@[simp] theorem marksOf_nil : Parts.nil.marksOf f = [] := rfl

@[simp] theorem marksOf_append : (ps ++ qs).marksOf f = ps.marksOf f ++ qs.marksOf f := by
  rw [marksOf, flat_append, List.flatMap_append, LabelHooks.marksOf_append]
  rfl

@[simp] theorem marksOf_above (x : Part) :
    (above x ps).marksOf f = LabelHooks.marksOf f x.held ++ ps.marksOf f := by
  rw [marksOf, flat_above, List.flatMap_cons, LabelHooks.marksOf_append]
  rfl

theorem marksOf_of_flat (h : ∀ x ∈ ps.flat, x.held = []) : ps.marksOf f = [] := by
  rw [marksOf, List.flatMap_eq_nil_iff.2 h]
  rfl

theorem marksOf_skip (h : (Parts.skip ps .nil).Visited) :
    (Parts.skip ps .nil).marksOf f = [] := by
  apply marksOf_of_flat
  intro x hx
  exact Part.held_of_isWord (visited_skip.1 h x (by simpa [flat] using hx))

end Parts
end LabelHooks
