import LabelHooks.Proofs.Patterns
import LabelHooks.Proofs.Shapes

/-!
What is bound and what is assigned to. Parameters of functions, declarators and handlers bind
names only. Parameters of an arrow were read as expressions: a member stands in them only inside a
pattern that was the target of an assignment before it became a parameter with a default.
-/

namespace LabelHooks
set_option autoImplicit true

open Parse (isSimpleTarget)
open List

namespace Expr

def isIdent : Expr → Bool
  | .ident _ => true
  | _ => false

def isWord : Expr → Bool
  | .ident _ | .literal _ => true
  | _ => false

def isPattern : Expr → Bool
  | .arrayPattern _ _ | .objectPattern _ _ | .assignPattern _ _ _ => true
  | _ => false

def isPlain (e : Expr) : Bool := e.isValue && !e.isPattern

theorem isValue_of_isPlain {e : Expr} (h : e.isPlain = true) : e.isValue = true :=
  (Bool.and_eq_true_iff.1 h).1

/-! An argument, an element of an array literal and a member of an object literal, none of them a
pattern. -/

def isPlainArgument : Expr → Bool
  | .spread _ x => x.isPlain
  | e => e.isPlain

def isPlainElement : Expr → Bool
  | .hole => true
  | e => e.isPlainArgument

def isPlainMember : Expr → Bool
  | .property _ _ _ value => value.isPlain
  | .spread _ x => x.isPlain
  | _ => false

theorem isPlainArgument_of_isPlain {e : Expr} (h : e.isPlain = true) :
    e.isPlainArgument = true := by
  cases e <;> first | exact h | cases h

theorem isPlainElement_of_isPlainArgument {e : Expr} (h : e.isPlainArgument = true) :
    e.isPlainElement = true := by
  cases e <;> first | exact h | rfl

theorem isArgument_of_isPlainArgument {e : Expr} (h : e.isPlainArgument = true) :
    e.isArgument = true := by
  cases e <;> first | rfl | cases h

theorem isElement_of_isPlainElement {e : Expr} (h : e.isPlainElement = true) :
    e.isElement = true := by
  cases e <;> first | rfl | cases h

theorem isMember_of_isPlainMember {e : Expr} (h : e.isPlainMember = true) :
    e.isMember = true := by
  cases e <;> first | rfl | cases h

mutual

/-- The leaves of a pattern, through arrays, objects, rests and defaults. Each comes with whether
it stands inside a pattern that has a default. -/
def leaves (inner : Bool) : Expr → List (Bool × Expr)
  | .hole => []
  | .arrayPattern _ es | .objectPattern _ es => leavesList inner es
  | .property _ _ _ x | .rest _ x => x.leaves inner
  | .assignPattern _ x _ => x.leaves (inner || x.isPattern)
  | e => [(inner, e)]

def leavesList (inner : Bool) : List Expr → List (Bool × Expr)
  | [] => []
  | e :: es => e.leaves inner ++ leavesList inner es

end

example (m : Mark) (i j : Ident) (x : Expr) :
    (Expr.assignPattern m (.arrayPattern m [.hole, .ident i, .rest m (.ident j)]) x).leaves false =
      [(true, .ident i), (true, .ident j)] := by cbv

theorem mem_leavesList {inner} : l ∈ leavesList inner es ↔ ∃ e ∈ es, l ∈ e.leaves inner := by
  induction es with
  | nil => simp [leavesList]
  | cons e es ih => simp [leavesList, ih]

mutual

theorem map_leaves (inner : Bool) (e : Expr) :
    (e.leaves inner).map (fun l => (true, l.2)) = e.leaves true := by
  cases e with
  | arrayPattern _ es | objectPattern _ es => exact map_leavesList inner es
  | property _ _ _ x | rest _ x => exact x.map_leaves inner
  | assignPattern _ x _ => exact x.map_leaves (inner || x.isPattern)
  | _ => rfl

theorem map_leavesList (inner : Bool) : ∀ es : List Expr,
    (leavesList inner es).map (fun l => (true, l.2)) = leavesList true es
  | [] => rfl
  | e :: es => by
    rw [leavesList, leavesList, map_append, e.map_leaves inner, map_leavesList inner es]

end

def binds (e : Expr) : Bool := (e.leaves false).all fun l => l.2.isIdent

/-- A leaf that a target may have: a name, or a member. If the target is a parameter (`binding`),
a member stands only inside a pattern that has a default. -/
def fits (binding : Bool) (l : Bool × Expr) : Bool :=
  l.2.isIdent || ((!binding || l.1) && isSimpleTarget l.2)

def isTarget (e : Expr) : Bool :=
  (isSimpleTarget e || e.isPattern) && (e.leaves false).all (fits false)

theorem binds_elems (h : es.all binds = true) :
    (leavesList false es).all (fun l => l.2.isIdent) = true := by
  rw [all_eq_true] at h ⊢
  intro l hl
  obtain ⟨e, he, hl⟩ := mem_leavesList.1 hl
  exact all_eq_true.1 (h e he) l hl

theorem binds_default (h : e.binds = true) (m : Mark) (right : Expr) :
    (assignPattern m e right).binds = true := by
  have hall : ∀ inner, (e.leaves inner).all (fun l => l.2.isIdent) =
      (e.leaves true).all fun l => l.2.isIdent := by
    intro inner
    rw [← e.map_leaves inner, all_map]
    rfl
  rw [binds, leaves, hall, ← hall false]
  exact h

def isPlace : Expr → Bool
  | .hole | .ident _ | .member _ _ _ _ _ | .arrayPattern _ _ | .objectPattern _ _
  | .assignPattern _ _ _ => true
  | .property _ _ _ x | .rest _ x => x.isPlace
  | _ => false

theorem isPlace_of_leaves {inner} :
    ∀ {e : Expr}, (∀ l ∈ e.leaves inner, isSimpleTarget l.2 = true) → e.isPlace = true
  | e, h => by
    cases e with
    | hole | ident | member | arrayPattern | objectPattern | assignPattern => rfl
    | property _ _ _ x | rest _ x => exact isPlace_of_leaves (e := x) h
    | _ => exact h _ (mem_singleton.2 rfl)

theorem isTarget_ident (i : Ident) : (ident i).isTarget = true := rfl

theorem isTarget_of_isSimpleTarget (h : isSimpleTarget e = true) : e.isTarget = true := by
  cases e with
  | ident => rfl
  | member => simp [isTarget, leaves, fits, h]
  | _ => cases h

theorem isSimpleTarget_of_fits {binding : Bool} (h : fits binding l = true) :
    isSimpleTarget l.2 = true := by
  obtain ⟨inner, e⟩ := l
  cases e with
  | ident => rfl
  | _ => exact (Bool.and_eq_true_iff.1 h).2

theorem isPlace_of_fits {binding : Bool} {e : Expr}
    (h : (e.leaves false).all (fits binding) = true) : e.isPlace = true :=
  isPlace_of_leaves fun l hl => isSimpleTarget_of_fits (all_eq_true.1 h l hl)

theorem fits_of_binds {e : Expr} (h : e.binds = true) (hl : l ∈ e.leaves false) (binding : Bool) :
    fits binding l = true := by
  simp [fits, all_eq_true.1 h l hl]

theorem isPlace_of_binds {e : Expr} (h : e.binds = true) : e.isPlace = true :=
  isPlace_of_fits (all_eq_true.2 fun _ hl => fits_of_binds h hl true)

theorem isPlace_of_isTarget {e : Expr} (h : e.isTarget = true) : e.isPlace = true :=
  isPlace_of_fits (Bool.and_eq_true_iff.1 h).2

theorem fits_of_isTarget {e : Expr} (h : e.isTarget = true) (binding : Bool)
    (hl : l ∈ e.leaves true) : fits binding l = true := by
  rw [← e.map_leaves false, mem_map] at hl
  obtain ⟨l', hl', rfl⟩ := hl
  have hsimple := isSimpleTarget_of_fits
    (all_eq_true.1 (Bool.and_eq_true_iff.1 h).2 l' hl')
  simp [fits, hsimple]

end Expr

namespace Declarator

def target : Declarator → Expr
  | .mk _ x _ => x

end Declarator

namespace VarDecl

def targets : VarDecl → List Expr
  | .mk _ _ ds => ds.map Declarator.target

end VarDecl

namespace ForHead

/-- What the head declares; an expression declares nothing. -/
def targets : ForHead → List Expr
  | .decl d => d.targets
  | .expr _ => []

def isTarget : ForHead → Bool
  | .decl _ => true
  | .expr e => e.isTarget

end ForHead

namespace Catch

def targets : Catch → List Expr
  | .mk _ param _ => param.toList

end Catch

namespace Body

def isPlain : Body → Bool
  | .block _ => true
  | .expr e => e.isPlain

theorem wellFormed_of_isPlain {b : Body} (h : b.isPlain = true) : b.wellFormed = true := by
  cases b with
  | block => rfl
  | expr => exact Expr.isValue_of_isPlain h

end Body

namespace Func

def params : Func → List Expr
  | .mk _ _ ps _ _ _ => ps

end Func

namespace Part

/-- What a part binds, other than the parameters of an arrow. -/
@[simp] def bindings : Part → List Expr
  | .expr (.function _ f) | .stmt (.funcDecl _ f) => f.params
  | .stmt (.varDecl d) => d.targets
  | .stmt (.forLoop _ init _ _ _) => init.toList.flatMap ForHead.targets
  | .stmt (.forIn _ left _ _ _ _) => left.targets
  | .stmt (.tryCatch _ _ handler _) => handler.toList.flatMap Catch.targets
  | _ => []

@[simp] def arrowParams : Part → List Expr
  | .expr (.arrow _ _ ps _) => ps
  | _ => []

/-- Literals have expressions inside, and no patterns; so have operators in front of them,
statements and bodies of arrows. An assignment has a target, and so has a pattern wherever it does
not have another. Keys that are not computed are words. -/
@[simp] def covers : Part → Bool
  | .expr (.array _ es) => es.all Expr.isPlainElement
  | .expr (.object _ es) => es.all Expr.isPlainMember
  | .expr (.template _ tag _ _) => tag.all Expr.isPlain
  | .expr (.binary _ _ x _) | .expr (.cond _ x _ _) | .expr (.call _ x _ _)
  | .stmt (.expr _ x) => x.isPlain
  | .expr (.arrow _ _ _ body) => body.isPlain
  | .expr (.seq _ es) => es.all Expr.isPlain
  | .expr (.assign _ _ left _) => left.isTarget
  | .expr (.arrayPattern _ es) | .expr (.objectPattern _ es) => es.all Expr.isPlace
  | .expr (.assignPattern _ x _) | .expr (.rest _ x) => x.isPlace
  | .expr (.property _ shape key _) => shape.computed || key.isWord
  | .expr (.member _ x prop computed _) => x.isPlain && (computed || prop.isWord)
  | .stmt (.forIn _ left _ _ _ _) => left.isTarget
  | _ => true

@[simp] def wellAimed (x : Part) : Bool :=
  x.bindings.all Expr.binds && x.arrowParams.all (fun e => (e.leaves false).all (Expr.fits true)) &&
    x.covers

end Part

/-! Patterns of expressions. -/

theorem exists_of_bind_eq_ok {f : α → Except ε β} (h : x >>= f = .ok b) :
    ∃ a, x = .ok a ∧ f a = .ok b := by
  cases x with
  | error e => cases h
  | ok a => exact ⟨a, rfl, h⟩

theorem pair_of_bind_eq_ok {x : Except Crash (α × List Mark)} {f : α → β}
    (h : (do let p ← x; return (f p.1, p.2)) = .ok (b, [])) : ∃ a, x = .ok (a, []) ∧ f a = b := by
  obtain ⟨⟨a, ms⟩, hx, h⟩ := exists_of_bind_eq_ok h
  cases h
  exact ⟨a, hx, rfl⟩

theorem pairs_of_bind_eq_ok {x : Except Crash (α × List Mark)} {y : Except Crash (β × List Mark)}
    {f : α → β → γ}
    (h : (do let p ← x; let q ← y; return (f p.1 q.1, m ++ p.2 ++ q.2)) = .ok (c, [])) :
    ∃ a b, x = .ok (a, []) ∧ y = .ok (b, []) ∧ f a b = c ∧ m = [] := by
  obtain ⟨⟨a, as⟩, hx, h⟩ := exists_of_bind_eq_ok h
  obtain ⟨⟨b, bs⟩, hy, h⟩ := exists_of_bind_eq_ok h
  simp only [pure, Except.pure, Except.ok.injEq, Prod.mk.injEq, append_eq_nil_iff] at h
  obtain ⟨rfl, ⟨rfl, rfl⟩, rfl⟩ := h
  exact ⟨a, b, hx, hy, rfl, rfl⟩

namespace Expr

theorem patternElems_cons {binding : Bool} {e : Expr} {es : List Expr}
    (h : e.isValue = true) : patternElems binding (e :: es) = (do
      let p ← e.pattern binding
      let q ← patternElems binding es
      return (p.1 :: q.1, p.2 ++ q.2)) := by
  cases e <;> first | rfl | cases h

theorem patternParams_cons (h : e.isValue = true) : patternParams (e :: es) = (do
      let p ← e.pattern true let q ← patternParams es return (p.1 :: q.1, p.2 ++ q.2)) := by
  cases e <;> first | rfl | cases h

theorem fits_default {binding inner : Bool} {m : Mark} {left left' right : Expr}
    (h : left.pattern binding = .ok (left', [])) (hleft : left.isTarget = true)
    (hl : l ∈ (assignPattern m left' right).leaves inner) : fits binding l = true := by
  have htarget : isSimpleTarget left = true ∨ left.isPattern = true := by
    simpa using (Bool.and_eq_true_iff.1 hleft).1
  cases left with
  | ident i =>
    cases h
    cases mem_singleton.1 hl
    rfl
  | member m x prop computed optional =>
    cases optional with
    | false =>
      cases binding with
      | false =>
        cases h
        cases mem_singleton.1 hl
        rfl
      | true => cases h
    | true => cases h
  | arrayPattern | objectPattern | assignPattern =>
    cases h
    rw [leaves, isPattern, Bool.or_true] at hl
    exact fits_of_isTarget hleft binding hl
  | _ => rcases htarget with h | h <;> cases h

mutual

theorem fits_pattern (binding inner : Bool) : ∀ e e' : Expr, e.pattern binding = .ok (e', []) →
    (∀ x ∈ (e.parts true).flat, x.wellAimed = true) → e.isPlain = true →
    ∀ l ∈ e'.leaves inner, fits binding l = true
  | e, e', h, hs, hplain, l, hl => by
    cases e with
    | ident =>
      cases h
      cases mem_singleton.1 hl
      rfl
    | array m es =>
      obtain ⟨es', hes, rfl⟩ := pair_of_bind_eq_ok h
      rw [Expr.parts, Parts.flat_when, Parts.flat_above, forall_mem_cons] at hs
      have hitems : ∀ e ∈ es, e.isPlainElement = true := all_eq_true.1 hs.1
      exact fits_elems binding inner es es' hes hs.2 hitems l hl
    | object m es =>
      obtain ⟨es', hes, rfl⟩ := pair_of_bind_eq_ok h
      rw [Expr.parts, Parts.flat_when, Parts.flat_above, forall_mem_cons] at hs
      have hentries : ∀ e ∈ es, e.isPlainMember = true := all_eq_true.1 hs.1
      exact fits_members binding inner es es' hes hs.2 hentries l hl
    | assign m op left right =>
      rw [Expr.parts, Parts.flat_when, Parts.flat_above, forall_mem_cons] at hs
      cases op with
      | set =>
        rw [Expr.pattern] at h
        obtain ⟨left', hleft, rfl⟩ :=
          pair_of_bind_eq_ok (f := fun l => Expr.assignPattern m l right) h
        exact fits_default hleft hs.1 hl
      | _ => cases h
    | member _ _ _ _ optional =>
      cases optional with
      | false =>
        cases binding with
        | false =>
          cases h
          cases mem_singleton.1 hl
          rfl
        | true => cases h
      | true => cases h
    | arrayPattern | objectPattern | assignPattern | rest => cases hplain
    | _ => cases h

theorem fits_elems (binding inner : Bool) : ∀ es es' : List Expr,
    patternElems binding es = .ok (es', []) →
    (∀ x ∈ (partsList true es).flat, x.wellAimed = true) → (∀ e ∈ es, e.isPlainElement = true) →
    ∀ l ∈ leavesList inner es', fits binding l = true
  | [], _, h, _, _, l, hl => by
    cases h
    cases hl
  | e :: es, es', h, hs, hitems, l, hl => by
    rw [Expr.partsList, Parts.flat_append, forall_mem_append] at hs
    rw [forall_mem_cons] at hitems
    have hrest := fun es' h => fits_elems binding inner es es' h hs.2 hitems.2
    cases e with
    | hole =>
      rw [Expr.patternElems] at h
      obtain ⟨es', hes, rfl⟩ := pair_of_bind_eq_ok (f := (Expr.hole :: ·)) h
      exact hrest es' hes l hl
    | spread m x =>
      rw [Expr.patternElems] at h
      obtain ⟨x', es', hx, hes, rfl, _⟩ :=
        pairs_of_bind_eq_ok (f := fun x es => Expr.rest m x :: es) h
      have hparts : ∀ y ∈ (x.parts true).flat, y.wellAimed = true :=
        fun y hy => hs.1 y (by simp [Expr.parts, hy])
      rcases mem_append.1 hl with hl | hl
      · exact fits_pattern binding inner x x' hx hparts hitems.1 l hl
      · exact hrest es' hes l hl
    | property | rest => cases hitems.1
    | _ =>
      rw [Expr.patternElems_cons rfl] at h
      obtain ⟨e', es', hx, hes, rfl, _⟩ := pairs_of_bind_eq_ok (f := cons) (m := []) h
      rcases mem_append.1 hl with hl | hl
      · exact fits_pattern binding inner _ e' hx hs.1 hitems.1 l hl
      · exact hrest es' hes l hl

theorem fits_members (binding inner : Bool) : ∀ es es' : List Expr,
    patternMembers binding es = .ok (es', []) →
    (∀ x ∈ (partsList true es).flat, x.wellAimed = true) → (∀ e ∈ es, e.isPlainMember = true) →
    ∀ l ∈ leavesList inner es', fits binding l = true
  | [], _, h, _, _, l, hl => by
    cases h
    cases hl
  | e :: es, es', h, hs, hentries, l, hl => by
    rw [Expr.partsList, Parts.flat_append, forall_mem_append] at hs
    rw [forall_mem_cons] at hentries
    have hrest := fun es' h => fits_members binding inner es es' h hs.2 hentries.2
    cases e with
    | spread m x =>
      rw [Expr.patternMembers] at h
      obtain ⟨x', es', hx, hes, rfl, _⟩ :=
        pairs_of_bind_eq_ok (f := fun x es => Expr.rest m x :: es) h
      have hparts : ∀ y ∈ (x.parts true).flat, y.wellAimed = true :=
        fun y hy => hs.1 y (by simp [Expr.parts, hy])
      rcases mem_append.1 hl with hl | hl
      · exact fits_pattern binding inner x x' hx hparts hentries.1 l hl
      · exact hrest es' hes l hl
    | property m shape key value =>
      rw [Expr.patternMembers] at h
      split at h
      · -- A method or an accessor is a fault.
        obtain ⟨⟨es', ms⟩, _, h⟩ := exists_of_bind_eq_ok h
        cases h
      · obtain ⟨value', es', hvalue, hes, rfl, _⟩ :=
          pairs_of_bind_eq_ok (f := fun x es => Expr.property m shape key x :: es) (m := []) h
        have hparts : ∀ y ∈ (value.parts true).flat, y.wellAimed = true :=
          fun y hy => hs.1 y (by simp [Expr.parts, hy])
        rcases mem_append.1 hl with hl | hl
        · exact fits_pattern binding inner value value' hvalue hparts hentries.1 l hl
        · exact hrest es' hes l hl
    | _ => cases hentries.1

end

theorem isTarget_of_pattern {e e' : Expr} (h : e.pattern false = .ok (e', []))
    (hs : ∀ x ∈ (e.parts true).flat, x.wellAimed = true) (he : e.isPlain = true) :
    e'.isTarget = true := by
  have hleaves := all_eq_true.2 (fits_pattern false false e e' h hs he)
  rw [isTarget, hleaves, Bool.and_true]
  cases e with
  | array | object =>
    obtain ⟨es', _, rfl⟩ := pair_of_bind_eq_ok h
    rfl
  | assign m op left right =>
    cases op with
    | set =>
      rw [Expr.pattern] at h
      obtain ⟨left', _, rfl⟩ :=
        pair_of_bind_eq_ok (f := fun l => Expr.assignPattern m l right) h
      rfl
    | _ => cases h
  | member m x prop computed optional =>
    cases optional with
    | false =>
      cases h
      rfl
    | true => cases h
  | ident =>
    cases h
    rfl
  | arrayPattern | objectPattern | assignPattern | rest | hole => cases he
  | _ => cases h

theorem fits_params (es : List Expr) : ∀ es' : List Expr, patternParams es = .ok (es', []) →
    (∀ x ∈ (partsList true es).flat, x.wellAimed = true) →
    (∀ e ∈ es, e.isPlainArgument = true ∨ (e.isRest = true ∧ e.binds = true)) →
    ∀ e ∈ es', (e.leaves false).all (fits true) = true := by
  induction es with
  | nil =>
    intro es' h _ _
    cases h
    simp
  | cons e es ih =>
    intro es' h hs hes
    rw [Expr.partsList, Parts.flat_append, forall_mem_append] at hs
    rw [forall_mem_cons] at hes
    by_cases hvalue : e.isPlain = true
    · rw [patternParams_cons (isValue_of_isPlain hvalue)] at h
      obtain ⟨e', es', hx, hrest, rfl, _⟩ := pairs_of_bind_eq_ok (f := cons) (m := []) h
      rw [forall_mem_cons]
      refine ⟨?_, ih es' hrest hs.2 hes.2⟩
      exact all_eq_true.2 (fits_pattern true false e e' hx hs.1 hvalue)
    · cases e with
      | spread m x =>
        obtain ⟨x', es', hx, hrest, rfl, _⟩ :=
          pairs_of_bind_eq_ok (f := fun x es => Expr.rest m x :: es) h
        have hparts : ∀ y ∈ (x.parts true).flat, y.wellAimed = true :=
          fun y hy => hs.1 y (by simp [Expr.parts, hy])
        have hplain : x.isPlain = true := hes.1.resolve_right fun h => by cases h.1
        rw [forall_mem_cons]
        refine ⟨?_, ih es' hrest hs.2 hes.2⟩
        exact all_eq_true.2 (fits_pattern true false x x' hx hparts hplain)
      | rest m x =>
        have hbinds : (Expr.rest m x).binds = true := by
          rcases hes.1 with h | h
          · cases h
          · exact h.2
        obtain ⟨es', hrest, rfl⟩ := pair_of_bind_eq_ok (f := (Expr.rest m x :: ·)) h
        rw [forall_mem_cons]
        refine ⟨?_, ih es' hrest hs.2 hes.2⟩
        exact all_eq_true.2 fun l hl => fits_of_binds hbinds hl true
      | _ =>
        rcases hes.1 with h | h
        · exact absurd h hvalue
        · cases h.1

end Expr
end LabelHooks
