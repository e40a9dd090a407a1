import LabelHooks.Grammar.Function
import LabelHooks.Proofs.Marking

/-!
Patterns of expressions. Reading an expression as a pattern depends on the expression alone: the
pattern, and the marks of what is no pattern, at which faults are recorded.
-/

namespace LabelHooks
set_option autoImplicit true

mutual

/-- The pattern that an expression stands for, and the marks of the nodes that are none. -/
def Expr.pattern (binding : Bool) : Expr → Except Crash (Expr × List Mark)
  | .hole => .error .missingValue
  | .ident i => .ok (.ident i, [])
  | .arrayPattern m es => .ok (.arrayPattern m es, [])
  | .objectPattern m es => .ok (.objectPattern m es, [])
  | .assignPattern m l r => .ok (.assignPattern m l r, [])
  | .rest m x => .ok (.rest m x, [])
  | .array m es => do
    let p ← Expr.patternElems binding es
    return (.arrayPattern m p.1, p.2)
  | .object m es => do
    let p ← Expr.patternMembers binding es
    return (.objectPattern m p.1, p.2)
  | .assign m .set left right => do
    let p ← left.pattern binding
    return (.assignPattern m p.1 right, p.2)
  | .member m x prop computed false =>
    .ok (.member m x prop computed false, if binding then [m] else [])
  | e => .ok (e, e.mark?.toList)

def Expr.patternElems (binding : Bool) : List Expr → Except Crash (List Expr × List Mark)
  | [] => .ok ([], [])
  | .hole :: es => do
    let q ← Expr.patternElems binding es
    return (.hole :: q.1, q.2)
  | .spread m x :: es => do
    let p ← x.pattern binding
    let q ← Expr.patternElems binding es
    return (.rest m p.1 :: q.1, (if es.isEmpty then [] else [m]) ++ p.2 ++ q.2)
  | e :: es => do
    let p ← e.pattern binding
    let q ← Expr.patternElems binding es
    return (p.1 :: q.1, p.2 ++ q.2)

def Expr.patternMembers (binding : Bool) : List Expr → Except Crash (List Expr × List Mark)
  | [] => .ok ([], [])
  | .spread m x :: es => do
    let p ← x.pattern binding
    let q ← Expr.patternMembers binding es
    return (.rest m p.1 :: q.1, (if es.isEmpty then [] else [m]) ++ p.2 ++ q.2)
  | .property m shape key value :: es => do
    if shape.method || shape.kind ≠ .init then
      let q ← Expr.patternMembers binding es
      return (q.1, m :: q.2)
    else
      let p ← value.pattern binding
      let q ← Expr.patternMembers binding es
      return (.property m shape key p.1 :: q.1, p.2 ++ q.2)
  | _ :: es => Expr.patternMembers binding es

end

def Expr.patternParams : List Expr → Except Crash (List Expr × List Mark)
  | [] => .ok ([], [])
  | .spread m x :: es => do
    let p ← x.pattern true
    let q ← Expr.patternParams es
    return (.rest m p.1 :: q.1, (if es.isEmpty then [] else [m]) ++ p.2 ++ q.2)
  | e :: es => do
    let p ← e.pattern true
    let q ← Expr.patternParams es
    return (p.1 :: q.1, p.2 ++ q.2)

example (m : Mark) (i : Ident) : (Expr.array m [.hole, .spread m (.ident i)]).pattern true =
    .ok (.arrayPattern m [.hole, .rest m (.ident i)], []) := by cbv

namespace Parse

def reporting (cause : Cause) (r : Except Crash (α × List Mark)) : Parse α := do
  let p ← r
  modify fun s => { s with faults := s.faults ++ p.2.map fun m => ⟨m.span.start, cause⟩ }
  return p.1

theorem run_reporting_ok (cause : Cause) (a : α) (ms : List Mark) (s : Reader) :
    (reporting cause (.ok (a, ms))).run s =
      .ok (a, { s with faults := s.faults ++ ms.map fun m => ⟨m.span.start, cause⟩ }) := rfl

theorem reporting_ok (cause : Cause) (a : α) : reporting cause (.ok (a, [])) = pure a := by
  funext s
  change Except.ok (a, { s with faults := s.faults ++ [] }) = Except.ok (a, s)
  rw [List.append_nil]

theorem reporting_bind (cause : Cause) (r : Except Crash (α × List Mark))
    (f : α → Except Crash (β × List Mark)) : (do
      let a ← reporting cause r
      reporting cause (f a)) = reporting cause (do
        let p ← r
        let q ← f p.1
        return (q.1, p.2 ++ q.2)) := by
  funext s
  cases r with
  | error c => rfl
  | ok p =>
    change (reporting cause (f p.1)).run { s with faults := s.faults ++ _ } =
      (reporting cause ((f p.1) >>= fun q => .ok (q.1, p.2 ++ q.2))).run s
    cases f p.1 with
    | error c => rfl
    | ok q =>
      change _ = (reporting cause (.ok (q.1, p.2 ++ q.2))).run s
      rw [run_reporting_ok, run_reporting_ok]
      simp only [List.map_append, List.append_assoc]

theorem failAt_then (m : Mark) (cause : Cause) (r : Except Crash (α × List Mark)) : (do
      failAt m.span.start cause
      reporting cause r) = reporting cause (do
        let q ← r
        return (q.1, m :: q.2)) :=
  reporting_bind cause (.ok ((), [m])) fun _ => r

theorem reporting_then {r : Except Crash (α × List Mark)} {g : α → β} (cause : Cause) :
    (do return g (← reporting cause r)) = reporting cause (do
      let p ← r
      return (g p.1, p.2)) := by
  have := reporting_bind cause r fun a => .ok (g a, [])
  simp only [reporting_ok] at this
  rw [this]
  cases r with
  | error c => rfl
  | ok p =>
    change reporting cause (.ok (g p.1, p.2 ++ [])) = reporting cause (.ok (g p.1, p.2))
    rw [List.append_nil]

theorem reporting_pair {r : Except Crash (α × List Mark)} {q : Except Crash (β × List Mark)}
    {g : α → β → γ} (cause : Cause) : (do
      let a ← reporting cause r
      let b ← reporting cause q
      return g a b) = reporting cause (do
        let a ← r
        let b ← q
        return (g a.1 b.1, a.2 ++ b.2)) := by
  simp only [reporting_then, reporting_bind, bind_assoc, pure_bind]

theorem toPattern_eq_all (binding : Bool) :
    (∀ e, toPattern binding e = reporting (patternCause binding) (e.pattern binding)) ∧
    (∀ es, toMembers binding es =
      reporting (patternCause binding) (Expr.patternMembers binding es)) ∧
    (∀ es, toElems binding es =
      reporting (patternCause binding) (Expr.patternElems binding es)) := by
  apply toPattern.mutual_induct binding
  case case1 =>
    rw [toPattern, Expr.pattern]
    rfl
  case case2 | case3 | case4 | case5 | case6 =>
    intros
    rw [toPattern, Expr.pattern, reporting_ok]
  case case7 | case8 =>
    intro m es ih
    rw [toPattern, Expr.pattern, ih, reporting_then]
  case case9 =>
    intro m left right ih
    rw [toPattern, Expr.pattern, ih, reporting_then]
  case case10 =>
    intro m x prop computed hb
    rw [toPattern, Expr.pattern, if_pos hb, if_pos hb]
    rfl
  case case11 =>
    intro m x prop computed hb
    rw [toPattern, Expr.pattern, if_neg hb, if_neg hb, reporting_ok]
  case case12 =>
    intro e h₁ h₂ h₃ h₄ h₅ h₆ h₇ h₈ h₉ h₁₀
    rw [toPattern.eq_11 binding e h₁ h₂ h₃ h₄ h₅ h₆ h₇ h₈ h₉ h₁₀,
      Expr.pattern.eq_11 binding e h₁ h₂ h₃ h₄ h₅ h₆ h₇ h₈ h₉ h₁₀]
    cases e with
    | hole => exact absurd rfl h₁
    | _ => rfl
  case case13 | case19 =>
    simp only [toMembers, toElems, Expr.patternMembers, Expr.patternElems, reporting_ok]
  case case14 | case21 =>
    intro m x es hes ih ihs
    have hempty : es.isEmpty = false := by simpa using hes
    simp only [toMembers, toElems, Expr.patternMembers, Expr.patternElems, ih, ihs,
      reporting_pair, failAt_then, bind_assoc, pure_bind, hempty]
    rfl
  case case15 | case22 =>
    intro m x es hes ih ihs
    have hempty : es.isEmpty = true := by simpa using hes
    simp only [toMembers, toElems, Expr.patternMembers, Expr.patternElems, ih, ihs,
      reporting_pair, hempty]
    rfl
  case case16 =>
    intro m shape key value es hshape ihs
    simp only [toMembers, Expr.patternMembers, if_pos hshape, ihs, failAt_then]
  case case17 =>
    intro m shape key value es hshape ih ihs
    simp only [toMembers, Expr.patternMembers, if_neg hshape, ih, ihs, reporting_pair]
  case case18 =>
    intro e es h₁ h₂ ihs
    rw [toMembers.eq_4 binding e es h₁ h₂, Expr.patternMembers.eq_4 binding e es h₁ h₂, ihs]
  case case20 =>
    intro es ihs
    rw [toElems, Expr.patternElems, ihs, reporting_then]
  case case23 =>
    intro e es h₁ h₂ ih ihs
    rw [toElems.eq_4 binding e es h₁ h₂, Expr.patternElems.eq_4 binding e es h₁ h₂, ih, ihs,
      reporting_pair]

theorem toPattern_eq (binding : Bool) (e : Expr) :
    toPattern binding e = reporting (patternCause binding) (e.pattern binding) :=
  (toPattern_eq_all binding).1 e

theorem toParams_eq (es : List Expr) :
    toParams es = reporting .invalidArrowParams (Expr.patternParams es) := by
  induction es using toParams.induct with
  | case1 => rw [toParams, Expr.patternParams, reporting_ok]
  | case2 m x es hes ihs =>
    have hempty : es.isEmpty = false := by simpa using hes
    simp only [toParams, Expr.patternParams, toPattern_eq, patternCause, ihs, if_true,
      reporting_pair, failAt_then, bind_assoc, pure_bind, hempty]
    rfl
  | case3 m x es hes ihs =>
    have hempty : es.isEmpty = true := by simpa using hes
    simp only [toParams, Expr.patternParams, toPattern_eq, patternCause, ihs, if_true,
      reporting_pair, hempty]
    rfl
  | case4 e es h ihs =>
    rw [toParams.eq_3 e es h, Expr.patternParams.eq_3 e es h, toPattern_eq, ihs]
    exact reporting_pair _

end Parse

theorem bind_ne_exhausted {f : α → Except Crash β} (hr : r ≠ .error .exhausted)
    (hf : ∀ a, f a ≠ .error .exhausted) : r >>= f ≠ .error .exhausted := by
  cases r with
  | error c =>
    intro h
    cases h
    exact hr rfl
  | ok a => exact hf a

theorem Expr.pattern_ne_exhausted_all (binding : Bool) :
    (∀ e : Expr, e.pattern binding ≠ .error .exhausted) ∧
    (∀ es, Expr.patternMembers binding es ≠ .error .exhausted) ∧
    (∀ es, Expr.patternElems binding es ≠ .error .exhausted) := by
  have hok : ∀ {α : Type} {a : α}, (Except.ok a : Except Crash α) ≠ .error .exhausted :=
    fun h => nomatch h
  apply Parse.toPattern.mutual_induct binding
  case case1 =>
    rw [Expr.pattern]
    exact fun h => nomatch h
  case case2 | case3 | case4 | case5 | case6 | case10 | case11 =>
    intros
    rw [Expr.pattern]
    exact hok
  case case7 | case8 =>
    intro m es ih
    rw [Expr.pattern]
    exact bind_ne_exhausted ih fun _ => hok
  case case9 =>
    intro m left right ih
    rw [Expr.pattern]
    exact bind_ne_exhausted ih fun _ => hok
  case case12 =>
    intro e h₁ h₂ h₃ h₄ h₅ h₆ h₇ h₈ h₉ h₁₀
    rw [Expr.pattern.eq_11 binding e h₁ h₂ h₃ h₄ h₅ h₆ h₇ h₈ h₉ h₁₀]
    exact hok
  case case13 | case19 =>
    simp only [Expr.patternMembers, Expr.patternElems]
    exact hok
  case case14 | case15 | case21 | case22 =>
    intro m x es _ ih ihs
    simp only [Expr.patternMembers, Expr.patternElems]
    exact bind_ne_exhausted ih fun _ => bind_ne_exhausted ihs fun _ => hok
  case case16 =>
    intro m shape key value es hshape ihs
    rw [Expr.patternMembers, if_pos hshape]
    exact bind_ne_exhausted ihs fun _ => hok
  case case17 =>
    intro m shape key value es hshape ih ihs
    rw [Expr.patternMembers, if_neg hshape]
    exact bind_ne_exhausted ih fun _ => bind_ne_exhausted ihs fun _ => hok
  case case18 =>
    intro e es h₁ h₂ ihs
    rw [Expr.patternMembers.eq_4 binding e es h₁ h₂]
    exact ihs
  case case20 =>
    intro es ihs
    rw [Expr.patternElems]
    exact bind_ne_exhausted ihs fun _ => hok
  case case23 =>
    intro e es h₁ h₂ ih ihs
    rw [Expr.patternElems.eq_4 binding e es h₁ h₂]
    exact bind_ne_exhausted ih fun _ => bind_ne_exhausted ihs fun _ => hok

theorem Expr.pattern_ne_exhausted (binding : Bool) (e : Expr) :
    e.pattern binding ≠ .error .exhausted :=
  (Expr.pattern_ne_exhausted_all binding).1 e

theorem Expr.patternParams_ne_exhausted (es : List Expr) :
    Expr.patternParams es ≠ .error .exhausted := by
  induction es using Parse.toParams.induct with
  | case1 => exact fun h => nomatch h
  | case2 m x es _ ihs | case3 m x es _ ihs =>
    rw [Expr.patternParams]
    exact bind_ne_exhausted (x.pattern_ne_exhausted true) fun _ =>
      bind_ne_exhausted ihs fun _ h => nomatch h
  | case4 e es h ihs =>
    rw [Expr.patternParams.eq_3 e es h]
    exact bind_ne_exhausted (e.pattern_ne_exhausted true) fun _ =>
      bind_ne_exhausted ihs fun _ h => nomatch h

section Marking

variable (f : Marking)

theorem Expr.pattern_marked_all (binding : Bool) :
    (∀ e : Expr, (e.marked f).pattern binding =
      (e.pattern binding).map fun p => (p.1.marked f, p.2.map f)) ∧
    (∀ es, Expr.patternMembers binding (es.map (Expr.marked f)) =
      (Expr.patternMembers binding es).map fun p => (p.1.map (Expr.marked f), p.2.map f)) ∧
    (∀ es, Expr.patternElems binding (es.map (Expr.marked f)) =
      (Expr.patternElems binding es).map fun p => (p.1.map (Expr.marked f), p.2.map f)) := by
  apply Parse.toPattern.mutual_induct binding
  case case1 =>
    rw [Expr.marked, Expr.pattern]
    rfl
  case case2 | case3 | case4 | case5 | case6 =>
    intros
    simp [Expr.pattern, Except.map]
  case case7 =>
    intro m es ih
    rw [Expr.marked, Expr.markedList_eq, Expr.pattern, Expr.pattern, ih]
    cases Expr.patternElems binding es <;>
      simp [Except.map, bind, Except.bind, pure, Except.pure]
  case case8 =>
    intro m es ih
    rw [Expr.marked, Expr.markedList_eq, Expr.pattern, Expr.pattern, ih]
    cases Expr.patternMembers binding es <;>
      simp [Except.map, bind, Except.bind, pure, Except.pure]
  case case9 =>
    intro m left right ih
    rw [Expr.marked, Expr.pattern, Expr.pattern, ih]
    cases left.pattern binding <;> rfl
  case case10 | case11 =>
    intro m x prop computed hb
    rw [Expr.marked, Expr.pattern, Expr.pattern]
    simp [hb, Except.map]
  case case12 =>
    intro e h₁ h₂ h₃ h₄ h₅ h₆ h₇ h₈ h₉ h₁₀
    rw [Expr.pattern.eq_11 binding e h₁ h₂ h₃ h₄ h₅ h₆ h₇ h₈ h₉ h₁₀]
    cases e with
    | hole => exact absurd rfl h₁
    | ident i => exact absurd rfl (h₂ i)
    | arrayPattern m es => exact absurd rfl (h₃ m es)
    | objectPattern m es => exact absurd rfl (h₄ m es)
    | assignPattern m l r => exact absurd rfl (h₅ m l r)
    | rest m x => exact absurd rfl (h₆ m x)
    | array m es => exact absurd rfl (h₇ m es)
    | object m es => exact absurd rfl (h₈ m es)
    | assign m op l r =>
      cases op with
      | set => exact absurd rfl (h₉ m l r)
      | _ => rfl
    | member m x prop computed optional =>
      cases optional with
      | false => exact absurd rfl (h₁₀ m x prop computed)
      | true => rfl
    | _ => rfl
  case case13 | case19 => simp [Expr.patternMembers, Expr.patternElems, Except.map]
  case case14 | case15 | case21 | case22 =>
    intro m x es hes ih ihs
    simp only [List.map_cons, Expr.marked, Expr.patternMembers, Expr.patternElems, ih, ihs]
    cases x.pattern binding with
    | error c => rfl
    | ok p =>
      cases Expr.patternMembers binding es <;> cases Expr.patternElems binding es <;>
        simp [Except.map, bind, Except.bind, pure, Except.pure] <;> split <;> rfl
  case case16 =>
    intro m shape key value es hshape ihs
    simp only [List.map_cons, Expr.marked, Expr.patternMembers, if_pos hshape, ihs]
    cases Expr.patternMembers binding es <;> rfl
  case case17 =>
    intro m shape key value es hshape ih ihs
    simp only [List.map_cons, Expr.marked, Expr.patternMembers, if_neg hshape, ih, ihs]
    cases value.pattern binding with
    | error c => rfl
    | ok p =>
      cases Expr.patternMembers binding es <;>
        simp [Except.map, bind, Except.bind, pure, Except.pure]
  case case18 =>
    intro e es h₁ h₂ ihs
    rw [Expr.patternMembers.eq_4 binding e es h₁ h₂, ← ihs, List.map_cons]
    cases e with
    | spread m x => exact absurd rfl (h₁ m x)
    | property m shape key value => exact absurd rfl (h₂ m shape key value)
    | _ => rfl
  case case20 =>
    intro es ihs
    rw [List.map_cons, Expr.marked, Expr.patternElems, Expr.patternElems, ihs]
    cases Expr.patternElems binding es <;> rfl
  case case23 =>
    intro e es h₁ h₂ ih ihs
    have hcons : Expr.patternElems binding (e.marked f :: es.map (Expr.marked f)) = (do
        let p ← (e.marked f).pattern binding
        let q ← Expr.patternElems binding (es.map (Expr.marked f))
        return (p.1 :: q.1, p.2 ++ q.2)) := by
      cases e with
      | hole => exact absurd rfl h₁
      | spread m x => exact absurd rfl (h₂ m x)
      | _ => rfl
    rw [List.map_cons, hcons, Expr.patternElems.eq_4 binding e es h₁ h₂, ih, ihs]
    cases e.pattern binding with
    | error c => rfl
    | ok p =>
      cases Expr.patternElems binding es <;>
        simp [Except.map, bind, Except.bind, pure, Except.pure]

theorem Expr.pattern_marked (binding : Bool) (e : Expr) : (e.marked f).pattern binding =
    (e.pattern binding).map fun p => (p.1.marked f, p.2.map f) :=
  (Expr.pattern_marked_all f binding).1 e

theorem Expr.patternParams_marked (es : List Expr) :
    Expr.patternParams (es.map (Expr.marked f)) =
      (Expr.patternParams es).map fun p => (p.1.map (Expr.marked f), p.2.map f) := by
  induction es using Parse.toParams.induct with
  | case1 => rfl
  | case2 m x es hes ihs | case3 m x es hes ihs =>
    simp only [List.map_cons, Expr.marked, Expr.patternParams, Expr.pattern_marked, ihs]
    cases x.pattern true with
    | error c => rfl
    | ok p =>
      cases Expr.patternParams es with
      | error c => rfl
      | ok q =>
        simp [Except.map, bind, Except.bind, pure, Except.pure]
        split <;> rfl
  | case4 e es h ihs =>
    have hcons : Expr.patternParams (e.marked f :: es.map (Expr.marked f)) = (do
        let p ← (e.marked f).pattern true
        let q ← Expr.patternParams (es.map (Expr.marked f))
        return (p.1 :: q.1, p.2 ++ q.2)) := by
      cases e with
      | spread m x => exact absurd rfl (h m x)
      | _ => rfl
    rw [List.map_cons, hcons, Expr.patternParams.eq_3 e es h, Expr.pattern_marked, ihs]
    cases e.pattern true with
    | error c => rfl
    | ok p =>
      cases Expr.patternParams es <;> simp [Except.map, bind, Except.bind, pure, Except.pure]

end Marking
end LabelHooks
