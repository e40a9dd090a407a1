import LabelHooks.Proofs.Lockstep

/-!
Patterns, functions and expressions in lockstep, one lemma for each rule. A rule passes over a
token or records a fault, so that rules and rounds in the number of bytes suffice.
-/

namespace LabelHooks
set_option autoImplicit true

theorem Fault.earliest?_seen (hv : StrictMono v) (fs : List Fault) :
    earliest? (fs.map (Fault.seen v)) = (earliest? fs).map (Fault.seen v) := by
  induction fs with
  | nil => rfl
  | cons f fs ih =>
    rw [List.map_cons, earliest?, earliest?, ih]
    cases earliest? fs with
    | none => rfl
    | some g =>
      have hlt : (g.seen v).pos.offset < (f.seen v).pos.offset ↔ g.pos.offset < f.pos.offset :=
        hv.lt_iff_lt
      simp only [Option.map_some, hlt]
      split <;> rfl

namespace Parse

open Token (Kind)
open Seen (seen)

structure InStep (v v' : Int → Int) (n : Nat) (r r' : Rules) : Prop where
  mono : StrictMono v
  mono' : StrictMono v'
  rounds : n < r.rounds
  rounds' : n < r'.rounds
  expression : ∀ σ : Window, σ.weight < n →
    Lockstep v v' σ r.expression r'.expression fun _ => Moved σ
  assign : ∀ σ : Window, σ.weight < n → Lockstep v v' σ r.assign r'.assign fun _ => Moved σ
  unary : ∀ σ : Window, σ.weight < n → Lockstep v v' σ r.unary r'.unary fun _ => Moved σ
  binary : ∀ (least : Prec) (σ : Window), σ.weight < n →
    Lockstep v v' σ (r.binary least) (r'.binary least) fun _ => Moved σ
  newExpr : ∀ σ : Window, σ.weight < n → σ.token.kind = .newKw →
    Lockstep v v' σ r.newExpr r'.newExpr fun _ => Moved σ
  bindingTarget : ∀ σ : Window, σ.weight < n →
    Lockstep v v' σ r.bindingTarget r'.bindingTarget fun _ => Moved σ
  statement : ∀ σ : Window, σ.weight < n →
    Lockstep v v' σ r.statement r'.statement fun _ => Moved σ

abbrev Lowers (σ : Window) (r : α ⊕ β) (w c : Nat) : Prop := r.isLeft → w + c < σ.weight + σ.calm

namespace Lockstep

variable {v v' : Int → Int} {n : Nat} {r r' : Rules} {σ : Window}

theorem pass (hσ : σ.token.kind = k) (hk : k ≠ .eof) :
    Lockstep v v' σ (Parse.expect k) (Parse.expect k) fun _ w _ => w < σ.weight := by
  apply checkThen
  · intro hkind
    exact advance.imp fun _ _ _ _ _ h => h.2 (by rwa [hkind])
  · intro hne
    exact absurd hσ hne

theorem finish [Seen α] [Seen β] {τ : Window} {b b' : β} (hb : seen v b = seen v' b') :
    Lockstep v v' σ (Pure.pure (.inr b)) (Pure.pure (.inr b')) (Lowers (α := α) τ) :=
  pure (congrArg Sum.inr hb) fun h => nomatch h

theorem again [Seen α] [Seen β] {τ : Window} {a a' : α} (ha : seen v a = seen v' a')
    (hτ : σ.weight + σ.calm < τ.weight + τ.calm) :
    Lockstep v v' σ (Pure.pure (.inl a)) (Pure.pure (.inl a')) (Lowers (β := β) τ) :=
  pure (congrArg Sum.inl ha) fun _ => hτ

theorem loop [Seen α] [Seen β] {step step' : α → Parse (α ⊕ β)} (hr : InStep v v' n r r')
    (hσ : σ.weight ≤ n) (hin : σ.weight < n ∨ σ.calm = 0) (ha : seen v a = seen v' a')
    (hstep : ∀ τ a a', seen v a = seen v' a' → τ.weight ≤ σ.weight → τ.calm ≤ σ.calm →
      Lockstep v v' τ (step a) (step' a') (Lowers τ)) :
    Lockstep v v' σ (Parse.iterate step r.rounds a) (Parse.iterate step' r'.rounds a')
      fun _ _ _ => True := by
  have := σ.calm_le
  have := hr.rounds
  have := hr.rounds'
  exact iterate hstep ha (by omega) (by omega)

variable (hr : InStep v v' n r r')

section Patterns

theorem ident_cases {e e' : Expr} (he : seen v e = seen v' e') :
    (∃ i i', e = .ident i ∧ e' = .ident i' ∧ seen v i = seen v' i') ∨
      ((∀ i, e ≠ .ident i) ∧ ∀ i, e' ≠ .ident i) := by
  by_cases h : ∃ i, e = .ident i
  · obtain ⟨i, rfl⟩ := h
    cases e' with
    | ident i' =>
      simp only [Expr.seen_ident, Expr.ident.injEq] at he
      exact .inl ⟨i, i', rfl, rfl, he⟩
    | _ => simp at he
  · right
    constructor
    · intro i hi
      exact h ⟨i, hi⟩
    · rintro i rfl
      cases e with
      | ident j => exact h ⟨j, rfl⟩
      | _ => simp at he

include hr

theorem computedProp (hσ : σ.weight ≤ n) (hk : σ.token.kind = .lbracket) :
    Lockstep v v' σ (Parse.computedProp r) (Parse.computedProp r') fun _ => Moved σ := by
  apply bind (pass hk (by decide))
  intro _ _ τ _ _ _ hτ
  apply bind (withNoIn_moved false fun ρ _ _ _ => hr.expression ρ (by omega))
  intro x x' ρ hx hweight _ _
  apply bind (expect (by decide))
  intro _ _ _ _ _ _ _
  exact pure hx (by omega)

theorem propertyKey (hσ : σ.weight ≤ n) :
    Lockstep v v' σ (Parse.propertyKey r) (Parse.propertyKey r') fun _ => Moved σ := by
  apply token
  intro k u p p' b hp hσ' _ _
  have hkind : σ.token.kind = k := by rw [hσ']
  dsimp only
  split
  · apply bind (computedProp hr hσ hkind)
    intro x x' τ hx _ _ hτ
    exact pure (by simp [hx]) hτ
  · apply bind advance
    intro _ _ τ _ _ _ hτ
    exact marked hp (fun m m' hm => by simp [hm]) (.inl (hτ.2 (by simp [hkind])))
  · apply bind advance
    intro _ _ τ _ _ _ hτ
    exact marked hp (fun m m' hm => by simp [hm]) (.inl (hτ.2 (by simp [hkind])))
  · apply bind identName
    intro i i' τ hi _ _ hτ
    exact pure (by simp [hi]) hτ

theorem bindingElement (hσ : σ.weight < n) :
    Lockstep v v' σ (Parse.bindingElement r) (Parse.bindingElement r') fun _ => Moved σ := by
  apply start
  intro p p' hp
  apply bind (hr.bindingTarget σ hσ)
  intro x x' τ hx _ _ hτ
  apply acceptThen (by decide)
  · intro ρ _ _
    apply bind (hr.assign ρ (by omega))
    intro y y' π hy _ _ _
    exact marked hp (fun m m' hm => by simp [hm, hx, hy]) (by omega)
  · exact pure hx hτ

theorem arrayStep (hin : σ.weight < n ∨ σ.calm = 0) {es es' : List Expr}
    (hes : seen v es = seen v' es') :
    Lockstep v v' σ (Parse.arrayStep r es) (Parse.arrayStep r' es') (Lowers σ) := by
  apply stopped
  · exact finish hes
  · intro _ hcalm
    apply acceptThen (by decide)
    · intro τ _ _
      exact again (by simp [hes]) (by omega)
    · apply checkThen
      · intro hk
        apply start
        intro p p' hp
        apply bind advance
        intro _ _ τ _ _ _ hτ
        apply bind (hr.bindingTarget τ (by omega))
        intro x x' ρ hx _ _ _
        apply markFrom hp
        intro m m' hm
        exact finish (by simp [hes, hx, hm])
      · intro _
        apply bind (bindingElement hr (by omega))
        intro x x' τ hx _ _ hτ
        apply check
        apply maybe fun _ => expect (by decide)
        intro ρ _ _
        exact again (by simp [hes, hx]) (by omega)

theorem arrayPattern (hσ : σ.weight ≤ n) (hk : σ.token.kind = .lbracket) :
    Lockstep v v' σ (Parse.arrayPattern r) (Parse.arrayPattern r') fun _ => Moved σ := by
  apply start
  intro p p' hp
  apply bind (pass hk (by decide))
  intro _ _ τ _ _ _ hτ
  apply bind (loop hr (by omega) (by omega) rfl fun ρ es es' hes _ _ => arrayStep hr (by omega) hes)
  intro es es' ρ hes _ _ _
  apply bind (expect (by decide))
  intro _ _ π _ _ _ _
  exact marked hp (fun m m' hm => by simp [hm, hes]) (by omega)

theorem patternProperty (hσ : σ.weight < n) :
    Lockstep v v' σ (Parse.patternProperty r) (Parse.patternProperty r') fun _ => Moved σ := by
  apply start
  intro p p' hp
  apply token
  intro k u q q' b hq _ _ _
  apply bind (propertyKey hr (by omega))
  rintro ⟨key, computed⟩ ⟨key', computed'⟩ τ hkey _ _ hτ
  simp only [Prod.seen_mk, Bool.seen_eq, Prod.mk.injEq] at hkey
  obtain ⟨hkey, rfl⟩ := hkey
  apply acceptThen (by decide)
  · intro ρ _ _
    apply bind (bindingElement hr (by omega))
    intro x x' π hx _ _ _
    exact marked hp (fun m m' hm => by simp [hm, hkey, hx]) (by omega)
  · have hmissing : Lockstep v v' τ
        (do
          Parse.fail .invalidBinding
          return (none : Option Expr))
        (do
          Parse.fail .invalidBinding
          return none) fun _ => Moved σ := by
      apply bind (fail .invalidBinding rfl)
      intro _ _ ρ _ _ _ hρ
      exact pure rfl (.inr hρ)
    rcases ident_cases hkey with ⟨i, i', rfl, rfl, hi⟩ | ⟨hne, hne'⟩
    · apply ite
      · intro _
        exact hmissing
      · intro _
        apply acceptThen (by decide)
        · intro ρ _ _
          apply bind (hr.assign ρ (by omega))
          intro x x' π hx _ _ _
          apply markFrom hp
          intro m m' hm
          apply markFrom hp
          intro l l' hl
          exact pure (by simp [hm, hl, hi, hx]) (by omega)
        · exact marked hp (fun m m' hm => by simp [hm, hi]) hτ
    · dsimp only
      split
      · exact absurd rfl (hne _)
      · exact hmissing

theorem objectStep (hin : σ.weight < n ∨ σ.calm = 0)
    {es es' : List Expr} (hes : seen v es = seen v' es') :
    Lockstep v v' σ (Parse.objectStep r es) (Parse.objectStep r' es') (Lowers σ) := by
  apply stopped
  · exact finish hes
  · intro _ hcalm
    apply checkThen
    · intro hk
      apply start
      intro p p' hp
      apply bind advance
      intro _ _ τ _ _ _ hτ
      apply bind ident
      intro i i' ρ hi _ _ _
      apply markFrom hp
      intro m m' hm
      exact finish (by simp [hes, hi, hm])
    · intro _
      apply bind (patternProperty hr (by omega))
      intro x x' τ hx _ _ hτ
      match x, x', hx with
      | none, none, _ => exact finish hes
      | some x, some x', hx =>
        have hx := Option.some.inj hx
        apply acceptThen (by decide)
        · intro ρ _ _
          exact again (by simp [hes, hx]) (by omega)
        · exact finish (by simp [hes, hx])

theorem objectPattern (hσ : σ.weight ≤ n) (hk : σ.token.kind = .lbrace) :
    Lockstep v v' σ (Parse.objectPattern r) (Parse.objectPattern r') fun _ => Moved σ := by
  apply start
  intro p p' hp
  apply bind (pass hk (by decide))
  intro _ _ τ _ _ _ hτ
  apply bind (loop hr (by omega) (by omega) rfl fun _ _ _ hes _ _ => objectStep hr (by omega) hes)
  intro es es' ρ hes _ _ _
  apply bind (expect (by decide))
  intro _ _ π _ _ _ _
  exact marked hp (fun m m' hm => by simp [hm, hes]) (by omega)

theorem bindingTarget (hσ : σ.weight ≤ n) :
    Lockstep v v' σ (Parse.bindingTarget r) (Parse.bindingTarget r') fun _ => Moved σ := by
  apply token
  intro k u p p' b hp hσ' _ _
  have hkind : σ.token.kind = k := by rw [hσ']
  dsimp only
  split
  · exact arrayPattern hr hσ hkind
  · exact objectPattern hr hσ hkind
  · apply bind ident
    intro i i' τ hi _ _ hτ
    exact pure (by simp [hi]) hτ.2
  · apply bind (fail .invalidBinding rfl)
    intro _ _ τ _ _ _ hτ
    apply start
    intro q q' hq
    exact pure (by simp [missingIdent hq]) (.inr hτ)

end Patterns

section Functions

include hr

theorem statementStep (hin : σ.weight < n ∨ σ.calm = 0) (stop : Kind)
    {ss ss' : List Stmt} (hss : seen v ss = seen v' ss') :
    Lockstep v v' σ (Parse.statementStep r stop ss) (Parse.statementStep r' stop ss')
      (Lowers σ) := by
  apply check
  apply check
  apply failed
  apply ite
  · intro _
    exact finish hss
  · intro h
    simp only [Bool.or_eq_true, decide_eq_true_eq, not_or] at h
    apply start
    intro p p' _
    apply takeComments
    intro cs cs'
    apply bind (hr.statement σ (by omega))
    intro s s' τ hs _ _ hτ
    exact again (by simp [hss, hs]) (by omega)

theorem statementList (hσ : σ.weight ≤ n) (hin : σ.weight < n ∨ σ.calm = 0) (stop : Kind) :
    Lockstep v v' σ (Parse.statementList r stop) (Parse.statementList r' stop)
      fun _ _ _ => True :=
  loop hr hσ hin rfl fun _ _ _ hss _ _ => statementStep hr (by omega) stop hss

theorem block (hσ : σ.weight ≤ n) :
    Lockstep v v' σ (Parse.block r) (Parse.block r') fun _ => Moved σ := by
  apply start
  intro p p' hp
  apply bind (expect (by decide))
  intro _ _ τ _ _ _ hτ
  apply bind (statementList hr (by omega) (by omega) _)
  intro ss ss' ρ hss _ _ _
  apply bind (expect (by decide))
  intro _ _ π _ _ _ _
  exact marked hp (fun m m' hm => by simp [hm, hss]) (by omega)

theorem paramStep (hin : σ.weight < n ∨ σ.calm = 0)
    {es es' : List Expr} (hes : seen v es = seen v' es') :
    Lockstep v v' σ (Parse.paramStep r es) (Parse.paramStep r' es') (Lowers σ) := by
  apply stopped
  · exact finish hes
  · intro _ hcalm
    apply checkThen
    · intro hk
      apply start
      intro p p' hp
      apply bind advance
      intro _ _ τ _ _ _ hτ
      apply bind (hr.bindingTarget τ (by omega))
      intro x x' ρ hx _ _ _
      apply markFrom hp
      intro m m' hm
      exact finish (by simp [hes, hx, hm])
    · intro _
      apply bind (bindingElement hr (by omega))
      intro x x' τ hx _ _ hτ
      apply acceptThen (by decide)
      · intro ρ _ _
        exact again (by simp [hes, hx]) (by omega)
      · exact finish (by simp [hes, hx])

theorem params (hσ : σ.weight ≤ n) :
    Lockstep v v' σ (Parse.params r) (Parse.params r') fun _ => Moved σ := by
  apply bind (expect (by decide))
  intro _ _ τ _ _ _ hτ
  apply bind (loop hr (by omega) (by omega) rfl fun ρ es es' hes _ _ => paramStep hr (by omega) hes)
  intro es es' ρ hes _ _ _
  apply bind (expect (by decide))
  intro _ _ π _ _ _ _
  exact pure hes (by omega)

theorem functionRest (hσ : σ.weight ≤ n) (hp : p.seen v = p'.seen v') (hi : seen v i = seen v' i')
    (isAsync generator : Bool) : Lockstep v v' σ (Parse.functionRest r p i isAsync generator)
      (Parse.functionRest r' p' i' isAsync generator) fun _ => Moved σ := by
  apply withNoIn_moved
  intro τ _ hweight _
  apply bind (params hr (by omega))
  intro es es' ρ hes _ _ hρ
  apply bind (block hr (by omega))
  intro b b' π hb _ _ _
  exact marked hp (fun m m' hm => by simp [hm, hi, hes, hb]) (by omega)

theorem function (hσ : σ.weight ≤ n) (isAsync named : Bool) :
    Lockstep v v' σ (Parse.function r isAsync named) (Parse.function r' isAsync named)
      fun _ => Moved σ := by
  apply start
  intro p p' hp
  apply maybe fun _ => advance
  intro τ _ _
  apply bind (expect (by decide))
  intro _ _ ρ _ _ _ hρ
  apply bind (accept (by decide))
  rintro generator _ π rfl _ _ _
  apply check
  apply ite
  · intro _
    apply bind ident
    intro i i' κ hi _ _ _
    exact (functionRest hr (by omega) hp (by simp [hi]) _ _).imp fun _ _ _ _ _ h => by omega
  · intro _
    exact (functionRest hr (by omega) hp rfl _ _).imp fun _ _ _ _ _ h => by omega

theorem spreadable (hσ : σ.weight < n) :
    Lockstep v v' σ (Parse.spreadable r) (Parse.spreadable r') fun _ => Moved σ := by
  apply checkThen
  · intro hk
    apply start
    intro p p' hp
    apply bind advance
    intro _ _ τ _ _ _ hτ
    have hlt := hτ.2 (by simp [hk])
    apply bind (hr.assign τ (by omega))
    intro x x' ρ hx _ _ _
    exact marked hp (fun m m' hm => by simp [hm, hx]) (by omega)
  · intro _
    exact hr.assign σ hσ

theorem argumentStep (hin : σ.weight < n ∨ σ.calm = 0)
    {es es' : List Expr} (hes : seen v es = seen v' es') :
    Lockstep v v' σ (Parse.argumentStep r es) (Parse.argumentStep r' es') (Lowers σ) := by
  apply stopped
  · exact finish hes
  · intro _ hcalm
    apply bind (spreadable hr (by omega))
    intro x x' τ hx _ _ hτ
    apply acceptThen (by decide)
    · intro ρ _ _
      exact again (by simp [hes, hx]) (by omega)
    · exact finish (by simp [hes, hx])

theorem arguments (hσ : σ.weight ≤ n) :
    Lockstep v v' σ (Parse.arguments r) (Parse.arguments r') fun _ => Moved σ := by
  apply bind (expect (by decide))
  intro _ _ τ _ _ _ hτ
  apply withNoIn
  intro ρ _ _ _
  apply bind (loop hr (by omega) (by omega) rfl fun _ _ _ hes _ _ => argumentStep hr (by omega) hes)
  intro es es' π hes _ _ _
  apply bind (expect (by decide))
  intro _ _ κ _ _ _ _
  exact pure hes (by omega)

end Functions

section Primaries

theorem atArrowThen [Seen α] {Q : α → Nat → Nat → Prop}
    (hyes : σ.token.kind = .arrow → Lockstep v v' σ x x' Q) (hno : Lockstep v v' σ y y' Q) :
    Lockstep v v' σ (do if ← Parse.atArrow then x else y) (do if ← Parse.atArrow then x' else y')
      Q := by
  simp only [Parse.atArrow, bind_assoc, pure_bind]
  apply check
  apply token
  intro k u p p' b _ _ _ _
  apply ite
  · intro h
    simp only [Bool.and_eq_true, decide_eq_true_eq] at h
    exact hyes h.1
  · intro _
    exact hno

theorem propertyModifier :
    Lockstep v v' σ Parse.propertyModifier Parse.propertyModifier fun _ _ _ => True := by
  apply token
  intro k u p p' b _ _ _ _
  apply peek
  intro k₁ u₁ q q' b₁
  have hadvance : ∀ x : PropKind × Bool, Lockstep v v' σ
      (do
        Parse.advance
        return x)
      (do
        Parse.advance
        return x) fun _ _ _ => True := by
    intro x
    apply bind advance
    intro _ _ τ _ _ _ _
    exact pure rfl trivial
  apply ite (c := (k ≠ .ident || !startsKey ⟨k₁, u₁, q, b₁⟩) = true)
  · intro _
    exact pure rfl trivial
  · intro _
    apply ite
    · intro _
      exact hadvance _
    · intro _
      apply ite
      · intro _
        exact hadvance _
      · intro _
        apply ite
        · intro _
          exact hadvance _
        · intro _
          exact pure rfl trivial

include hr

theorem arrowBody (hσ : σ.weight < n) :
    Lockstep v v' σ (Parse.arrowBody r) (Parse.arrowBody r') fun _ => Moved σ := by
  apply checkThen
  · intro _
    apply bind (withNoIn_moved false fun τ _ _ _ => block hr (by omega))
    intro b b' τ hb _ _ hτ
    exact pure (by simp [hb]) hτ
  · intro _
    apply bind (hr.assign σ hσ)
    intro x x' τ hx _ _ hτ
    exact pure (by simp [hx]) hτ

theorem identArrow (hσ : σ.weight ≤ n) (hin : σ.weight < n ∨ σ.token.kind = .ident)
    (hp : p.seen v = p'.seen v') (isAsync : Bool) :
    Lockstep v v' σ (Parse.identArrow r p isAsync) (Parse.identArrow r' p' isAsync)
      fun _ => Moved σ := by
  apply bind ident
  intro i i' τ hi _ _ hτ
  have hlt : τ.weight < n := by
    rcases hin with hin | hin
    · omega
    · have := hτ.1 hin
      omega
  apply bind (expect (by decide))
  intro _ _ ρ _ _ _ _
  apply bind (arrowBody hr (by omega))
  intro b b' π hb _ _ _
  exact marked hp (fun m m' hm => by simp [hm, hi, hb]) (by omega)

theorem arrowAfter (hσ : σ.weight ≤ n) (hk : σ.token.kind = .arrow) (hp : p.seen v = p'.seen v')
    (isAsync : Bool) (hes : seen v es = seen v' es') :
    Lockstep v v' σ (Parse.arrowAfter r p isAsync es) (Parse.arrowAfter r' p' isAsync es')
      fun _ => Moved σ := by
  apply bind advance
  intro _ _ τ _ _ _ hτ
  have hlt := hτ.2 (by simp [hk])
  apply bind (toParams hes)
  intro xs xs' ρ hxs _ _ _
  apply bind (arrowBody hr (by omega))
  intro b b' π hb _ _ _
  exact marked hp (fun m m' hm => by simp [hm, hxs, hb]) (by omega)

theorem groupStep (hin : σ.weight < n ∨ σ.calm = 0) {g g' : Group} (hg : seen v g = seen v' g') :
    Lockstep v v' σ (Parse.groupStep r g) (Parse.groupStep r' g') (Lowers σ) := by
  have hitems : seen v g.items = seen v' g'.items := congrArg Group.items hg
  apply stopped
  · exact finish hg
  · intro _ hcalm
    apply checkThen
    · intro hk
      apply start
      intro p p' hp
      apply bind advance
      intro _ _ τ _ _ _ hτ
      apply bind (hr.bindingTarget τ (by omega))
      intro x x' ρ hx _ _ _
      apply markFrom hp
      intro m m' hm
      exact finish (by simp [hitems, hx, hm])
    · intro _
      apply bind (hr.assign σ (by omega))
      intro x x' τ hx _ _ hτ
      apply acceptThen (by decide)
      · intro ρ _ _
        exact again (by simp [hitems, hx]) (by omega)
      · exact finish (by simp [hitems, hx])

theorem parenthesized (hσ : σ.weight ≤ n) (hk : σ.token.kind = .lparen) :
    Lockstep v v' σ (Parse.parenthesized r) (Parse.parenthesized r') fun _ => Moved σ := by
  apply start
  intro p p' hp
  apply bind (pass hk (by decide))
  intro _ _ τ _ _ _ hτ
  apply withNoIn
  intro ρ _ _ _
  apply bind (loop hr (by omega) (by omega) rfl fun _ _ _ hg _ _ => groupStep hr (by omega) hg)
  rintro ⟨items, only⟩ ⟨items', only'⟩ π hg _ _ _
  simp only [Group.seen_mk, Group.mk.injEq] at hg
  obtain ⟨hitems, rfl⟩ := hg
  apply bind (expect (by decide))
  intro _ _ κ _ _ _ _
  apply atArrowThen
  · intro harrow
    exact (arrowAfter hr (by omega) harrow hp false hitems).imp fun _ _ _ _ _ h => by omega
  · have hfail : Lockstep v v' κ
        (do
          Parse.failExpecting Kind.arrow.text
          return Parse.plain (.ident ⟨← Parse.markFrom p, []⟩))
        (do
          Parse.failExpecting Kind.arrow.text
          return Parse.plain (.ident ⟨← Parse.markFrom p', []⟩)) fun _ => Moved σ := by
      apply bind (failExpecting _)
      intro _ _ κ₁ _ _ _ _
      exact marked hp (fun m m' hm => by simp [hm]) (by omega)
    match items, items', hitems, only with
    | [], [], _, _ | [_], [_], _, true | _ :: _ :: _, _ :: _ :: _, _, true => exact hfail
    | [_], _ :: _ :: _, hx, _ | _ :: _ :: _, [_], hx, _ => simp at hx
    | [x], [x'], hx, false =>
      simp only [seen_cons, seen_nil, List.cons.injEq, and_true] at hx
      exact pure (by simp [hx]) (by omega)
    | x :: y :: xs, x' :: y' :: xs', hx, false =>
      apply markFrom hp
      intro m m' hm
      exact pure (by simp only [seen_plain, Expr.seen_seq, hm, hx]) (by omega)

theorem asyncCall (hσ : σ.weight ≤ n) :
    Lockstep v v' σ (Parse.asyncCall r) (Parse.asyncCall r') fun _ => Moved σ := by
  apply start
  intro p p' hp
  apply bind ident
  intro i i' τ hi _ _ hτ
  apply bind (arguments hr (by omega))
  intro es es' ρ hes _ _ _
  apply atArrowThen
  · intro harrow
    exact (arrowAfter hr (by omega) harrow hp true hes).imp fun _ _ _ _ _ h => by omega
  · exact marked hp (fun m m' hm => by simp [hm, hi, hes]) (by omega)

theorem functionExpr (hσ : σ.weight ≤ n) (isAsync : Bool) :
    Lockstep v v' σ (Parse.functionExpr r isAsync) (Parse.functionExpr r' isAsync)
      fun _ => Moved σ := by
  apply start
  intro p p' hp
  apply bind (function hr hσ isAsync false)
  intro f f' τ hf _ _ hτ
  exact marked hp (fun m m' hm => by simp [hm, hf]) hτ

theorem elementStep (hin : σ.weight < n ∨ σ.calm = 0)
    {es es' : List Expr} (hes : seen v es = seen v' es') :
    Lockstep v v' σ (Parse.elementStep r es) (Parse.elementStep r' es') (Lowers σ) := by
  apply stopped
  · exact finish hes
  · intro _ hcalm
    apply acceptThen (by decide)
    · intro τ _ _
      exact again (by simp [hes]) (by omega)
    · apply bind (spreadable hr (by omega))
      intro x x' τ hx _ _ hτ
      apply check
      apply maybe fun _ => expect (by decide)
      intro ρ _ _
      exact again (by simp [hes, hx]) (by omega)

theorem arrayLiteral (hσ : σ.weight ≤ n) :
    Lockstep v v' σ (Parse.arrayLiteral r) (Parse.arrayLiteral r') fun _ => Moved σ := by
  apply start
  intro p p' hp
  apply bind (expect (by decide))
  intro _ _ τ _ _ _ hτ
  apply withNoIn
  intro ρ _ _ _
  apply bind (loop hr (by omega) (by omega) rfl fun _ _ _ hes _ _ => elementStep hr (by omega) hes)
  intro es es' π hes _ _ _
  apply bind (expect (by decide))
  intro _ _ κ _ _ _ _
  exact marked hp (fun m m' hm => by simp [hm, hes]) (by omega)

theorem shorthandValue (hσ : σ.weight < n) (hi : seen v i = seen v' i') :
    Lockstep v v' σ (Parse.shorthandValue r i) (Parse.shorthandValue r' i') fun _ _ _ => True := by
  have hstart : i.mark.span.start.seen v = i'.mark.span.start.seen v' :=
    congrArg (fun i => i.mark.span.start) hi
  apply acceptThen (by decide)
  · intro τ _ _
    apply bind (hr.assign τ (by omega))
    intro x x' ρ hx _ _ _
    exact marked hstart (fun m m' hm => by simp [hm, hi, hx]) trivial
  · exact pure (by simp [hi]) trivial

theorem property (hσ : σ.weight < n) :
    Lockstep v v' σ (Parse.property r) (Parse.property r') fun _ => Moved σ := by
  apply start
  intro p p' hp
  apply checkThen
  · intro hk
    apply bind advance
    intro _ _ τ _ _ _ hτ
    have hlt := hτ.2 (by simp [hk])
    apply bind (hr.assign τ (by omega))
    intro x x' ρ hx _ _ _
    exact marked hp (fun m m' hm => by simp [hm, hx]) (by omega)
  · intro _
    apply bind propertyModifier
    rintro ⟨kind, isAsync⟩ ⟨kind', isAsync'⟩ τ hkind _ _ _
    simp only [Prod.seen_mk, PropKind.seen_eq, Bool.seen_eq, Prod.mk.injEq] at hkind
    obtain ⟨rfl, rfl⟩ := hkind
    apply bind (accept (by decide))
    rintro generator _ ρ rfl _ _ _
    apply token
    intro k u q q' b hq _ _ _
    apply bind (propertyKey hr (by omega))
    rintro ⟨key, computed⟩ ⟨key', computed'⟩ π hkey _ _ hπ
    simp only [Prod.seen_mk, Bool.seen_eq, Prod.mk.injEq] at hkey
    obtain ⟨hkey, rfl⟩ := hkey
    apply check
    apply ite
    · intro _
      apply start
      intro f f' hf
      apply bind (functionRest hr (by omega) hf rfl _ _)
      intro g g' κ hg _ _ _
      apply markFrom hf
      intro m m' hm
      apply markFrom hp
      intro l l' hl
      exact pure (by simp [hm, hl, hkey, hg]) (by omega)
    · intro _
      apply acceptThen (by decide)
      · intro κ _ _
        apply bind (hr.assign κ (by omega))
        intro x x' κ₁ hx _ _ _
        exact marked hp (fun m m' hm => by simp [hm, hkey, hx]) (by omega)
      · have hfail : Lockstep v v' π
            (do
              Parse.failExpecting Kind.colon.text
              return Expr.property (← Parse.markFrom p) ⟨kind, computed, false, false⟩ key .hole)
            (do
              Parse.failExpecting Kind.colon.text
              return Expr.property (← Parse.markFrom p') ⟨kind, computed, false, false⟩ key' .hole)
            fun _ => Moved σ := by
          apply bind (failExpecting _)
          intro _ _ κ _ _ _ _
          exact marked hp (fun m m' hm => by simp [hm, hkey]) (by omega)
        rcases ident_cases hkey with ⟨i, i', rfl, rfl, hi⟩ | ⟨hne, hne'⟩
        · dsimp only
          generalize (!computed && decide (k = .ident)) = short
          cases short with
          | true =>
            apply bind (shorthandValue hr (by omega) hi)
            intro x x' κ hx _ _ _
            exact marked hp (fun m m' hm => by simp [hm, hi, hx]) (by omega)
          | false => exact hfail
        · dsimp only
          split
          · exact absurd rfl (hne _)
          · split
            · exact absurd rfl (hne' _)
            · exact hfail

theorem memberStep (hin : σ.weight < n ∨ σ.calm = 0)
    {es es' : List Expr} (hes : seen v es = seen v' es') :
    Lockstep v v' σ (Parse.memberStep r es) (Parse.memberStep r' es') (Lowers σ) := by
  apply stopped
  · exact finish hes
  · intro _ hcalm
    apply bind (property hr (by omega))
    intro x x' τ hx _ _ hτ
    apply acceptThen (by decide)
    · intro ρ _ _
      exact again (by simp [hes, hx]) (by omega)
    · exact finish (by simp [hes, hx])

theorem objectLiteral (hσ : σ.weight ≤ n) :
    Lockstep v v' σ (Parse.objectLiteral r) (Parse.objectLiteral r') fun _ => Moved σ := by
  apply start
  intro p p' hp
  apply bind (expect (by decide))
  intro _ _ τ _ _ _ hτ
  apply withNoIn
  intro ρ _ _ _
  apply bind (loop hr (by omega) (by omega) rfl fun _ _ _ hes _ _ => memberStep hr (by omega) hes)
  intro es es' π hes _ _ _
  apply bind (expect (by decide))
  intro _ _ κ _ _ _ _
  exact marked hp (fun m m' hm => by simp [hm, hes]) (by omega)

end Primaries

section Templates

def fresh (t : Token) (ts : List (Token × List Fault)) (e : Option Token) : Window :=
  ⟨t, t, t, ts, e, [], [], false⟩

theorem fresh_advanced (t t' : Token) (ts : List (Token × List Fault)) (e : Option Token) :
    ((fresh t ts e).advanced.bind Window.advanced).bind Window.advanced =
      ((fresh t' ts e).advanced.bind Window.advanced).bind Window.advanced := by
  match ts, e with
  | [], none | [], some _ | [_], none | [_], some _ | [_, _], none | [_, _], some _ => rfl
  | _ :: _ :: _ :: _, _ => rfl

def Reaches (v : Int → Int) (w : Nat) (x : Except Crash Reader) : Option Window → Prop
  | none => x = .error .overrun
  | some τ => ∃ s, x = .ok s ∧ s.Shows v τ ∧ τ.weight ≤ w

def passing (s : Reader) : Except Crash Reader := return (← Parse.advance.run s).2

theorem Reaches.advance (h : Reaches v w x τ) :
    Reaches v w (x >>= passing) (τ.bind Window.advanced) := by
  cases τ with
  | none =>
    rw [show x = .error .overrun from h]
    rfl
  | some τ =>
    obtain ⟨s, rfl, hs, hw⟩ := h
    have hrun := hs.advance
    change Reaches v w (passing s) τ.advanced
    unfold passing
    cases hτ : τ.advanced with
    | none =>
      rw [hτ] at hrun
      rw [hrun]
      rfl
    | some ρ =>
      rw [hτ] at hrun
      obtain ⟨⟨t, ht, hshows⟩, hweight, _⟩ := hrun
      rw [ht]
      exact ⟨t, rfl, hshows, by omega⟩

theorem ofLexer (hl : l.Shows v ts e) (hfaults : l.faults = []) :
    Reaches v (Lexer.feedWeight ts) (Reader.ofLexer l)
      (((fresh .blank ts e).advanced.bind Window.advanced).bind Window.advanced) := by
  have hblank : Token.Sound v .blank := ⟨by simp [Token.blank], fun h => nomatch h⟩
  have hstart : Reaches v (Lexer.feedWeight ts)
      (.ok ⟨l, .blank, .blank, .blank, .none, [], false, 0⟩)
      (some (fresh (Token.blank.seen v) ts e)) := by
    refine ⟨_, rfl, ⟨rfl, rfl, rfl, ⟨hblank, hblank, hblank⟩, hl, ?_, rfl, rfl⟩, ?_⟩
    · simp [hfaults, fresh]
    · simp [Window.weight, fresh, Token.seen, Token.blank]
  rw [fresh_advanced _ (Token.blank.seen v)]
  have hfilled := hstart.advance.advance.advance
  simp only [passing, bind_assoc, pure_bind] at hfilled
  simp only [Reader.ofLexer, StateT.run_bind, bind_assoc]
  exact hfilled

def fragment (r : Rules) : Parse Expr := do
  let e ← r.expression
  if !(← Parse.check .eof) && !(← Parse.failed) then
    Parse.fail (.unexpectedOperand (← Parse.token))
  return e

theorem run_substitution (r : Rules) (sub : Substitution) (s : Reader) :
    (Parse.substitution r sub).run s = (do
      let inner ← Reader.ofLexer (.ofFragment sub.source sub.pos)
      let p ← (fragment r).run inner
      return (p.1, { s with faults := s.faults ++ p.2.fault?.toList })) := by
  have hlift : ∀ {α : Type} (x : Except Crash α) (f : α → Parse Expr),
      (liftM x >>= f : Parse Expr).run s = x >>= fun a => (f a).run s := by
    intro α x f
    cases x <;> rfl
  change (liftM (Reader.ofLexer _) >>= fun inner => liftM ((fragment r).run inner) >>=
    fun p => (modify fun s => { s with faults := s.faults ++ p.2.fault?.toList }) >>=
      fun _ => Pure.pure p.1 : Parse Expr).run s = _
  rw [hlift]
  congr 1
  funext inner
  rw [hlift]
  rfl

include hr

theorem fault?_seen {s s' : Reader} (hs : s.Shows v σ) (hs' : s'.Shows v' σ) :
    s.fault?.map (Fault.seen v) = s'.fault?.map (Fault.seen v') := by
  rw [Reader.fault?, Reader.fault?, ← Fault.earliest?_seen hr.mono, ← Fault.earliest?_seen hr.mono',
    List.map_append, List.map_append, hs.lexical, hs.faults, hs'.lexical, hs'.faults]

theorem lockstep_fragment (hσ : σ.weight < n) :
    Lockstep v v' σ (fragment r) (fragment r') fun _ _ _ => True := by
  apply bind (hr.expression σ hσ)
  intro e e' τ he _ _ _
  apply check
  apply failed
  apply ite
  · intro _
    apply token
    intro k u p p' b hp _ _ _
    rw [Parse.fail, bind_assoc, Parse.fail, bind_assoc]
    apply start
    intro q q' hq
    apply bind (failAt hq (by simp only [Cause.seen, Token.seen, hp]))
    intro _ _ ρ _ _ _ _
    exact pure he trivial
  · intro _
    exact pure he trivial

theorem substitution {d : Int} (hsub : Substitution.Shifted d sub sub')
    (hv : ∀ o, sub.pos.offset ≤ o → o ≤ sub.pos.offset + sub.source.reach → v' (o + d) = v o)
    (hstraight : Straight v sub.pos.offset (sub.pos.offset + sub.source.reach))
    (hlen : sub.source.length < n) :
    Lockstep v v' σ (Parse.substitution r sub) (Parse.substitution r' sub') fun _ _ _ => True := by
  intro s s' hs hs'
  let l := Lexer.ofFragment sub.source sub.pos
  let l' := Lexer.ofFragment sub'.source sub'.pos
  have hshift : Lexer.Shifted d l l' := by
    simp only [l', hsub.source]
    exact .ofFragment hsub.offset _
  have hoffset : l.cursor.pos.offset = sub.pos.offset := Lexer.ofText_offset _ _
  have hlimit : l.limit = sub.pos.offset + sub.source.reach := by
    have hat : l.atStart = true := decide_eq_true hoffset
    have hrest : l.cursor.rest = sub.source := rfl
    rw [Lexer.limit, hat, hrest, hoffset, Text.reach]
    simp only [Bool.true_and, decide_eq_true_eq]
    split <;> rfl
  obtain ⟨ts, e, hl, hl', hweight⟩ := hshift.exists_shows hv hstraight
    (fun f hf => absurd hf List.not_mem_nil) (Int.le_refl _) (Int.le_of_eq hoffset.symm)
    (Int.le_of_eq hlimit)
  have hweight : Lexer.feedWeight ts ≤ sub.source.length := hweight
  rw [run_substitution, run_substitution]
  have hreader := ofLexer hl rfl
  have hreader' := ofLexer hl' rfl
  cases hτ : ((fresh .blank ts e).advanced.bind Window.advanced).bind Window.advanced with
  | none =>
    rw [hτ] at hreader hreader'
    rw [show Reader.ofLexer l = .error .overrun from hreader,
      show Reader.ofLexer l' = .error .overrun from hreader']
    exact .crash (by decide)
  | some τ =>
    rw [hτ] at hreader hreader'
    obtain ⟨t, ht, hshows, htw⟩ := hreader
    obtain ⟨t', ht', hshows', _⟩ := hreader'
    rw [show Reader.ofLexer l = .ok t from ht, show Reader.ofLexer l' = .ok t' from ht']
    have hrun := lockstep_fragment hr (σ := τ) (by omega) hshows hshows'
    change Alike v v' σ _
      ((fragment r).run t >>= fun p => .ok (p.1, { s with
        faults := s.faults ++ p.2.fault?.toList }))
      ((fragment r').run t' >>= fun p => .ok (p.1, { s' with
        faults := s'.faults ++ p.2.fault?.toList }))
    generalize (fragment r).run t = x at hrun ⊢
    generalize (fragment r').run t' = x' at hrun ⊢
    cases hrun with
    | crash hc => exact .crash hc
    | @ok ρ u u' a a' hu hu' ha _ _ _ =>
      have hfault := fault?_seen hr hu hu'
      have hout := hs.fail u.fault?.toList
      have hout' := hs'.fail u'.fault?.toList
      have hlist : ∀ (v : Int → Int) (f : Option Fault),
          f.toList.map (Fault.seen v) = (f.map (Fault.seen v)).toList := by
        intro v f
        cases f <;> rfl
      rw [hlist] at hout hout'
      rw [← hfault] at hout'
      exact .ok hout hout' ha (Nat.le_refl _)
        (Window.calm_mono (fun h => (List.append_eq_nil_iff.1 h).1) id) trivial

theorem substitutions (ho : v o = v' o')
    (hsubs : List.Forall₂ (Substitution.Shifted (o' - o)) subs subs')
    (hv : ∀ sub ∈ subs, o ≤ sub.pos.offset ∧ Straight v o (sub.pos.offset + sub.source.reach))
    (hv' : ∀ sub ∈ subs', o' ≤ sub.pos.offset ∧ Straight v' o' (sub.pos.offset + sub.source.reach))
    (hlen : ∀ sub ∈ subs, sub.source.length < n) :
    Lockstep v v' σ (Parse.substitutions r subs) (Parse.substitutions r' subs')
      fun _ _ _ => True := by
  induction hsubs generalizing σ with
  | nil => exact pure rfl trivial
  | @cons sub sub' subs subs' hsub _ ih =>
    obtain ⟨hle, hstraight⟩ := hv sub (.head _)
    obtain ⟨hle', hstraight'⟩ := hv' sub' (.head _)
    rw [hsub.source, hsub.offset] at hstraight'
    have hagree : ∀ a, sub.pos.offset ≤ a → a ≤ sub.pos.offset + sub.source.reach →
        v' (a + (o' - o)) = v a := by
      intro a ha ha'
      rw [hstraight a (by omega) ha', hstraight' (a + (o' - o)) (by omega) (by omega), ho]
      omega
    apply bind (substitution hr hsub hagree (hstraight.sub hle (Int.le_refl _))
      (hlen sub (.head _)))
    intro e e' τ he _ _ _
    apply bind (ih (fun s hs => hv s (.tail _ hs)) (fun s hs => hv' s (.tail _ hs))
      fun s hs => hlen s (.tail _ hs))
    intro es es' ρ hes _ _ _
    exact pure (by simp [he, hes]) trivial

theorem template (hσ : σ.weight ≤ n) (hk : σ.token.kind = .template) (hp : p.seen v = p'.seen v')
    (htag : seen v tag = seen v' tag') :
    Lockstep v v' σ (Parse.template r p tag) (Parse.template r' p' tag') fun _ => Moved σ := by
  apply token
  intro k u q q' b hq hσ' hsound hsound'
  have hkind : k = .template := by rw [← hk, hσ']
  subst hkind
  apply bind advance
  intro _ _ τ _ _ _ hτ
  have hlt := hτ.2 (by simp [hk])
  have hu : u.length ≤ n := by
    have := hτ.1
    rw [hσ'] at this
    dsimp only at this
    omega
  apply markFrom hp
  intro m m' hm
  have hseen : v q.offset = v' q'.offset := congrArg Position.offset hq
  have hd : q'.offset = q.offset + (q'.offset - q.offset) := by omega
  rcases TemplateParts.ofRaw_shifted hd u with ⟨c, hc, hc'⟩ | ⟨a, a', ha, ha', hparts⟩
  · have hne : c ≠ .exhausted := by
      rintro rfl
      exact TemplateParts.ofRaw_ne_exhausted u q hc
    dsimp only
    rw [hc, hc']
    exact throw hne
  · dsimp only
    rw [ha, ha']
    have hlen : ∀ sub ∈ a.substitutions, sub.source.length < n := by
      intro sub hsub
      obtain ⟨i, hi, _, hreach, _⟩ := TemplateParts.ofRaw_inside ha hsub
      have := sub.source.length_le_reach
      omega
    have hsubs := substitutions (σ := τ) hr hseen hparts.substitutions (hsound.inside rfl a ha)
      (hsound'.inside rfl a' ha') hlen
    change Lockstep v v' τ
      (do return Expr.template m tag a.quasis (← Parse.substitutions r a.substitutions))
      (do return Expr.template m' tag' a'.quasis (← Parse.substitutions r' a'.substitutions)) _
    apply bind hsubs
    intro es es' ρ hes _ _ _
    exact pure (by simp [hm, htag, hes, hparts.quasis]) (by omega)

end Templates

section Expressions

theorem asLiteral (t : Token) (kind : LiteralKind) (ht : t.seen v = t'.seen v')
    (hk : σ.token.kind ≠ .eof) :
    Lockstep v v' σ (Parse.asLiteral t kind) (Parse.asLiteral t' kind) fun _ => Moved σ := by
  have hp : t.pos.seen v = t'.pos.seen v' := congrArg Token.pos ht
  have hu : t.literal = t'.literal := Token.literal_eq ht
  apply bind advance
  intro _ _ τ _ _ _ hτ
  exact marked hp (fun m m' hm => by simp [hm, hu]) (.inl (hτ.2 hk))

theorem isSimpleTarget_eq (hx : seen v x = seen v' x') :
    Parse.isSimpleTarget x = Parse.isSimpleTarget x' := by
  have hseen : ∀ (v : Int → Int) (x : Expr),
      Parse.isSimpleTarget (seen v x) = Parse.isSimpleTarget x := by
    intro v x
    cases x <;> rfl
  rw [← hseen v x, hx, hseen]

theorem operatorThen [Seen α] {Q : α → Nat → Nat → Prop}
    (h : ∀ op, (op ≠ none → σ.token.kind ≠ .eof) → Lockstep v v' σ (f op) (f' op) Q) :
    Lockstep v v' σ (Parse.operator? >>= f) (Parse.operator? >>= f') Q := by
  rw [Parse.operator?, bind_assoc, bind_assoc]
  apply get
  intro s s' hs hs'
  have hkind : s.token.kind = σ.token.kind := by rw [← hs.token]; rfl
  have hkind' : s'.token.kind = σ.token.kind := by rw [← hs'.token]; rfl
  rw [hs.noIn, hs'.noIn, hkind, hkind']
  split
  · simp only [pure_bind]
    exact h none fun h => absurd rfl h
  · simp only [pure_bind]
    apply h
    intro hop heof
    rw [heof] at hop
    exact hop rfl

include hr

theorem named (hσ : σ.weight ≤ n) (hp : p.seen v = p'.seen v') (hk : σ.token.kind = .ident) :
    Lockstep v v' σ (Parse.named r ⟨.ident, u, p, b⟩) (Parse.named r' ⟨.ident, u, p', b⟩)
      fun _ => Moved σ := by
  apply peek
  intro k₁ u₁ q q' b₁
  apply ite
  · intro _
    exact identArrow hr hσ (.inr hk) hp false
  · intro _
    dsimp only
    apply ite
    · intro _
      exact functionExpr hr hσ true
    · intro _
      apply get
      intro s s' hs hs'
      rw [show s'.peek2.kind = s.peek2.kind from Token.kind_eq (hs'.peek2.trans hs.peek2.symm)]
      apply ite
      · intro _
        apply bind advance
        intro _ _ τ _ _ _ hτ
        have hlt := hτ.2 (by simp [hk])
        exact (identArrow hr (by omega) (.inl (by omega)) hp true).imp fun _ _ _ _ _ h => by omega
      · intro _
        apply ite
        · intro _
          exact asyncCall hr hσ
        · intro _
          apply bind advance
          intro _ _ τ _ _ _ hτ
          exact marked hp (fun m m' hm => by simp [hm]) (.inl (hτ.2 (by simp [hk])))

theorem primary (hσ : σ.weight ≤ n) :
    Lockstep v v' σ (Parse.primary r) (Parse.primary r') fun _ => Moved σ := by
  apply token
  intro k u p p' b hp hσ' _ _
  have hkind : σ.token.kind = k := by rw [hσ']
  have hseen : (Token.mk k u p b).seen v = (Token.mk k u p' b).seen v' := by
    simp only [Token.seen, hp]
  dsimp only
  split
  · exact named hr hσ hp hkind
  · exact asLiteral _ _ hseen (by simp [hkind])
  · exact asLiteral _ _ hseen (by simp [hkind])
  · exact asLiteral _ _ hseen (by simp [hkind])
  · exact asLiteral _ _ hseen (by simp [hkind])
  · exact asLiteral _ _ hseen (by simp [hkind])
  · exact asLiteral _ _ hseen (by simp [hkind])
  · apply bind advance
    intro _ _ τ _ _ _ hτ
    exact marked hp (fun m m' hm => by simp [hm]) (.inl (hτ.2 (by simp [hkind])))
  · apply bind advance
    intro _ _ τ _ _ _ hτ
    exact marked hp (fun m m' hm => by simp [hm]) (.inl (hτ.2 (by simp [hkind])))
  · apply bind advance
    intro _ _ τ _ _ _ hτ
    exact marked hp (fun m m' hm => by simp [hm]) (.inl (hτ.2 (by simp [hkind])))
  · apply bind (template hr hσ hkind hp rfl)
    intro x x' τ hx _ _ hτ
    exact pure (by simp [hx]) hτ
  · exact parenthesized hr hσ hkind
  · apply bind (arrayLiteral hr hσ)
    intro x x' τ hx _ _ hτ
    exact pure (by simp [hx]) hτ
  · apply bind (objectLiteral hr hσ)
    intro x x' τ hx _ _ hτ
    exact pure (by simp [hx]) hτ
  · exact functionExpr hr hσ false
  · apply bind (fail _ rfl)
    intro _ _ τ _ _ _ hτ
    exact pure (by simp [missingIdent hp]) (.inr hτ)
  · rw [Parse.fail, bind_assoc, Parse.fail, bind_assoc]
    apply start
    intro q q' hq
    apply bind (failAt hq (by simp only [Cause.seen, hseen]))
    intro _ _ τ _ _ _ hτ
    exact pure (by simp [missingIdent hp]) (.inr hτ)

theorem tailStep (hin : σ.weight < n ∨ σ.calm = 0) {p p' : Position}
    (hp : p.seen v = p'.seen v') (calls : Bool) {x x' : Expr} (hx : seen v x = seen v' x') :
    Lockstep v v' σ (Parse.tailStep r p calls x) (Parse.tailStep r' p' calls x') (Lowers σ) := by
  apply failedThen
  · intro _
    exact finish hx
  · intro hcalm
    apply token
    intro k u q q' b hq hσ' _ _
    have hkind : σ.token.kind = k := by rw [hσ']
    dsimp only
    split
    · apply bind advance
      intro _ _ τ _ _ _ hτ
      have hlt := hτ.2 (by simp [hkind])
      apply bind identName
      intro i i' ρ hi _ _ _
      apply markFrom hp
      intro m m' hm
      exact again (by simp [hm, hx, hi]) (by omega)
    · apply bind advance
      intro _ _ τ _ _ _ hτ
      have hlt := hτ.2 (by simp [hkind])
      apply checkThen
      · intro _
        apply bind (arguments hr (by omega))
        intro es es' ρ hes _ _ _
        apply markFrom hp
        intro m m' hm
        exact again (by simp [hm, hx, hes]) (by omega)
      · intro _
        apply checkThen
        · intro hbracket
          apply bind (computedProp hr (by omega) hbracket)
          intro y y' ρ hy _ _ _
          apply markFrom hp
          intro m m' hm
          exact again (by simp [hm, hx, hy]) (by omega)
        · intro _
          apply bind identName
          intro i i' ρ hi _ _ _
          apply markFrom hp
          intro m m' hm
          exact again (by simp [hm, hx, hi]) (by omega)
    · apply bind (computedProp hr (by omega) hkind)
      intro y y' τ hy _ _ _
      apply markFrom hp
      intro m m' hm
      exact again (by simp [hm, hx, hy]) (by omega)
    · apply ite
      · intro _
        exact finish hx
      · intro _
        apply bind (arguments hr (by omega))
        intro es es' τ hes _ _ _
        apply markFrom hp
        intro m m' hm
        exact again (by simp [hm, hx, hes]) (by omega)
    · apply bind (template hr (by omega) hkind hp (by simp [hx]))
      intro y y' τ hy _ _ _
      exact again hy (by omega)
    · exact finish hx

theorem tail (hσ : σ.weight ≤ n) (hin : σ.weight < n ∨ σ.calm = 0) {p p' : Position}
    (hp : p.seen v = p'.seen v') (calls : Bool) (hx : seen v x = seen v' x') :
    Lockstep v v' σ (Parse.tail r p calls x) (Parse.tail r' p' calls x') fun _ _ _ => True :=
  loop hr hσ hin hx fun _ _ _ hx _ _ => tailStep hr (by omega) hp calls hx

theorem newExpr (hσ : σ.weight ≤ n) (hk : σ.token.kind = .newKw) :
    Lockstep v v' σ (Parse.newExpr r) (Parse.newExpr r') fun _ => Moved σ := by
  apply start
  intro p p' hp
  apply bind advance
  intro _ _ τ _ _ _ hτ
  have hlt := hτ.2 (by simp [hk])
  apply acceptThen (by decide)
  · intro ρ _ _
    apply bind identName
    intro i i' π hi _ _ _
    exact marked hp (fun m m' hm => by simp [hm, hi, Span.point, hp]) (by omega)
  · -- The arguments come after a callee that is itself `new` or a primary expression.
    have hrest : ∀ (ρ : Window) (x x' : Expr), seen v x = seen v' x' → ρ.weight ≤ τ.weight →
        Lockstep v v' ρ
          (do
            let callee ← Parse.tail r p false x
            let args ← if ← Parse.check .lparen then Parse.arguments r else Pure.pure []
            return Expr.new (← Parse.markFrom p) callee args)
          (do
            let callee ← Parse.tail r' p' false x'
            let args ← if ← Parse.check .lparen then Parse.arguments r' else Pure.pure []
            return Expr.new (← Parse.markFrom p') callee args) fun _ => Moved σ := by
      intro ρ x x' hx _
      apply bind (tail hr (by omega) (.inl (by omega)) hp false hx)
      intro y y' π hy _ _ _
      apply checkThen
      · intro _
        apply bind (arguments hr (by omega))
        intro es es' κ hes _ _ _
        exact marked hp (fun m m' hm => by simp [hm, hy, hes]) (by omega)
      · intro _
        simp only [pure_bind]
        exact marked hp (fun m m' hm => by simp [hm, hy]) (by omega)
    apply checkThen
    · intro hnew
      apply bind (hr.newExpr τ (by omega) hnew)
      intro x x' ρ hx hρ _ _
      exact hrest ρ x x' hx hρ
    · intro _
      apply bind (primary hr (by omega))
      intro x x' ρ hx hρ _ _
      exact hrest ρ x.expr x'.expr (congrArg Primary.expr hx) hρ

theorem leftHandSide (hσ : σ.weight ≤ n) :
    Lockstep v v' σ (Parse.leftHandSide r) (Parse.leftHandSide r') fun _ => Moved σ := by
  apply start
  intro p p' hp
  apply checkThen
  · intro hk
    apply bind (newExpr hr hσ hk)
    intro x x' τ hx _ _ hτ
    exact (tail hr (by omega) (by omega) hp true hx).imp fun _ _ _ _ _ _ => by omega
  · intro _
    apply bind (primary hr hσ)
    rintro ⟨x, bare⟩ ⟨x', bare'⟩ τ hx _ _ hτ
    simp only [Primary.seen_mk, Primary.mk.injEq] at hx
    obtain ⟨hx, rfl⟩ := hx
    apply ite
    · intro _
      exact pure hx hτ
    · intro _
      exact (tail hr (by omega) (by omega) hp true hx).imp fun _ _ _ _ _ _ => by omega

theorem postfixed (hσ : σ.weight ≤ n) :
    Lockstep v v' σ (Parse.postfixed r) (Parse.postfixed r') fun _ => Moved σ := by
  apply start
  intro p p' hp
  apply bind (leftHandSide hr hσ)
  intro x x' τ hx _ _ hτ
  apply token
  intro k u q q' b _ hτ' _ _
  dsimp only
  cases hop : UpdateOp.ofKind? k with
  | none => exact pure hx hτ
  | some op =>
    have hk : τ.token.kind ≠ .eof := by
      rw [hτ']
      rintro rfl
      cases hop
    -- The reader stays at the operator when the target is refused.
    have hrest : ∀ ρ : Window, ρ.token = τ.token → ρ.weight = τ.weight → Lockstep v v' ρ
        (do
          Parse.advance
          return Expr.update (← Parse.markFrom p) op false x)
        (do
          Parse.advance
          return Expr.update (← Parse.markFrom p') op false x') fun _ => Moved σ := by
      intro ρ hρ hw
      apply bind advance
      intro _ _ π _ _ _ hπ
      have hlt := hπ.2 (by rwa [hρ])
      exact marked hp (fun m m' hm => by simp [hm, hx]) (by omega)
    apply ite
    · intro _
      exact pure hx hτ
    · intro _
      rw [isSimpleTarget_eq hx]
      apply ite
      · intro _
        apply failThen _ rfl
        intro ρ hρ hw _
        exact hrest ρ hρ hw
      · intro _
        exact hrest τ rfl rfl

theorem unary (hσ : σ.weight ≤ n) :
    Lockstep v v' σ (Parse.unary r) (Parse.unary r') fun _ => Moved σ := by
  apply start
  intro p p' hp
  apply token
  intro k u q q' b _ hσ' _ _
  have hkind : σ.token.kind = k := by rw [hσ']
  dsimp only
  cases hunary : UnaryOp.ofKind? k with
  | some op =>
    apply bind advance
    intro _ _ τ _ _ _ hτ
    have hlt := hτ.2 (by rw [hkind]; rintro rfl; cases hunary)
    apply bind (hr.unary τ (by omega))
    intro x x' ρ hx _ _ _
    exact marked hp (fun m m' hm => by simp [hm, hx]) (by omega)
  | none =>
    cases hupdate : UpdateOp.ofKind? k with
    | some op =>
      apply bind advance
      intro _ _ τ _ _ _ hτ
      have hlt := hτ.2 (by rw [hkind]; rintro rfl; cases hupdate)
      apply bind (hr.unary τ (by omega))
      intro x x' ρ hx _ _ _
      rw [isSimpleTarget_eq hx]
      apply maybe fun _ => failAt hp rfl
      intro π _ _
      exact marked hp (fun m m' hm => by simp [hm, hx]) (by omega)
    | none =>
      apply ite
      · intro hk
        apply bind advance
        intro _ _ τ _ _ _ hτ
        have hlt := hτ.2 (by rw [hkind, hk]; decide)
        apply bind (hr.unary τ (by omega))
        intro x x' ρ hx _ _ _
        exact marked hp (fun m m' hm => by simp [hm, hx]) (by omega)
      · intro _
        exact postfixed hr hσ

theorem binaryStep (hin : σ.weight < n ∨ σ.calm = 0) {p p' : Position}
    (hp : p.seen v = p'.seen v') (least : Prec) {x x' : Expr} (hx : seen v x = seen v' x') :
    Lockstep v v' σ (Parse.binaryStep r p least x) (Parse.binaryStep r' p' least x')
      (Lowers σ) := by
  apply failedThen
  · intro _
    exact finish hx
  · intro hcalm
    apply operatorThen
    intro op hop
    cases op with
    | none => exact finish hx
    | some op =>
      apply ite
      · intro _
        exact finish hx
      · intro _
        apply bind advance
        intro _ _ τ _ _ _ hτ
        have hlt := hτ.2 (hop (by simp))
        apply bind (hr.binary _ τ (by omega))
        intro y y' ρ hy _ _ _
        apply markFrom hp
        intro m m' hm
        exact again (by simp [hm, hx, hy]) (by omega)

theorem binary (hσ : σ.weight ≤ n) (least : Prec) :
    Lockstep v v' σ (Parse.binary r least) (Parse.binary r' least) fun _ => Moved σ := by
  apply start
  intro p p' hp
  apply bind (unary hr hσ)
  intro x x' τ hx _ _ hτ
  have hloop := loop (σ := τ) hr (by omega) (by omega) hx fun _ _ _ hx _ _ =>
    binaryStep hr (by omega) hp least hx
  exact hloop.imp fun _ _ _ _ _ _ => by omega

theorem conditional (hσ : σ.weight ≤ n) :
    Lockstep v v' σ (Parse.conditional r) (Parse.conditional r') fun _ => Moved σ := by
  apply start
  intro p p' hp
  apply bind (binary hr hσ _)
  intro x x' τ hx _ _ hτ
  apply acceptThen (by decide)
  · intro ρ _ _
    apply bind (withNoIn_moved false fun κ _ _ _ => hr.assign κ (by omega))
    intro y y' π hy _ _ _
    apply bind (expect (by decide))
    intro _ _ κ _ _ _ _
    apply bind (hr.assign κ (by omega))
    intro z z' κ₁ hz _ _ _
    exact marked hp (fun m m' hm => by simp [hm, hx, hy, hz]) (by omega)
  · exact pure hx hτ

theorem yieldExpr (hσ : σ.weight ≤ n) (hk : σ.token.kind = .yieldKw) :
    Lockstep v v' σ (Parse.yieldExpr r) (Parse.yieldExpr r') fun _ => Moved σ := by
  apply start
  intro p p' hp
  apply bind advance
  intro _ _ τ _ _ _ hτ
  have hlt := hτ.2 (by simp [hk])
  apply token
  intro k u q q' b _ _ _ _
  apply ite (c := Parse.endsYield ⟨k, u, q, b⟩ = true)
  · intro _
    exact marked hp (fun m m' hm => by simp [hm]) (by omega)
  · intro _
    apply bind (accept (by decide))
    rintro delegate _ ρ rfl _ _ _
    apply bind (hr.assign ρ (by omega))
    intro x x' π hx _ _ _
    exact marked hp (fun m m' hm => by simp [hm, hx]) (by omega)

theorem assign (hσ : σ.weight ≤ n) :
    Lockstep v v' σ (Parse.assign r) (Parse.assign r') fun _ => Moved σ := by
  apply start
  intro p p' hp
  apply checkThen
  · intro hk
    exact yieldExpr hr hσ hk
  · intro _
    apply bind (conditional hr hσ)
    intro x x' τ hx _ _ hτ
    apply token
    intro k u q q' b _ hτ' _ _
    dsimp only
    cases hop : AssignOp.ofKind? k with
    | none => exact pure hx hτ
    | some op =>
      have hk : τ.token.kind ≠ .eof := by
        rw [hτ']
        rintro rfl
        cases hop
      have hrest : ∀ (ρ : Window) (y y' : Expr), seen v y = seen v' y' → ρ.token = τ.token →
          ρ.weight = τ.weight → Lockstep v v' ρ
            (do
              Parse.advance
              let right ← r.assign
              return Expr.assign (← Parse.markFrom p) op y right)
            (do
              Parse.advance
              let right ← r'.assign
              return Expr.assign (← Parse.markFrom p') op y' right) fun _ => Moved σ := by
        intro ρ y y' hy hρ hw
        apply bind advance
        intro _ _ π _ _ _ hπ
        have hlt := hπ.2 (by rwa [hρ])
        apply bind (hr.assign π (by omega))
        intro z z' κ hz _ _ _
        exact marked hp (fun m m' hm => by simp [hm, hy, hz]) (by omega)
      have hchecked : ∀ (ρ : Window) (y y' : Expr), seen v y = seen v' y' → ρ.token = τ.token →
          ρ.weight = τ.weight → Lockstep v v' ρ
            (do
              if op ≠ .set && !Parse.isSimpleTarget x then Parse.fail .invalidTarget
              Parse.advance
              let right ← r.assign
              return Expr.assign (← Parse.markFrom p) op y right)
            (do
              if op ≠ .set && !Parse.isSimpleTarget x' then Parse.fail .invalidTarget
              Parse.advance
              let right ← r'.assign
              return Expr.assign (← Parse.markFrom p') op y' right) fun _ => Moved σ := by
        intro ρ y y' hy hρ hw
        rw [isSimpleTarget_eq hx]
        apply ite
        · intro _
          apply failThen _ rfl
          intro π hπ hw' _
          exact hrest π y y' hy (hπ.trans hρ) (hw'.trans hw)
        · intro _
          exact hrest ρ y y' hy hρ hw
      apply ite
      · intro _
        apply toPatternThen hx
        intro y y' ρ hy hρ hw _
        exact hchecked ρ y y' hy hρ hw
      · intro _
        simp only [pure_bind]
        exact hchecked τ x x' hx rfl rfl

theorem sequenceStep (hin : σ.weight < n ∨ σ.calm = 0)
    {es es' : List Expr} (hes : seen v es = seen v' es') :
    Lockstep v v' σ (Parse.sequenceStep r es) (Parse.sequenceStep r' es') (Lowers σ) := by
  apply failedThen
  · intro _
    exact finish hes
  · intro hcalm
    apply acceptThen (by decide)
    · intro τ _ _
      apply bind (hr.assign τ (by omega))
      intro x x' ρ hx _ _ _
      exact again (by simp [hes, hx]) (by omega)
    · exact finish hes

theorem expression (hσ : σ.weight ≤ n) :
    Lockstep v v' σ (Parse.expression r) (Parse.expression r') fun _ => Moved σ := by
  apply start
  intro p p' hp
  apply bind (assign hr hσ)
  intro x x' τ hx _ _ hτ
  apply checkThen
  · intro _
    apply bind (loop hr (by omega) (by omega) (by simp [hx]) fun _ _ _ hes _ _ =>
      sequenceStep hr (by omega) hes)
    intro es es' ρ hes _ _ _
    exact marked hp (fun m m' hm => by simp [hm, hes]) (by omega)
  · intro _
    exact pure hx hτ

end Expressions
end Lockstep
end Parse
end LabelHooks
