import LabelHooks.Proofs.LockstepRules

/-!
Statements and whole source files in lockstep, one lemma for each rule. The rules that are used for
a text suffice for it, whatever the text is.
-/

namespace LabelHooks
set_option autoImplicit true

open Token (Kind)
open Seen (seen)

namespace Parse
namespace Lockstep

variable {v v' : Int → Int} {n : Nat} {r r' : Rules} {σ : Window}

theorem some_map [Seen α] {x x' : Parse α} (h : Lockstep v v' σ x x' Q) :
    Lockstep v v' σ (some <$> x) (some <$> x') fun _ _ _ => True := by
  rw [map_eq_pure_bind, map_eq_pure_bind]
  apply bind h
  intro a a' τ ha _ _ _
  exact pure (by simp [ha]) trivial

theorem optionThen [Seen α] [Seen β] {c : Prop} [Decidable c] {x x' : Parse α}
    {f f' : Option α → Parse β} (hx : c → Lockstep v v' σ x x' P)
    (hf : ∀ (τ : Window) (a a' : Option α), seen v a = seen v' a' → τ.weight ≤ σ.weight →
      τ.calm ≤ σ.calm → Lockstep v v' τ (f a) (f' a') Q) :
    Lockstep v v' σ (if c then some <$> x >>= f else Pure.pure none >>= f)
      (if c then some <$> x' >>= f' else Pure.pure none >>= f') Q := by
  apply ite
  · intro hc
    apply bind (some_map (hx hc))
    intro a a' τ ha hw hcalm _
    exact hf τ a a' ha hw hcalm
  · intro _
    simp only [pure_bind]
    exact hf σ none none rfl (Nat.le_refl _) (Nat.le_refl _)

variable (hr : InStep v v' n r r')

section Statements

theorem atAsyncFunction :
    Lockstep v v' σ Parse.atAsyncFunction Parse.atAsyncFunction fun _ _ _ => True := by
  apply checkWord
  intro b _
  apply checkPeek
  intro b₁
  apply peek
  intro k u p p' b₂
  exact pure rfl trivial

theorem optional (stop : Kind) (h : Lockstep v v' σ x x' P) :
    Lockstep v v' σ (Parse.optional stop x) (Parse.optional stop x') fun _ _ _ => True := by
  apply checkThen
  · intro _
    exact pure rfl trivial
  · intro _
    apply bind h
    intro a a' τ ha _ _ _
    exact pure (by simp [ha]) trivial

theorem atInOrOf : Lockstep v v' σ Parse.atInOrOf Parse.atInOrOf fun _ _ _ => True := by
  apply check
  apply checkWord
  intro b _
  exact pure rfl trivial

theorem seen_missingStmt (hp : p.seen v = p'.seen v') :
    seen v (Parse.missingStmt p) = seen v' (Parse.missingStmt p') := by
  simp [Parse.missingStmt, Span.point, hp]

theorem single_cases {d d' : VarDecl} (hd : seen v d = seen v' d') :
    (∃ m k l x m' l' x', d = .mk m k [.mk l x none] ∧ d' = .mk m' k [.mk l' x' none]) ∨
      ((∀ m k l x, d ≠ .mk m k [.mk l x none]) ∧ ∀ m k l x, d' ≠ .mk m k [.mk l x none]) := by
  obtain ⟨m, k, ds⟩ := d
  obtain ⟨m', k', ds'⟩ := d'
  simp only [VarDecl.seen_mk, VarDecl.mk.injEq] at hd
  obtain ⟨_, rfl, hds⟩ := hd
  match ds, ds', hds with
  | [], [], _ => simp
  | [.mk l x y], [.mk l' x' y'], hds =>
    simp only [seen_cons, seen_nil, List.cons.injEq, and_true, Declarator.seen_mk,
      Declarator.mk.injEq] at hds
    match y, y', hds.2.2 with
    | none, none, _ => exact .inl ⟨m, k, l, x, m', l', x', rfl, rfl⟩
    | some y, some y', _ => simp
  | [_], _ :: _ :: _, hds | _ :: _ :: _, [_], hds => simp at hds
  | _ :: _ :: _, _ :: _ :: _, _ => simp

theorem atCaseEnd : Lockstep v v' σ Parse.atCaseEnd Parse.atCaseEnd
    fun b w c => w = σ.weight ∧ c = σ.calm ∧ (b = false → c = 1) := by
  apply token
  intro k u p p' b _ _ _ _
  apply failed
  refine pure rfl ⟨rfl, rfl, ?_⟩
  intro h
  simp only [Bool.or_eq_false_iff, decide_eq_false_iff_not] at h
  have := σ.calm_le
  omega

theorem branch (isBreak : Bool) (hk : σ.token.kind ≠ .eof) :
    Lockstep v v' σ (Parse.branch isBreak) (Parse.branch isBreak) fun _ => Moved σ := by
  apply start
  intro p p' hp
  apply bind advance
  intro _ _ τ _ _ _ hτ
  have hlt := hτ.2 hk
  apply check
  apply token
  intro k u q q' b _ _ _ _
  apply optionThen fun _ => ident
  intro ρ i i' hi _ _
  apply bind semicolon
  intro _ _ π _ _ _ _
  exact marked hp (fun m m' hm => by simp [hm, hi]) (by omega)

include hr

theorem parenExpr (hσ : σ.weight ≤ n) :
    Lockstep v v' σ (Parse.parenExpr r) (Parse.parenExpr r') fun _ => Moved σ := by
  apply bind (expect (by decide))
  intro _ _ τ _ _ _ hτ
  apply bind (withNoIn_moved false fun ρ _ _ _ => expression hr (by omega))
  intro x x' ρ hx _ _ _
  apply bind (expect (by decide))
  intro _ _ π _ _ _ _
  exact pure hx (by omega)

theorem declaratorStep (hσ : σ.weight ≤ n) (noIn : Bool)
    {ds ds' : List Declarator} (hds : seen v ds = seen v' ds') :
    Lockstep v v' σ (Parse.declaratorStep r noIn ds) (Parse.declaratorStep r' noIn ds')
      (Lowers σ) := by
  apply start
  intro p p' hp
  apply bind (bindingTarget hr hσ)
  intro x x' τ hx _ _ _
  -- Another declarator follows a comma.
  have hrest : ∀ (ρ : Window) (y y' : Option Expr), seen v y = seen v' y' → ρ.weight ≤ σ.weight →
      ρ.calm ≤ σ.calm → Lockstep v v' ρ
        (do
          let decls := ds ++ [.mk (← Parse.markFrom p) x y]
          if ← Parse.failed then return .inr decls
          if ← Parse.accept .comma then return .inl decls
          return .inr decls)
        (do
          let decls := ds' ++ [.mk (← Parse.markFrom p') x' y']
          if ← Parse.failed then return .inr decls
          if ← Parse.accept .comma then return .inl decls
          return .inr decls) (Lowers (α := List Declarator) (β := List Declarator) σ) := by
    intro ρ y y' hy _ _
    apply markFrom hp
    intro m m' hm
    have hdecls : seen v (ds ++ [.mk m x y]) = seen v' (ds' ++ [.mk m' x' y']) := by
      simp [hds, hm, hx, hy]
    apply failedThen
    · intro _
      exact finish hdecls
    · intro _
      apply acceptThen (by decide)
      · intro π _ _
        exact again hdecls (by omega)
      · exact finish hdecls
  apply acceptThen (by decide)
  · intro ρ _ _
    apply bind (some_map (withNoIn_moved noIn fun π _ _ _ => assign hr (by omega)))
    intro y y' π hy _ _ _
    exact hrest π y y' hy (by omega) (by omega)
  · simp only [pure_bind]
    exact hrest τ none none rfl (by omega) (by omega)

theorem varDecl (hσ : σ.weight ≤ n) (hk : σ.token.kind ≠ .eof) (kind : DeclKind) (noIn : Bool) :
    Lockstep v v' σ (Parse.varDecl r kind noIn) (Parse.varDecl r' kind noIn)
      fun _ => Moved σ := by
  apply start
  intro p p' hp
  apply bind advance
  intro _ _ τ _ _ _ hτ
  have hlt := hτ.2 hk
  apply bind (loop hr (by omega) (.inl (by omega)) rfl fun _ _ _ hds _ _ =>
    declaratorStep hr (by omega) noIn hds)
  intro ds ds' ρ hds _ _ _
  exact marked hp (fun m m' hm => by simp [hm, hds]) (by omega)

theorem varDeclStmt (hσ : σ.weight ≤ n) (hk : σ.token.kind ≠ .eof) (kind : DeclKind) :
    Lockstep v v' σ (Parse.varDeclStmt r kind) (Parse.varDeclStmt r' kind) fun _ => Moved σ := by
  apply start
  intro p p' hp
  apply bind (varDecl hr hσ hk kind false)
  intro d d' τ hd _ _ hτ
  apply bind semicolon
  intro _ _ ρ _ _ _ _
  exact marked hp (fun m m' hm => by simp [VarDecl.seen_withMark hd hm]) (by omega)

theorem funcDecl (hσ : σ.weight ≤ n) (isAsync : Bool) :
    Lockstep v v' σ (Parse.funcDecl r isAsync) (Parse.funcDecl r' isAsync) fun _ => Moved σ := by
  apply start
  intro p p' hp
  apply bind (function hr hσ isAsync true)
  intro f f' τ hf _ _ hτ
  exact marked hp (fun m m' hm => by simp [hm, hf]) hτ

theorem ifStmt (hσ : σ.weight ≤ n) (hk : σ.token.kind = .ifKw) :
    Lockstep v v' σ (Parse.ifStmt r) (Parse.ifStmt r') fun _ => Moved σ := by
  apply start
  intro p p' hp
  apply bind advance
  intro _ _ τ _ _ _ hτ
  have hlt := hτ.2 (by simp [hk])
  apply bind (parenExpr hr (by omega))
  intro x x' ρ hx _ _ _
  apply bind (hr.statement ρ (by omega))
  intro s s' π hs _ _ _
  apply acceptThen (by decide)
  · intro κ _ _
    apply bind (some_map (hr.statement κ (by omega)))
    intro t t' κ₁ ht _ _ _
    exact marked hp (fun m m' hm => by simp [hm, hx, hs, ht]) (by omega)
  · simp only [pure_bind]
    exact marked hp (fun m m' hm => by simp [hm, hx, hs]) (by omega)

theorem forInRest (hσ : σ.weight < n) (hp : p.seen v = p'.seen v') (hh : seen v h = seen v' h')
    (isAwait : Bool) :
    Lockstep v v' σ (Parse.forInRest r p h isAwait) (Parse.forInRest r' p' h' isAwait)
      fun _ _ _ => True := by
  apply checkWord
  intro isOf _
  apply bind advance
  intro _ _ τ _ _ _ _
  have hrest : ∀ (ρ : Window) (x x' : Expr), seen v x = seen v' x' → ρ.weight ≤ τ.weight →
      Lockstep v v' ρ
        (do
          Parse.expect .rparen
          let body ← r.statement
          return Stmt.forIn (← Parse.markFrom p) h x body isOf isAwait)
        (do
          Parse.expect .rparen
          let body ← r'.statement
          return Stmt.forIn (← Parse.markFrom p') h' x' body isOf isAwait) fun _ _ _ => True := by
    intro ρ x x' hx _
    apply bind (expect (by decide))
    intro _ _ π _ _ _ _
    apply bind (hr.statement π (by omega))
    intro s s' κ hs _ _ _
    exact marked hp (fun m m' hm => by simp [hm, hh, hx, hs]) trivial
  apply ite
  · intro _
    apply bind (assign hr (by omega))
    intro x x' ρ hx hw _ _
    exact hrest ρ x x' hx hw
  · intro _
    apply bind (expression hr (by omega))
    intro x x' ρ hx hw _ _
    exact hrest ρ x x' hx hw

theorem forRest (hσ : σ.weight < n) (hp : p.seen v = p'.seen v') (hh : seen v h = seen v' h') :
    Lockstep v v' σ (Parse.forRest r p h) (Parse.forRest r' p' h') fun _ _ _ => True := by
  apply bind (expect (by decide))
  intro _ _ τ _ _ _ _
  apply bind (optional _ (expression hr (by omega)))
  intro x x' ρ hx _ _ _
  apply bind (expect (by decide))
  intro _ _ π _ _ _ _
  apply bind (optional _ (expression hr (by omega)))
  intro y y' κ hy _ _ _
  apply bind (expect (by decide))
  intro _ _ κ₁ _ _ _ _
  apply bind (hr.statement κ₁ (by omega))
  intro s s' κ₂ hs _ _ _
  exact marked hp (fun m m' hm => by simp [hm, hh, hx, hy, hs]) trivial

theorem forStmt (hσ : σ.weight ≤ n) (hk : σ.token.kind = .forKw) :
    Lockstep v v' σ (Parse.forStmt r) (Parse.forStmt r') fun _ => Moved σ := by
  apply start
  intro p p' hp
  apply bind advance
  intro _ _ τ _ _ _ hτ
  have hlt := hτ.2 (by simp [hk])
  apply bind (accept (by decide))
  rintro isAwait _ ρ rfl _ _ _
  apply bind (expect (by decide))
  intro _ _ π _ _ _ _
  apply token
  intro k u q q' b _ hπ _ _
  dsimp only
  cases hkind : Parse.declKind? k with
  | some kind =>
    have hne : π.token.kind ≠ .eof := by
      rw [hπ]
      rintro rfl
      cases hkind
    apply bind (varDecl hr (by omega) hne kind true)
    intro d d' κ hd _ _ _
    apply bind atInOrOf
    rintro b _ κ₁ rfl _ _ _
    apply ite
    · intro _
      rcases single_cases hd with ⟨m, k, l, x, m', l', x', rfl, rfl⟩ | ⟨hne, hne'⟩
      · have hhead : seen v (ForHead.decl (.mk m k [.mk l x none])) =
            seen v' (ForHead.decl (.mk m' k [.mk l' x' none])) := by simp [hd]
        have hrest := forInRest hr (σ := κ₁) (by omega) hp hhead isAwait
        exact hrest.imp fun _ _ _ _ _ _ => by omega
      · have hfail : Lockstep v v' κ₁
            (do
              Parse.fail .loopDeclaration
              return Parse.missingStmt p)
            (do
              Parse.fail .loopDeclaration
              return Parse.missingStmt p') fun _ => Moved σ := by
          apply bind (fail _ rfl)
          intro _ _ κ₂ _ _ _ _
          exact pure (seen_missingStmt hp) (by omega)
        split
        · exact absurd rfl (hne _ _ _ _)
        · exact hfail
    · intro _
      exact (forRest hr (by omega) hp (by simp [hd])).imp fun _ _ _ _ _ _ => by omega
  | none =>
    apply ite
    · intro _
      exact (forRest hr (by omega) hp rfl).imp fun _ _ _ _ _ _ => by omega
    · intro _
      apply bind (withNoIn_moved true fun κ _ _ _ => expression hr (by omega))
      intro x x' κ hx _ _ _
      apply bind atInOrOf
      rintro b _ κ₁ rfl _ _ _
      apply ite
      · intro _
        apply toPatternThen hx
        intro y y' κ₂ hy _ _ _
        have hhead : seen v (ForHead.expr y) = seen v' (ForHead.expr y') := by simp [hy]
        have hrest := forInRest hr (σ := κ₂) (by omega) hp hhead isAwait
        exact hrest.imp fun _ _ _ _ _ _ => by omega
      · intro _
        exact (forRest hr (by omega) hp (by simp [hx])).imp fun _ _ _ _ _ _ => by omega

theorem catchClause (hσ : σ.weight ≤ n) :
    Lockstep v v' σ (Parse.catchClause r) (Parse.catchClause r') fun _ _ _ => True := by
  apply start
  intro p p' hp
  apply bind advance
  intro _ _ τ _ _ _ _
  apply acceptThen (by decide)
  · intro ρ _ _
    apply bind (bindingTarget hr (by omega))
    intro x x' π hx _ _ _
    apply bind (expect (by decide))
    intro _ _ κ _ _ _ _
    apply bind (block hr (by omega))
    intro b b' κ₁ hb _ _ _
    exact marked hp (fun m m' hm => by simp [hm, hx, hb]) trivial
  · apply bind (block hr (by omega))
    intro b b' ρ hb _ _ _
    exact marked hp (fun m m' hm => by simp [hm, hb]) trivial

theorem tryStmt (hσ : σ.weight ≤ n) (hk : σ.token.kind = .tryKw) :
    Lockstep v v' σ (Parse.tryStmt r) (Parse.tryStmt r') fun _ => Moved σ := by
  apply start
  intro p p' hp
  apply bind advance
  intro _ _ τ _ _ _ hτ
  have hlt := hτ.2 (by simp [hk])
  apply bind (block hr (by omega))
  intro b b' ρ hb _ _ _
  apply check
  apply optionThen fun _ => catchClause hr (by omega)
  intro π c c' hc _ _
  have hrest : ∀ (κ : Window) (d d' : Option Block), seen v d = seen v' d' →
      κ.weight ≤ τ.weight → Lockstep v v' κ
        (do
          if c.isNone && d.isNone then Parse.failExpecting Kind.catchKw.text
          return Stmt.tryCatch (← Parse.markFrom p) b c d)
        (do
          if c'.isNone && d'.isNone then Parse.failExpecting Kind.catchKw.text
          return Stmt.tryCatch (← Parse.markFrom p') b' c' d') fun _ => Moved σ := by
    intro κ d d' hd _
    have hnone : (c'.isNone && d'.isNone) = (c.isNone && d.isNone) := by
      cases c <;> cases c' <;> cases d <;> cases d' <;> simp_all
    rw [hnone]
    apply maybe fun _ => failExpecting _
    intro κ₁ _ _
    exact marked hp (fun m m' hm => by simp [hm, hb, hc, hd]) (by omega)
  apply acceptThen (by decide)
  · intro κ _ _
    apply bind (some_map (block hr (by omega)))
    intro d d' κ₁ hd _ _ _
    exact hrest κ₁ d d' hd (by omega)
  · simp only [pure_bind]
    exact hrest π none none rfl (by omega)

theorem caseBodyStep (hin : σ.weight < n ∨ σ.calm = 0) (hss : seen v ss = seen v' ss') :
    Lockstep v v' σ (Parse.caseBodyStep r ss) (Parse.caseBodyStep r' ss') (Lowers σ) := by
  apply bind atCaseEnd
  rintro b _ τ rfl _ _ ⟨_, _, hτ⟩
  cases b with
  | true => exact finish hss
  | false =>
    have := hτ rfl
    apply bind (hr.statement τ (by omega))
    intro s s' ρ hs _ _ _
    exact again (by simp [hss, hs]) (by omega)

theorem caseStep (hσ : σ.weight ≤ n) {cs cs' : List Case} (hcs : seen v cs = seen v' cs') :
    Lockstep v v' σ (Parse.caseStep r cs) (Parse.caseStep r' cs') (Lowers σ) := by
  apply check
  apply check
  apply failed
  apply ite
  · intro _
    exact finish hcs
  · intro h
    simp only [Bool.or_eq_true, decide_eq_true_eq, not_or] at h
    apply start
    intro p p' hp
    have hrest : ∀ (τ : Window) (x x' : Option Expr), seen v x = seen v' x' →
        τ.weight ≤ σ.weight → τ.calm ≤ σ.calm → τ.weight < σ.weight ∨ τ.calm = 0 →
        Lockstep v v' τ
          (do
            Parse.expect .colon
            let body ← Parse.iterate (Parse.caseBodyStep r) r.rounds []
            return .inl (cs ++ [.mk (← Parse.markFrom p) x body]))
          (do
            Parse.expect .colon
            let body ← Parse.iterate (Parse.caseBodyStep r') r'.rounds []
            return .inl (cs' ++ [.mk (← Parse.markFrom p') x' body]))
          (Lowers (α := List Case) (β := List Case) σ) := by
      intro τ x x' hx _ _ _
      apply bind (expect (by decide))
      intro _ _ ρ _ _ _ _
      apply bind (loop hr (by omega) (by omega) rfl fun _ _ _ hss _ _ =>
        caseBodyStep hr (by omega) hss)
      intro ss ss' π hss _ _ _
      apply markFrom hp
      intro m m' hm
      exact again (by simp [hcs, hm, hx, hss]) (by omega)
    apply acceptThen (by decide)
    · intro τ _ _
      apply bind (some_map (expression hr (by omega)))
      intro x x' ρ hx _ _ _
      exact hrest ρ x x' hx (by omega) (by omega) (by omega)
    · simp only [pure_bind]
      apply bind (expect (by decide))
      intro _ _ τ _ _ _ hτ
      exact hrest τ none none rfl (by omega) (by omega) hτ

theorem switchStmt (hσ : σ.weight ≤ n) (hk : σ.token.kind = .switchKw) :
    Lockstep v v' σ (Parse.switchStmt r) (Parse.switchStmt r') fun _ => Moved σ := by
  apply start
  intro p p' hp
  apply bind advance
  intro _ _ τ _ _ _ hτ
  have hlt := hτ.2 (by simp [hk])
  apply bind (parenExpr hr (by omega))
  intro x x' ρ hx _ _ _
  apply bind (expect (by decide))
  intro _ _ π _ _ _ _
  apply bind (loop hr (by omega) (by omega) rfl fun _ _ _ hcs _ _ =>
    caseStep hr (by omega) hcs)
  intro cs cs' κ hcs _ _ _
  apply bind (expect (by decide))
  intro _ _ κ₁ _ _ _ _
  exact marked hp (fun m m' hm => by simp [hm, hx, hcs]) (by omega)

theorem labeled (hσ : σ.weight ≤ n) (hk : σ.token.kind = .ident) :
    Lockstep v v' σ (Parse.labeled r) (Parse.labeled r') fun _ => Moved σ := by
  apply start
  intro p p' hp
  apply bind ident
  intro i i' τ hi _ _ hτ
  have hlt := hτ.1 hk
  apply bind (expect (by decide))
  intro _ _ ρ _ _ _ _
  apply bind (hr.statement ρ (by omega))
  intro s s' π hs _ _ _
  exact marked hp (fun m m' hm => by simp [hm, hi, hs]) (by omega)

theorem whileStmt (hσ : σ.weight ≤ n) (hk : σ.token.kind = .whileKw) :
    Lockstep v v' σ (Parse.whileStmt r) (Parse.whileStmt r') fun _ => Moved σ := by
  apply start
  intro p p' hp
  apply bind advance
  intro _ _ τ _ _ _ hτ
  have hlt := hτ.2 (by simp [hk])
  apply bind (parenExpr hr (by omega))
  intro x x' ρ hx _ _ _
  apply bind (hr.statement ρ (by omega))
  intro s s' π hs _ _ _
  exact marked hp (fun m m' hm => by simp [hm, hx, hs]) (by omega)

theorem doStmt (hσ : σ.weight ≤ n) (hk : σ.token.kind = .doKw) :
    Lockstep v v' σ (Parse.doStmt r) (Parse.doStmt r') fun _ => Moved σ := by
  apply start
  intro p p' hp
  apply bind advance
  intro _ _ τ _ _ _ hτ
  have hlt := hτ.2 (by simp [hk])
  apply bind (hr.statement τ (by omega))
  intro s s' ρ hs _ _ _
  apply bind (expect (by decide))
  intro _ _ π _ _ _ _
  apply bind (parenExpr hr (by omega))
  intro x x' κ hx _ _ _
  apply bind (accept (by decide))
  intro _ _ κ₁ _ _ _ _
  exact marked hp (fun m m' hm => by simp [hm, hx, hs]) (by omega)

theorem returnStmt (hσ : σ.weight ≤ n) (hk : σ.token.kind = .returnKw) :
    Lockstep v v' σ (Parse.returnStmt r) (Parse.returnStmt r') fun _ => Moved σ := by
  apply start
  intro p p' hp
  apply bind advance
  intro _ _ τ _ _ _ hτ
  have hlt := hτ.2 (by simp [hk])
  apply bind atStatementEnd
  rintro b _ ρ rfl _ _ _
  have hrest : ∀ (π : Window) (x x' : Option Expr), seen v x = seen v' x' →
      π.weight ≤ τ.weight → Lockstep v v' π
        (do
          Parse.semicolon
          return Stmt.ret (← Parse.markFrom p) x)
        (do
          Parse.semicolon
          return Stmt.ret (← Parse.markFrom p') x') fun _ => Moved σ := by
    intro π x x' hx _
    apply bind semicolon
    intro _ _ κ _ _ _ _
    exact marked hp (fun m m' hm => by simp [hm, hx]) (by omega)
  apply ite
  · intro _
    simp only [pure_bind]
    exact hrest ρ none none rfl (by omega)
  · intro _
    apply bind (some_map (expression hr (by omega)))
    intro x x' π hx _ _ _
    exact hrest π x x' hx (by omega)

theorem throwStmt (hσ : σ.weight ≤ n) (hk : σ.token.kind = .throwKw) :
    Lockstep v v' σ (Parse.throwStmt r) (Parse.throwStmt r') fun _ => Moved σ := by
  apply start
  intro p p' hp
  apply bind advance
  intro _ _ τ _ _ _ hτ
  have hlt := hτ.2 (by simp [hk])
  apply bind (expression hr (by omega))
  intro x x' ρ hx _ _ _
  apply bind semicolon
  intro _ _ π _ _ _ _
  exact marked hp (fun m m' hm => by simp [hm, hx]) (by omega)

theorem exprStmt (hσ : σ.weight ≤ n) :
    Lockstep v v' σ (Parse.exprStmt r) (Parse.exprStmt r') fun _ => Moved σ := by
  apply start
  intro p p' hp
  apply bind (expression hr hσ)
  intro x x' τ hx _ _ hτ
  apply bind semicolon
  intro _ _ ρ _ _ _ _
  exact marked hp (fun m m' hm => by simp [hm, hx]) (by omega)

theorem plainStatement (hσ : σ.weight ≤ n) :
    Lockstep v v' σ (Parse.plainStatement r) (Parse.plainStatement r') fun _ => Moved σ := by
  apply start
  intro p p' hp
  apply token
  intro k u q q' b _ hσ' _ _
  have hkind : σ.token.kind = k := by rw [hσ']
  dsimp only
  split
  · apply bind (block hr hσ)
    intro b b' τ hb _ _ hτ
    exact pure (by simp [hb]) hτ
  · exact varDeclStmt hr hσ (by simp [hkind]) _
  · exact varDeclStmt hr hσ (by simp [hkind]) _
  · exact varDeclStmt hr hσ (by simp [hkind]) _
  · exact funcDecl hr hσ false
  · exact ifStmt hr hσ hkind
  · exact forStmt hr hσ hkind
  · exact whileStmt hr hσ hkind
  · exact doStmt hr hσ hkind
  · exact returnStmt hr hσ hkind
  · exact branch true (by simp [hkind])
  · exact branch false (by simp [hkind])
  · exact throwStmt hr hσ hkind
  · exact tryStmt hr hσ hkind
  · exact switchStmt hr hσ hkind
  · apply bind advance
    intro _ _ τ _ _ _ hτ
    exact marked hp (fun m m' hm => by simp [hm]) (.inl (hτ.2 (by simp [hkind])))
  · apply bind advance
    intro _ _ τ _ _ _ hτ
    have hlt := hτ.2 (by simp [hkind])
    apply bind semicolon
    intro _ _ ρ _ _ _ _
    exact marked hp (fun m m' hm => by simp [hm]) (by omega)
  · apply bind (fail _ rfl)
    intro _ _ τ _ _ _ hτ
    exact pure (seen_missingStmt hp) (.inr hτ)
  · apply checkPeek
    intro colon
    apply ite
    · intro _
      exact labeled hr hσ hkind
    · intro _
      apply bind atAsyncFunction
      rintro b _ τ rfl _ _ _
      apply ite
      · intro _
        exact (funcDecl hr (by omega) true).imp fun _ _ _ _ _ h => by omega
      · intro _
        exact (exprStmt hr (by omega)).imp fun _ _ _ _ _ h => by omega
  · exact exprStmt hr hσ

end Statements

section Modules

theorem importRest (hp : p.seen v = p'.seen v') (hss : seen v ss = seen v' ss') :
    Lockstep v v' σ (Parse.importRest p ss) (Parse.importRest p' ss') fun _ _ _ => True := by
  apply bind (expectWord _)
  intro _ _ τ _ _ _ _
  apply bind stringLiteral
  intro l l' ρ hl _ _ _
  apply bind semicolon
  intro _ _ π _ _ _ _
  exact marked hp (fun m m' hm => by simp [hm, hss, hl]) trivial

theorem renamed (hi : seen v i = seen v' i') {x : Parse Ident}
    {P : Window → Ident → Nat → Nat → Prop} (hx : ∀ τ : Window, Lockstep v v' τ x x (P τ)) :
    Lockstep v v' σ (Parse.renamed i x) (Parse.renamed i' x) fun _ _ _ => True := by
  apply checkWord
  intro b _
  apply ite
  · intro _
    apply bind advance
    intro _ _ τ _ _ _ _
    exact (hx τ).imp fun _ _ _ _ _ _ => trivial
  · intro _
    exact pure (by simp [hi]) trivial

theorem importSpecStep (hss : seen v ss = seen v' ss') :
    Lockstep v v' σ (Parse.importSpecStep ss) (Parse.importSpecStep ss') (Lowers σ) := by
  apply stopped
  · exact finish hss
  · intro _ _
    apply start
    intro p p' hp
    apply bind identName
    intro i i' τ hi _ _ _
    apply bind (renamed hi fun _ => ident)
    intro j j' ρ hj _ _ _
    apply markFrom hp
    intro m m' hm
    have hspecs : seen v (ss ++ [.named m i j]) = seen v' (ss' ++ [.named m' i' j']) := by
      simp [hss, hm, hi, hj]
    apply acceptThen (by decide)
    · intro π _ _
      exact again hspecs (by omega)
    · exact finish hspecs

theorem name?_isSome {f f' : Func} (h : seen v f = seen v' f') :
    f.name?.isSome = f'.name?.isSome := by
  cases f with
  | mk _ name? =>
    cases f' with
    | mk _ name?' =>
      simp only [Func.seen_mk, Func.mk.injEq] at h
      have hname := congrArg Option.isSome h.2.1
      exact Option.isSome_map.symm.trans (hname.trans Option.isSome_map)

theorem afterWord [Seen α] [Seen β] (word : Text) {x : Parse α} {f f' : Option α → Parse β}
    {P : Window → α → Nat → Nat → Prop} {Q : β → Nat → Nat → Prop}
    (hx : ∀ τ : Window, Lockstep v v' τ x x (P τ))
    (hf : ∀ (τ : Window) (a a' : Option α), seen v a = seen v' a' →
      Lockstep v v' τ (f a) (f' a') Q) :
    Lockstep v v' σ
      (do
        let a ← if ← Parse.checkWord word then do
          Parse.advance
          some <$> x
        else Pure.pure none
        f a)
      (do
        let a ← if ← Parse.checkWord word then do
          Parse.advance
          some <$> x
        else Pure.pure none
        f' a) Q := by
  apply checkWord
  intro b _
  apply ite
  · intro _
    apply bind advance
    intro _ _ τ _ _ _ _
    apply bind (some_map (hx τ))
    intro a a' ρ ha _ _ _
    exact hf ρ a a' ha
  · intro _
    exact hf σ none none rfl

theorem exportAll {p p' : Position} (hp : p.seen v = p'.seen v') :
    Lockstep v v' σ (Parse.exportAll p) (Parse.exportAll p') fun _ _ _ => True := by
  apply afterWord _ fun _ => identName
  intro τ i i' hi
  apply bind (expectWord _)
  intro _ _ ρ _ _ _ _
  apply bind stringLiteral
  intro l l' π hl _ _ _
  apply bind semicolon
  intro _ _ κ _ _ _ _
  exact marked hp (fun m m' hm => by simp [hm, hi, hl]) trivial

theorem exportSpecStep (hss : seen v ss = seen v' ss') :
    Lockstep v v' σ (Parse.exportSpecStep ss) (Parse.exportSpecStep ss') (Lowers σ) := by
  apply stopped
  · exact finish hss
  · intro _ _
    apply start
    intro p p' hp
    apply bind identName
    intro i i' τ hi _ _ _
    apply bind (renamed hi fun _ => identName)
    intro j j' ρ hj _ _ _
    apply markFrom hp
    intro m m' hm
    have hspecs : seen v (ss ++ [⟨m, i, j⟩]) = seen v' (ss' ++ [⟨m', i', j'⟩]) := by
      simp [hss, hm, hi, hj]
    apply acceptThen (by decide)
    · intro π _ _
      exact again hspecs (by omega)
    · exact finish hspecs

include hr

theorem importSpecs (hσ : σ.weight ≤ n) (hss : seen v ss = seen v' ss') :
    Lockstep v v' σ (Parse.importSpecs r ss) (Parse.importSpecs r' ss') fun _ _ _ => True := by
  apply token
  intro k u p p' b hp hσ' _ _
  dsimp only
  split
  · apply bind advance
    intro _ _ τ _ _ _ _
    apply bind (expectWord _)
    intro _ _ ρ _ _ _ _
    apply bind ident
    intro i i' π hi _ _ _
    exact marked hp (fun m m' hm => by simp [hss, hm, hi]) trivial
  · apply bind advance
    intro _ _ τ _ _ _ hτ
    have hlt := hτ.2 (by simp [hσ'])
    apply bind (loop hr (by omega) (by omega) hss fun _ _ _ hss _ _ => importSpecStep hss)
    intro ts ts' ρ hts _ _ _
    apply bind (expect (by decide))
    intro _ _ π _ _ _ _
    exact pure hts trivial
  · apply bind (failExpecting _)
    intro _ _ τ _ _ _ _
    exact pure hss trivial

theorem importStmt (hσ : σ.weight ≤ n) (hk : σ.token.kind = .importKw) :
    Lockstep v v' σ (Parse.importStmt r) (Parse.importStmt r') fun _ => Moved σ := by
  apply start
  intro p p' hp
  apply bind advance
  intro _ _ τ _ _ _ hτ
  have hlt := hτ.2 (by simp [hk])
  have hrest : ∀ (ρ : Window) {ss ss' : List ImportSpec}, ρ.weight ≤ τ.weight →
      seen v ss = seen v' ss' →
      Lockstep v v' ρ (Parse.importRest p ss) (Parse.importRest p' ss') fun _ => Moved σ := by
    intro ρ ss ss' _ hss
    exact (importRest hp hss).imp fun _ _ _ _ _ _ => by omega
  apply checkThen
  · intro _
    apply bind stringLiteral
    intro l l' ρ hl _ _ _
    apply bind semicolon
    intro _ _ π _ _ _ _
    exact marked hp (fun m m' hm => by simp [hm, hl]) (by omega)
  · intro _
    apply checkThen
    · intro _
      apply start
      intro q q' hq
      apply bind ident
      intro i i' ρ hi _ _ _
      apply markFrom hq
      intro m m' hm
      have hfirst : seen v [ImportSpec.default m i] = seen v' [ImportSpec.default m' i'] := by
        simp [hm, hi]
      apply acceptThen (by decide)
      · intro π _ _
        apply bind (importSpecs hr (by omega) hfirst)
        intro ss ss' κ hss _ _ _
        exact hrest κ (by omega) hss
      · exact hrest ρ (by omega) hfirst
    · intro _
      apply bind (importSpecs hr (by omega) rfl)
      intro ss ss' κ hss _ _ _
      exact hrest κ (by omega) hss

theorem exportDefault (hσ : σ.weight ≤ n) {p p' : Position} (hp : p.seen v = p'.seen v') :
    Lockstep v v' σ (Parse.exportDefault r p) (Parse.exportDefault r' p') fun _ _ _ => True := by
  apply bind atAsyncFunction
  rintro isAsync _ τ rfl _ _ _
  apply check
  apply ite
  · intro _
    apply start
    intro q q' hq
    apply bind (function hr (by omega) isAsync false)
    intro f f' ρ hf _ _ _
    rw [name?_isSome hf]
    apply ite
    · intro _
      apply markFrom hq
      intro m m' hm
      apply markFrom hp
      intro l l' hl
      exact pure (by simp [hm, hl, hf]) trivial
    · intro _
      apply markFrom hq
      intro m m' hm
      apply markFrom hp
      intro l l' hl
      exact pure (by simp [hm, hl, hf]) trivial
  · intro _
    apply bind (assign hr (by omega))
    intro x x' ρ hx _ _ _
    apply bind semicolon
    intro _ _ π _ _ _ _
    exact marked hp (fun m m' hm => by simp [hm, hx]) trivial

theorem exportNames (hσ : σ.weight < n) {p p' : Position} (hp : p.seen v = p'.seen v') :
    Lockstep v v' σ (Parse.exportNames r p) (Parse.exportNames r' p') fun _ _ _ => True := by
  apply bind (loop hr (by omega) (by omega) rfl fun _ _ _ hss _ _ => exportSpecStep hss)
  intro ss ss' τ hss _ _ _
  apply bind (expect (by decide))
  intro _ _ ρ _ _ _ _
  apply afterWord _ fun _ => stringLiteral
  intro π l l' hl
  apply bind semicolon
  intro _ _ κ _ _ _ _
  exact marked hp (fun m m' hm => by simp [hm, hss, hl]) trivial

theorem exportStmt (hσ : σ.weight ≤ n) (hk : σ.token.kind = .exportKw) :
    Lockstep v v' σ (Parse.exportStmt r) (Parse.exportStmt r') fun _ => Moved σ := by
  apply start
  intro p p' hp
  apply bind advance
  intro _ _ τ _ _ _ hτ
  have hlt := hτ.2 (by simp [hk])
  have hdecl : ∀ (ρ : Window) {x x' : Parse Stmt}, ρ.weight ≤ τ.weight →
      (Lockstep v v' ρ x x' fun _ => Moved ρ) →
      Lockstep v v' ρ
        (do
          let d ← x
          return Stmt.exportDecl (← Parse.markFrom p) false d)
        (do
          let d ← x'
          return Stmt.exportDecl (← Parse.markFrom p') false d) fun _ => Moved σ := by
    intro ρ x x' _ hx
    apply bind hx
    intro d d' π hd _ _ _
    exact marked hp (fun m m' hm => by simp [hm, hd]) (by omega)
  apply acceptThen (by decide)
  · intro ρ _ _
    exact (exportDefault hr (by omega) hp).imp fun _ _ _ _ _ _ => by omega
  · apply token
    intro k u q q' b _ hσ' _ _
    dsimp only
    cases hkind : declKind? k with
    | some kind =>
      have hne : τ.token.kind ≠ .eof := by
        rw [hσ']
        rintro rfl
        cases hkind
      exact hdecl τ (by omega) (varDeclStmt hr (by omega) hne kind)
    | none =>
      apply checkThen
      · intro _
        exact hdecl τ (by omega) (funcDecl hr (by omega) false)
      · intro _
        apply checkWord
        intro b _
        apply checkPeek
        intro b'
        apply ite
        · intro _
          exact hdecl τ (by omega) (funcDecl hr (by omega) true)
        · intro _
          apply acceptThen (by decide)
          · intro ρ _ _
            exact (exportAll hp).imp fun _ _ _ _ _ _ => by omega
          · apply acceptThen (by decide)
            · intro ρ _ _
              exact (exportNames hr (by omega) hp).imp fun _ _ _ _ _ _ => by omega
            · apply checkThen
              · intro _
                apply bind (fail _ rfl)
                intro _ _ ρ _ _ _ _
                exact pure (seen_missingStmt hp) (by omega)
              · intro _
                apply bind (failExpecting _)
                intro _ _ ρ _ _ _ _
                exact pure (seen_missingStmt hp) (by omega)

theorem statement (hσ : σ.weight ≤ n) :
    Lockstep v v' σ (Parse.statement r) (Parse.statement r') fun _ => Moved σ := by
  apply token
  intro k u p p' b _ hσ' _ _
  have hkind : σ.token.kind = k := by rw [hσ']
  dsimp only
  split
  · apply checkPeek
    intro b
    apply checkPeek
    intro b'
    apply ite
    · intro _
      exact plainStatement hr hσ
    · intro _
      exact importStmt hr hσ hkind
  · exact exportStmt hr hσ hkind
  · exact plainStatement hr hσ

end Modules
end Lockstep

theorem InStep.rules {v v' : Int → Int} (hv : StrictMono v) (hv' : StrictMono v')
    {n d d' rounds rounds' : Nat} (hd : n ≤ d) (hd' : n ≤ d') (hrounds : n < rounds)
    (hrounds' : n < rounds') : InStep v v' n (rules rounds d) (rules rounds' d') := by
  have hvacuous : ∀ {σ : Window} {P : Prop}, σ.weight < 0 → P :=
    fun h => absurd h (Nat.not_lt_zero _)
  induction n generalizing d d' with
  | zero =>
    have hr : (Parse.rules rounds d).rounds = rounds := by cases d <;> rfl
    have hr' : (Parse.rules rounds' d').rounds = rounds' := by cases d' <;> rfl
    exact ⟨hv, hv', by omega, by omega, fun _ h => hvacuous h, fun _ h => hvacuous h,
      fun _ h => hvacuous h, fun _ _ h => hvacuous h, fun _ h => hvacuous h,
      fun _ h => hvacuous h, fun _ h => hvacuous h⟩
  | succ n ih =>
    obtain ⟨d, rfl⟩ : ∃ e, d = e + 1 := ⟨d - 1, by omega⟩
    obtain ⟨d', rfl⟩ : ∃ e, d' = e + 1 := ⟨d' - 1, by omega⟩
    have hr : InStep v v' n (Parse.rules rounds d) (Parse.rules rounds' d') :=
      ih (by omega) (by omega) (by omega) (by omega)
    exact
      { mono := hv
        mono' := hv'
        rounds := hrounds
        rounds' := hrounds'
        expression := fun _ h => Lockstep.expression hr (by omega)
        assign := fun _ h => Lockstep.assign hr (by omega)
        unary := fun _ h => Lockstep.unary hr (by omega)
        binary := fun least _ h => Lockstep.binary hr (by omega) least
        newExpr := fun _ h hk => Lockstep.newExpr hr (by omega) hk
        bindingTarget := fun _ h => Lockstep.bindingTarget hr (by omega)
        statement := fun _ h => Lockstep.statement hr (by omega) }

end Parse
end LabelHooks
