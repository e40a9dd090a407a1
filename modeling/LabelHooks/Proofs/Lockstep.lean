import LabelHooks.Grammar.Module
import LabelHooks.Proofs.Patterns
import LabelHooks.Proofs.Seeing

/-!
Two readings in lockstep. Readers that show the same tokens, each through its own view of the
offsets, go through the same steps: they crash alike or give results that look the same. The bound
on the steps is never met, since every round of a loop and every use of a rule inside another
passes over a token, until the first fault.
-/

namespace LabelHooks
set_option autoImplicit true

open Token (Kind)

structure Window where
  token : Token
  peek : Token
  peek2 : Token
  ahead : List (Token × List Fault)
  last : Option Token
  lexical : List Fault
  faults : List Fault
  noIn : Bool

namespace Window

def weight (σ : Window) : Nat :=
  σ.token.literal.length + σ.peek.literal.length + σ.peek2.literal.length +
    Lexer.feedWeight σ.ahead

def calm (σ : Window) : Nat := if σ.faults.isEmpty && σ.lexical.isEmpty then 1 else 0

theorem calm_le (σ : Window) : σ.calm ≤ 1 := by
  unfold calm
  split <;> omega

theorem calm_mono {σ τ : Window} (hfaults : τ.faults = [] → σ.faults = [])
    (hlexical : τ.lexical = [] → σ.lexical = []) : τ.calm ≤ σ.calm := by
  unfold calm
  split
  · next h =>
    simp only [Bool.and_eq_true, List.isEmpty_iff] at h
    simp [hfaults h.1, hlexical h.2]
  · omega

end Window

theorem Token.kind_eq {t t' : Token} (h : t.seen v = t'.seen v') : t.kind = t'.kind :=
  (Token.mk.inj h).1

theorem Token.literal_eq {t t' : Token} (h : t.seen v = t'.seen v') : t.literal = t'.literal :=
  (Token.mk.inj h).2.1

structure Reader.Shows (v : Int → Int) (s : Reader) (σ : Window) : Prop where
  token : s.token.seen v = σ.token
  peek : s.peek.seen v = σ.peek
  peek2 : s.peek2.seen v = σ.peek2
  sound : s.token.Sound v ∧ s.peek.Sound v ∧ s.peek2.Sound v
  lexer : s.lexer.Shows v σ.ahead σ.last
  lexical : s.lexer.faults.map (Fault.seen v) = σ.lexical
  faults : s.faults.map (Fault.seen v) = σ.faults
  noIn : s.noIn = σ.noIn

namespace Parse

def shifted (s : Reader) (t : Token) (l : Lexer) : Reader :=
  { s with
    lexer := l, token := s.peek, peek := s.peek2, peek2 := t
    prevEnd := if s.token.kind ≠ .eof || s.token.literal ≠ [] then s.token.stop else s.prevEnd }

theorem run_advance_error (h : s.lexer.next = .error c) : advance.run s = .error c := by
  change (liftM s.lexer.next >>= fun r => set (shifted s r.1 r.2) : Parse Unit).run s = _
  rw [StateT.run_bind, h]
  rfl

theorem run_advance (h : s.lexer.next = .ok (t, l)) : advance.run s = .ok ((), shifted s t l) := by
  change (liftM s.lexer.next >>= fun r => set (shifted s r.1 r.2) : Parse Unit).run s = _
  rw [StateT.run_bind, h]
  rfl

end Parse

def Window.advanced (σ : Window) : Option Window :=
  match σ.ahead, σ.last with
  | (t, fs) :: ts, _ =>
    some { σ with token := σ.peek, peek := σ.peek2, peek2 := t, ahead := ts, lexical := fs }
  | [], some t => some { σ with token := σ.peek, peek := σ.peek2, peek2 := t }
  | [], none => none

theorem Reader.Shows.advance {v : Int → Int} {s : Reader} (h : s.Shows v σ) : match σ.advanced with
    | none => Parse.advance.run s = .error .overrun
    | some τ => (∃ t, Parse.advance.run s = .ok ((), t) ∧ t.Shows v τ) ∧
      τ.weight + σ.token.literal.length ≤ σ.weight ∧ τ.calm ≤ σ.calm := by
  obtain ⟨token, peek, peek2, ahead, last, lexical, faults, noIn⟩ := σ
  have hlexer := h.lexer
  dsimp only at hlexer
  cases hlexer with
  | overrun hnext => exact Parse.run_advance_error hnext
  | @done _ t hnext hsound =>
    have hempty : t.literal.length = 0 := by
      have := (Lexer.taken hnext).rest
      omega
    refine ⟨⟨_, Parse.run_advance hnext, h.peek, h.peek2, rfl, ⟨h.sound.2.1, h.sound.2.2, hsound⟩,
      .done hnext hsound, h.lexical, h.faults, h.noIn⟩, ?_, Nat.le_refl _⟩
    simp only [Window.weight, Token.seen, hempty]
    omega
  | @token _ _ _ m t hnext hsound hm =>
    have hfaults : m.faults.map (Fault.seen v) = [] → lexical = [] := by
      intro hnil
      have hprefix := (Lexer.taken hnext).faults
      rw [List.map_eq_nil_iff.1 hnil] at hprefix
      have hlexical : s.lexer.faults.map (Fault.seen v) = lexical := h.lexical
      rw [← hlexical, List.prefix_nil.1 hprefix, List.map_nil]
    refine ⟨⟨_, Parse.run_advance hnext, h.peek, h.peek2, rfl, ⟨h.sound.2.1, h.sound.2.2, hsound⟩,
      hm, rfl, h.faults, h.noIn⟩, ?_, Window.calm_mono id hfaults⟩
    simp only [Window.weight, Lexer.feedWeight, List.map_cons, List.sum_cons]
    omega

theorem Reader.Shows.fail {v : Int → Int} {s : Reader} (h : s.Shows v σ) (fs : List Fault) :
    Reader.Shows v { s with faults := s.faults ++ fs }
      { σ with faults := σ.faults ++ fs.map (Fault.seen v) } :=
  ⟨h.token, h.peek, h.peek2, h.sound, h.lexer, h.lexical, by simp [h.faults], h.noIn⟩

theorem Reader.Shows.setNoIn {v : Int → Int} {s : Reader} (h : s.Shows v σ) (noIn : Bool) :
    Reader.Shows v { s with noIn } { σ with noIn } :=
  ⟨h.token, h.peek, h.peek2, h.sound, h.lexer, h.lexical, h.faults, rfl⟩

open Seen (seen)

namespace Parse

/-- Two runs from the window `σ` that crash alike or give results that look the same; the rest of
the text has not become longer, and no fault is taken back. -/
inductive Alike [Seen α] (v v' : Int → Int) (σ : Window) (Q : α → Nat → Nat → Prop) :
    Except Crash (α × Reader) → Except Crash (α × Reader) → Prop where
  | crash : c ≠ .exhausted → Alike v v' σ Q (.error c) (.error c)
  | ok {τ : Window} {s s' : Reader} {a a' : α} : s.Shows v τ → s'.Shows v' τ →
    seen v a = seen v' a' → τ.weight ≤ σ.weight → τ.calm ≤ σ.calm → Q a τ.weight τ.calm →
    Alike v v' σ Q (.ok (a, s)) (.ok (a', s'))

def Lockstep [Seen α] (v v' : Int → Int) (σ : Window) (x x' : Parse α)
    (Q : α → Nat → Nat → Prop) : Prop :=
  ∀ ⦃s s'⦄, s.Shows v σ → s'.Shows v' σ → Alike v v' σ Q (x.run s) (x'.run s')

abbrev Moved (σ : Window) (w c : Nat) : Prop := w < σ.weight ∨ c = 0

namespace Lockstep

variable {v v' : Int → Int} {σ : Window} [Seen α] [Seen β]

theorem pure {Q : α → Nat → Nat → Prop} (h : seen v a = seen v' a') (hQ : Q a σ.weight σ.calm) :
    Lockstep v v' σ (Pure.pure a) (Pure.pure a') Q :=
  fun _ _ hs hs' => .ok hs hs' h (Nat.le_refl _) (Nat.le_refl _) hQ

theorem throw (hc : c ≠ .exhausted) {Q : α → Nat → Nat → Prop} :
    Lockstep v v' σ (MonadExcept.throw c) (MonadExcept.throw c) Q :=
  fun _ _ _ _ => .crash hc

theorem bind {x x' : Parse α} {f f' : α → Parse β} (hx : Lockstep v v' σ x x' P)
    (hf : ∀ a a' τ, seen v a = seen v' a' → τ.weight ≤ σ.weight → τ.calm ≤ σ.calm →
      P a τ.weight τ.calm → Lockstep v v' τ (f a) (f' a') Q) :
    Lockstep v v' σ (x >>= f) (x' >>= f') Q := by
  intro s s' hs hs'
  have hrun := hx hs hs'
  rw [StateT.run_bind, StateT.run_bind]
  generalize x.run s = r at hrun ⊢
  generalize x'.run s' = r' at hrun ⊢
  cases hrun with
  | crash hc => exact .crash hc
  | @ok τ t t' a a' ht ht' ha hweight hcalm hP =>
    have hnext := hf a a' τ ha hweight hcalm hP ht ht'
    change Alike v v' σ Q ((f a).run t) ((f' a').run t')
    generalize (f a).run t = r at hnext ⊢
    generalize (f' a').run t' = r' at hnext ⊢
    cases hnext with
    | crash hc => exact .crash hc
    | ok hu hu' hb hweight' hcalm' hQ =>
      exact .ok hu hu' hb (Nat.le_trans hweight' hweight) (Nat.le_trans hcalm' hcalm) hQ

theorem imp {x x' : Parse α} (hx : Lockstep v v' σ x x' P)
    (h : ∀ a w c, w ≤ σ.weight → c ≤ σ.calm → P a w c → Q a w c) : Lockstep v v' σ x x' Q := by
  intro s s' hs hs'
  have hrun := hx hs hs'
  generalize x.run s = r at hrun ⊢
  generalize x'.run s' = r' at hrun ⊢
  cases hrun with
  | crash hc => exact .crash hc
  | ok ht ht' ha hweight hcalm hP => exact .ok ht ht' ha hweight hcalm (h _ _ _ hweight hcalm hP)

theorem iterate {S : Type} [Seen S] {step step' : S → Parse (S ⊕ β)} {n n' : Nat} {a a' : S}
    (hstep : ∀ τ a a', seen v a = seen v' a' → τ.weight ≤ σ.weight → τ.calm ≤ σ.calm →
      Lockstep v v' τ (step a) (step' a') fun r w c => r.isLeft → w + c < τ.weight + τ.calm)
    (ha : seen v a = seen v' a') (hn : σ.weight + σ.calm < n) (hn' : σ.weight + σ.calm < n') :
    Lockstep v v' σ (Parse.iterate step n a) (Parse.iterate step' n' a') fun _ _ _ => True := by
  induction n generalizing n' σ a a' with
  | zero => omega
  | succ n ih =>
    obtain ⟨n', rfl⟩ : ∃ k, n' = k + 1 := ⟨n' - 1, by omega⟩
    apply bind (hstep σ a a' ha (Nat.le_refl _) (Nat.le_refl _))
    intro r r' τ hr hweight hcalm hleft
    match r, r', hr with
    | .inl b, .inl b', hr =>
      have hlt := hleft rfl
      apply ih _ (Sum.inl.inj hr) (by omega) (by omega)
      intro ρ b b' hb hweight' hcalm'
      exact hstep ρ b b' hb (by omega) (by omega)
    | .inr b, .inr b', hr => exact pure (Sum.inr.inj hr) trivial

section Reading

variable {Q : α → Nat → Nat → Prop}

theorem get (h : ∀ s s', s.Shows v σ → s'.Shows v' σ → Lockstep v v' σ (f s) (f' s') Q) :
    Lockstep v v' σ (MonadState.get >>= f) (MonadState.get >>= f') Q :=
  fun s s' hs hs' => h s s' hs hs' hs hs'

theorem start (h : ∀ p p', p.seen v = p'.seen v' → Lockstep v v' σ (f p) (f' p') Q) :
    Lockstep v v' σ (Parse.start >>= f) (Parse.start >>= f') Q := by
  intro s s' hs hs'
  have htoken := hs.token.trans hs'.token.symm
  exact h s.token.pos s'.token.pos (congrArg Token.pos htoken) hs hs'

theorem token (h : ∀ k u p p' b, p.seen v = p'.seen v' → σ.token = ⟨k, u, p.seen v, b⟩ →
      Token.Sound v ⟨k, u, p, b⟩ → Token.Sound v' ⟨k, u, p', b⟩ →
      Lockstep v v' σ (f ⟨k, u, p, b⟩) (f' ⟨k, u, p', b⟩) Q) :
    Lockstep v v' σ (Parse.token >>= f) (Parse.token >>= f') Q := by
  intro s s' hs hs'
  have htoken := hs.token.trans hs'.token.symm
  obtain ⟨hsound, _⟩ := hs.sound
  obtain ⟨hsound', _⟩ := hs'.sound
  change Alike v v' σ Q ((f s.token).run s) ((f' s'.token).run s')
  have hstage := hs.token.symm
  generalize s.token = t at htoken hsound hstage ⊢
  generalize s'.token = t' at htoken hsound' ⊢
  obtain ⟨k, u, p, b⟩ := t
  obtain ⟨k', u', p', b'⟩ := t'
  simp only [Token.seen, Token.mk.injEq] at htoken
  obtain ⟨rfl, rfl, hp, rfl⟩ := htoken
  exact h k u p p' b hp hstage hsound hsound' hs hs'

theorem peek (h : ∀ k u p p' b, Lockstep v v' σ (f ⟨k, u, p, b⟩) (f' ⟨k, u, p', b⟩) Q) :
    Lockstep v v' σ (Parse.peek >>= f) (Parse.peek >>= f') Q := by
  intro s s' hs hs'
  have htoken := hs.peek.trans hs'.peek.symm
  change Alike v v' σ Q ((f s.peek).run s) ((f' s'.peek).run s')
  generalize s.peek = t at htoken ⊢
  generalize s'.peek = t' at htoken ⊢
  obtain ⟨k, u, p, b⟩ := t
  obtain ⟨k', u', p', b'⟩ := t'
  simp only [Token.seen, Token.mk.injEq] at htoken
  obtain ⟨rfl, rfl, _, rfl⟩ := htoken
  exact h k u p p' b hs hs'

theorem check (h : Lockstep v v' σ (f (σ.token.kind = k)) (f' (σ.token.kind = k)) Q) :
    Lockstep v v' σ (Parse.check k >>= f) (Parse.check k >>= f') Q := by
  intro s s' hs hs'
  have hkind : s.token.kind = σ.token.kind := by rw [← hs.token]; rfl
  have hkind' : s'.token.kind = σ.token.kind := by rw [← hs'.token]; rfl
  change Alike v v' σ Q ((f (s.token.kind = k)).run s) ((f' (s'.token.kind = k)).run s')
  rw [hkind, hkind']
  exact h hs hs'

theorem checkPeek {f f' : Bool → Parse α} (h : ∀ b, Lockstep v v' σ (f b) (f' b) Q) :
    Lockstep v v' σ (Parse.checkPeek k >>= f) (Parse.checkPeek k >>= f') Q := by
  intro s s' hs hs'
  have hkind : s'.peek.kind = s.peek.kind := Token.kind_eq (hs'.peek.trans hs.peek.symm)
  change Alike v v' σ Q ((f (s.peek.kind = k)).run s) ((f' (s'.peek.kind = k)).run s')
  rw [hkind]
  exact h _ hs hs'

theorem checkWord {f f' : Bool → Parse α}
    (h : ∀ b, (b = true → σ.token.kind = .ident) → Lockstep v v' σ (f b) (f' b) Q) :
    Lockstep v v' σ (Parse.checkWord word >>= f) (Parse.checkWord word >>= f') Q := by
  intro s s' hs hs'
  have htoken := hs'.token.trans hs.token.symm
  have hkind : s'.token.kind = s.token.kind := Token.kind_eq htoken
  have hliteral : s'.token.literal = s.token.literal := Token.literal_eq htoken
  change Alike v v' σ Q ((f (s.token.kind = .ident && s.token.literal = word)).run s)
    ((f' (s'.token.kind = .ident && s'.token.literal = word)).run s')
  rw [hkind, hliteral]
  refine h _ ?_ hs hs'
  intro hb
  rw [← hs.token]
  simp only [Bool.and_eq_true, decide_eq_true_eq] at hb
  exact hb.1

theorem failed (h : Lockstep v v' σ (f (σ.calm = 0)) (f' (σ.calm = 0)) Q) :
    Lockstep v v' σ (Parse.failed >>= f) (Parse.failed >>= f') Q := by
  intro s s' hs hs'
  have hfailed : ∀ {v : Int → Int} {s : Reader}, s.Shows v σ →
      (!s.faults.isEmpty || !s.lexer.faults.isEmpty) = decide (σ.calm = 0) := by
    intro v s hs
    rw [Window.calm, ← hs.faults, ← hs.lexical]
    cases s.faults <;> cases s.lexer.faults <;> simp
  change Alike v v' σ Q ((f (!s.faults.isEmpty || !s.lexer.faults.isEmpty)).run s)
    ((f' (!s'.faults.isEmpty || !s'.lexer.faults.isEmpty)).run s')
  rw [hfailed hs, hfailed hs']
  exact h hs hs'

theorem markFrom (hp : p.seen v = p'.seen v')
    (h : ∀ m m', m.seen v = m'.seen v' → Lockstep v v' σ (f m) (f' m') Q) :
    Lockstep v v' σ (Parse.markFrom p >>= f) (Parse.markFrom p' >>= f') Q := by
  intro s s' hs hs'
  refine h (.ofSpan ⟨p, s.prevEnd⟩) (.ofSpan ⟨p', s'.prevEnd⟩) ?_ hs hs'
  simp only [Mark.seen, Mark.ofSpan, hp]

theorem marked (hp : p.seen v = p'.seen v') {f f' : Mark → α} {Q : Nat → Nat → Prop}
    (h : ∀ m m', m.seen v = m'.seen v' → seen v (f m) = seen v' (f' m')) (hQ : Q σ.weight σ.calm) :
    Lockstep v v' σ (Parse.markFrom p >>= fun m => Pure.pure (f m))
      (Parse.markFrom p' >>= fun m => Pure.pure (f' m)) fun _ => Q :=
  markFrom hp fun m m' hm => pure (h m m' hm) hQ

theorem takeComments (h : ∀ cs cs', Lockstep v v' σ (f cs) (f' cs') Q) :
    Lockstep v v' σ (Parse.takeComments o >>= f) (Parse.takeComments o' >>= f') Q := by
  intro s s' hs hs'
  have hkeep : ∀ {v : Int → Int} {s : Reader} (n : Nat), s.Shows v σ →
      Reader.Shows v { s with taken := n } σ := by
    intro v s n hs
    exact ⟨hs.token, hs.peek, hs.peek2, hs.sound, hs.lexer, hs.lexical, hs.faults, hs.noIn⟩
  exact h _ _ (hkeep _ hs) (hkeep _ hs')

end Reading

section Branching

variable {Q : α → Nat → Nat → Prop}

theorem ite [Decidable c] (hx : c → Lockstep v v' σ x x' Q) (hy : ¬ c → Lockstep v v' σ y y' Q) :
    Lockstep v v' σ (if c then x else y) (if c then x' else y') Q := by
  split
  · next hc => exact hx hc
  · next hc => exact hy hc

theorem maybe {c : Prop} [Decidable c] {x x' : Parse Unit} (hx : c → Lockstep v v' σ x x' P)
    (hf : ∀ τ, τ.weight ≤ σ.weight → τ.calm ≤ σ.calm → Lockstep v v' τ (f ()) (f' ()) Q) :
    Lockstep v v' σ (if c then x >>= f else f ()) (if c then x' >>= f' else f' ()) Q := by
  apply ite
  · intro hc
    exact bind (hx hc) fun _ _ τ _ hweight hcalm _ => hf τ hweight hcalm
  · intro _
    exact hf σ (Nat.le_refl _) (Nat.le_refl _)

theorem checkThen (hyes : σ.token.kind = k → Lockstep v v' σ x x' Q)
    (hno : σ.token.kind ≠ k → Lockstep v v' σ y y' Q) :
    Lockstep v v' σ (do if ← Parse.check k then x else y) (do if ← Parse.check k then x' else y')
      Q := by
  apply check
  apply ite
  · intro hk
    exact hyes (of_decide_eq_true hk)
  · intro hk
    exact hno fun h => hk (decide_eq_true h)

theorem failedThen (hyes : σ.calm = 0 → Lockstep v v' σ x x' Q)
    (hno : σ.calm = 1 → Lockstep v v' σ y y' Q) :
    Lockstep v v' σ (do if ← Parse.failed then x else y) (do if ← Parse.failed then x' else y')
      Q := by
  apply failed
  apply ite
  · intro hcalm
    exact hyes (of_decide_eq_true hcalm)
  · intro hcalm
    have hne : σ.calm ≠ 0 := fun h => hcalm (decide_eq_true h)
    have := σ.calm_le
    exact hno (by omega)

theorem stopped (hx : Lockstep v v' σ x x' Q)
    (hy : σ.token.kind ≠ k → σ.calm = 1 → Lockstep v v' σ y y' Q) :
    Lockstep v v' σ (do if (← Parse.check k) || (← Parse.failed) then x else y)
      (do if (← Parse.check k) || (← Parse.failed) then x' else y') Q := by
  apply check
  apply failed
  apply ite
  · intro _
    exact hx
  · intro h
    simp only [Bool.or_eq_true, decide_eq_true_eq, not_or] at h
    have := σ.calm_le
    exact hy h.1 (by omega)

end Branching

theorem advance : Lockstep v v' σ Parse.advance Parse.advance fun _ w _ =>
    w + σ.token.literal.length ≤ σ.weight ∧ (σ.token.kind ≠ .eof → w < σ.weight) := by
  intro s s' hs hs'
  have hrun := hs.advance
  have hrun' := hs'.advance
  cases hnext : σ.advanced with
  | none =>
    rw [hnext] at hrun hrun'
    rw [hrun, hrun']
    exact .crash (by decide)
  | some τ =>
    rw [hnext] at hrun hrun'
    obtain ⟨⟨t, ht, hshows⟩, hweight, hcalm⟩ := hrun
    obtain ⟨⟨t', ht', hshows'⟩, _⟩ := hrun'
    rw [ht, ht']
    refine .ok hshows hshows' rfl (by omega) hcalm ⟨hweight, ?_⟩
    intro hk
    have : 0 < σ.token.literal.length := by
      rw [← hs.token] at hk ⊢
      apply List.length_pos_iff.2
      intro hnil
      exact hk (hs.sound.1.ended.2 hnil)
    omega

section Primitives

theorem failAt {p p' : Position} {c c' : Cause} (hp : p.seen v = p'.seen v')
    (hc : c.seen v = c'.seen v') :
    Lockstep v v' σ (Parse.failAt p c) (Parse.failAt p' c') fun _ _ c => c = 0 := by
  intro s s' hs hs'
  have hseen : Fault.seen v ⟨p, c⟩ = Fault.seen v' ⟨p', c'⟩ := by
    rw [Fault.seen, Fault.seen, hp, hc]
  have hshows := hs.fail [⟨p, c⟩]
  have hshows' := hs'.fail [⟨p', c'⟩]
  rw [List.map_singleton] at hshows hshows'
  rw [← hseen] at hshows'
  exact .ok hshows hshows' rfl (Nat.le_refl _) (Window.calm_mono (by simp) id)
    (by simp [Window.calm])

theorem fail (c : Cause) (hc : c.bare = true) :
    Lockstep v v' σ (Parse.fail c) (Parse.fail c) fun _ _ c => c = 0 :=
  start fun _ _ hp => failAt hp (by rw [c.seen_of_bare hc, c.seen_of_bare hc])

theorem failExpecting (expected : Text) :
    Lockstep v v' σ (Parse.failExpecting expected) (Parse.failExpecting expected)
      fun _ _ c => c = 0 := by
  apply token
  intro k u p p' b hp _ _ _
  apply start
  intro q q' hq
  exact failAt hq (by simp only [Cause.seen, Token.seen, hp])

theorem accept {k : Kind} (hk : k ≠ .eof) :
    Lockstep v v' σ (Parse.accept k) (Parse.accept k) fun b w _ => b = true → w < σ.weight := by
  apply checkThen
  · intro hkind
    apply bind advance
    intro _ _ τ _ _ _ hτ
    exact pure rfl fun _ => hτ.2 (by rwa [hkind])
  · intro _
    exact pure rfl fun h => nomatch h

theorem acceptThen {Q : α → Nat → Nat → Prop} (hk : k ≠ .eof) {x x' y y' : Parse α}
    (hyes : ∀ τ : Window, τ.weight < σ.weight → τ.calm ≤ σ.calm → Lockstep v v' τ x x' Q)
    (hno : Lockstep v v' σ y y' Q) :
    Lockstep v v' σ (do if ← Parse.accept k then x else y) (do if ← Parse.accept k then x' else y')
      Q := by
  rw [Parse.accept, bind_assoc, bind_assoc]
  apply check
  by_cases hkind : σ.token.kind = k
  · simp only [hkind, decide_true, if_true, bind_assoc, pure_bind]
    apply bind advance
    intro _ _ τ _ _ hcalm hτ
    exact hyes τ (hτ.2 (by rwa [hkind])) hcalm
  · simpa [hkind] using hno

theorem expect {k : Kind} (hk : k ≠ .eof) :
    Lockstep v v' σ (Parse.expect k) (Parse.expect k) fun _ w c => Moved σ w c := by
  apply checkThen
  · intro hkind
    exact advance.imp fun _ _ _ _ _ h => .inl (h.2 (by rwa [hkind]))
  · intro _
    exact (failExpecting _).imp fun _ _ _ _ _ h => .inr h

theorem expectWord (word : Text) :
    Lockstep v v' σ (Parse.expectWord word) (Parse.expectWord word) fun _ w c => Moved σ w c := by
  apply checkWord
  intro b hb
  apply ite
  · intro h
    exact advance.imp fun _ _ _ _ _ hτ => .inl (hτ.2 (by rw [hb h]; decide))
  · intro _
    exact (failExpecting _).imp fun _ _ _ _ _ h => .inr h

theorem withNoIn {x x' : Parse α} {Q : α → Nat → Nat → Prop} (noIn : Bool)
    (h : ∀ τ : Window, τ.token = σ.token → τ.weight = σ.weight → τ.calm = σ.calm →
      Lockstep v v' τ x x' Q) :
    Lockstep v v' σ (Parse.withNoIn noIn x) (Parse.withNoIn noIn x') Q := by
  intro s s' hs hs'
  have hrun := h { σ with noIn } rfl rfl rfl (hs.setNoIn noIn) (hs'.setNoIn noIn)
  have hwith : ∀ (s : Reader) (x : Parse α), (Parse.withNoIn noIn x).run s =
      x.run { s with noIn } >>= fun r => .ok (r.1, { r.2 with noIn := s.noIn }) := fun _ _ => rfl
  rw [hwith, hwith]
  generalize x.run { s with noIn } = r at hrun ⊢
  generalize x'.run { s' with noIn } = r' at hrun ⊢
  cases hrun with
  | crash hc => exact .crash hc
  | @ok τ t t' a a' ht ht' ha hweight hcalm hQ =>
    have hback := ht.setNoIn s.noIn
    have hback' := ht'.setNoIn s'.noIn
    rw [show s'.noIn = s.noIn from hs'.noIn.trans hs.noIn.symm] at hback' ⊢
    exact .ok hback hback' ha hweight hcalm hQ

theorem withNoIn_moved {x x' : Parse α} (noIn : Bool)
    (h : ∀ τ : Window, τ.token = σ.token → τ.weight = σ.weight → τ.calm = σ.calm →
      Lockstep v v' τ x x' fun _ => Moved τ) :
    Lockstep v v' σ (Parse.withNoIn noIn x) (Parse.withNoIn noIn x') fun _ => Moved σ := by
  apply withNoIn
  intro τ htoken hweight hcalm
  exact (h τ htoken hweight hcalm).imp fun _ _ _ _ _ hm => by omega

theorem semicolon : Lockstep v v' σ Parse.semicolon Parse.semicolon fun _ _ _ => True := by
  apply acceptThen (by decide)
  · intro τ _ _
    exact pure rfl trivial
  · apply token
    intro k u p p' b _ _ _ _
    apply ite
    · intro _
      exact pure rfl trivial
    · intro _
      exact (failExpecting _).imp fun _ _ _ _ _ _ => trivial

theorem atStatementEnd :
    Lockstep v v' σ Parse.atStatementEnd Parse.atStatementEnd fun _ _ _ => True := by
  apply token
  intro k u p p' b _ _ _ _
  exact pure rfl trivial

theorem missingIdent (hp : p.seen v = p'.seen v') :
    seen v (Parse.missingIdent p) = seen v' (Parse.missingIdent p') := by
  simp [Parse.missingIdent, Span.point, hp]

theorem ident : Lockstep v v' σ Parse.ident Parse.ident fun _ w c =>
    (σ.token.kind = .ident → w < σ.weight) ∧ Moved σ w c := by
  apply token
  intro k u p p' b hp hσ _ _
  apply ite
  · intro hk
    have hk : k = .ident := hk
    apply bind advance
    intro _ _ τ _ _ _ hτ
    have hlt := hτ.2 (by simp [hσ, hk])
    apply markFrom hp
    intro m m' hm
    exact pure (by simp [hm]) ⟨fun _ => hlt, .inl hlt⟩
  · intro hk
    have hk : k ≠ .ident := hk
    apply bind (failExpecting _)
    intro _ _ τ _ _ _ hτ
    exact pure (missingIdent hp) ⟨fun h => absurd (by rw [← h, hσ]) hk, .inr hτ⟩

theorem identName : Lockstep v v' σ Parse.identName Parse.identName fun _ w c => Moved σ w c := by
  apply token
  intro k u p p' b hp hσ _ _
  apply ite (c := Token.isName ⟨k, u, p, b⟩ = true)
  · intro hk
    have hk : k ≠ .eof := by
      rintro rfl
      cases hk
    apply bind advance
    intro _ _ τ _ _ _ hτ
    apply markFrom hp
    intro m m' hm
    exact pure (by simp [hm]) (.inl (hτ.2 (by simpa [hσ] using hk)))
  · intro _
    apply bind (failExpecting _)
    intro _ _ τ _ _ _ hτ
    exact pure (missingIdent hp) (.inr hτ)

theorem stringLiteral :
    Lockstep v v' σ Parse.stringLiteral Parse.stringLiteral fun _ w c => Moved σ w c := by
  apply token
  intro k u p p' b hp _ _ _
  apply bind (expect (by decide))
  intro _ _ τ _ _ _ hτ
  apply markFrom hp
  intro m m' hm
  exact pure (congrArg (Literal.mk · .string u) hm) hτ

end Primitives

section Faults

variable {Q : β → Nat → Nat → Prop}

theorem reportingThen {r r' : Except Crash (α × List Mark)} {f f' : α → Parse β}
    (hr : r.map (fun p => (seen v p.1, p.2.map (Mark.seen v))) =
      r'.map fun p => (seen v' p.1, p.2.map (Mark.seen v'))) (hne : r ≠ .error .exhausted)
    (hcause : cause.bare = true)
    (hf : ∀ a a' τ, seen v a = seen v' a' → τ.token = σ.token → τ.weight = σ.weight →
      τ.calm ≤ σ.calm → Lockstep v v' τ (f a) (f' a') Q) :
    Lockstep v v' σ (reporting cause r >>= f) (reporting cause r' >>= f') Q := by
  intro s s' hs hs'
  rw [StateT.run_bind, StateT.run_bind]
  match r, r', hr with
  | .error c, .error c', hr =>
    cases hr
    refine .crash ?_
    rintro rfl
    exact hne rfl
  | .ok (a, ms), .ok (a', ms'), hr =>
    simp only [Except.map, Except.ok.injEq, Prod.mk.injEq] at hr
    obtain ⟨ha, hms⟩ := hr
    have hfaults : ∀ (v : Int → Int) (ms : List Mark), (ms.map fun m =>
        (⟨m.span.start, cause⟩ : Fault)).map (Fault.seen v) =
          (ms.map (Mark.seen v)).map fun m => ⟨m.span.start, cause⟩ := by
      intro v ms
      simp only [List.map_map, Function.comp_def, Fault.seen, cause.seen_of_bare hcause]
      rfl
    let τ : Window := { σ with
      faults := σ.faults ++ (ms.map (Mark.seen v)).map fun m => ⟨m.span.start, cause⟩ }
    have hτ := hs.fail (ms.map fun m => ⟨m.span.start, cause⟩)
    have hτ' := hs'.fail (ms'.map fun m => ⟨m.span.start, cause⟩)
    rw [hfaults] at hτ hτ'
    rw [← hms] at hτ'
    have hcalm : τ.calm ≤ σ.calm := Window.calm_mono (fun h => (List.append_eq_nil_iff.1 h).1) id
    have hrun := hf a a' τ ha rfl rfl hcalm hτ hτ'
    rw [run_reporting_ok, run_reporting_ok]
    change Alike v v' σ Q ((f a).run _) ((f' a').run _)
    generalize (f a).run _ = x at hrun ⊢
    generalize (f' a').run _ = x' at hrun ⊢
    cases hrun with
    | crash hc => exact .crash hc
    | ok ht ht' hb hweight hcalm' hQ =>
      exact .ok ht ht' hb hweight (Nat.le_trans hcalm' hcalm) hQ

theorem failThen (c : Cause) {f f' : Unit → Parse β} (hc : c.bare = true)
    (hf : ∀ τ, τ.token = σ.token → τ.weight = σ.weight → τ.calm ≤ σ.calm →
      Lockstep v v' τ (f ()) (f' ()) Q) :
    Lockstep v v' σ (Parse.fail c >>= f) (Parse.fail c >>= f') Q := by
  rw [Parse.fail, bind_assoc, bind_assoc]
  apply start
  intro p p' hp
  change Lockstep v v' σ (reporting c (.ok ((), [.ofSpan ⟨p, p⟩])) >>= f)
    (reporting c (.ok ((), [.ofSpan ⟨p', p'⟩])) >>= f') Q
  refine reportingThen ?_ (fun h => nomatch h) hc
    fun _ _ τ _ htoken hweight hcalm => hf τ htoken hweight hcalm
  simp only [Except.map, List.map_singleton, Mark.seen, Mark.ofSpan, hp]

theorem bare_patternCause (binding : Bool) : (patternCause binding).bare = true := by
  cases binding <;> rfl

theorem toPatternThen {f f' : Expr → Parse β} (he : seen v e = seen v' e')
    (hf : ∀ a a' τ, seen v a = seen v' a' → τ.token = σ.token → τ.weight = σ.weight →
      τ.calm ≤ σ.calm → Lockstep v v' τ (f a) (f' a') Q) :
    Lockstep v v' σ (Parse.toPattern binding e >>= f) (Parse.toPattern binding e' >>= f') Q := by
  rw [toPattern_eq, toPattern_eq]
  refine reportingThen ?_ (e.pattern_ne_exhausted binding) (bare_patternCause binding) hf
  have hpattern := congrArg (Expr.pattern binding) he
  change (e.marked _).pattern binding = (e'.marked _).pattern binding at hpattern
  rwa [Expr.pattern_marked, Expr.pattern_marked] at hpattern

theorem toParams {es es' : List Expr} (hes : seen v es = seen v' es') :
    Lockstep v v' σ (Parse.toParams es) (Parse.toParams es') fun _ _ _ => True := by
  rw [toParams_eq, toParams_eq, ← bind_pure (reporting _ (Expr.patternParams es)),
    ← bind_pure (reporting _ (Expr.patternParams es'))]
  refine reportingThen (Q := fun _ _ _ => True) ?_ (Expr.patternParams_ne_exhausted es) rfl
    fun a a' τ ha _ _ _ => pure ha trivial
  have hpattern := congrArg Expr.patternParams hes
  change Expr.patternParams (es.map (Expr.marked _)) = Expr.patternParams (es'.map (Expr.marked _))
    at hpattern
  rwa [Expr.patternParams_marked, Expr.patternParams_marked] at hpattern

end Faults
end Lockstep
end Parse
end LabelHooks
