import LabelHooks.Proofs.Between
import LabelHooks.Proofs.LockstepRules

/-!
What rules read that end without a fault. A statement about a rule relates the place of the reader
before it, its result and the place after it; the reader stands in the source all the time, and no
fault is ever taken back.
-/

namespace LabelHooks
set_option autoImplicit true

open Token (Kind)

structure Place where
  token : Token
  prevEnd : Position
  settled : List Comment

namespace Place

/-- Where the next token starts. -/
abbrev head (p : Place) : Point := ⟨p.token.pos, p.settled⟩

/-- Where the last token ended. -/
abbrev tail (p : Place) : Point := ⟨p.prevEnd, p.settled⟩

structure Stands (src : Text) (hi : Int) (p : Place) : Prop where
  token : p.token.Stands src hi
  nonneg : 0 ≤ p.prevEnd.offset
  gap : p.tail ≤ p.head
  le : p.prevEnd.offset ≤ hi

structure Leads (src : Text) (hi : Int) (p q : Place) : Prop where
  source : p.Stands src hi
  target : q.Stands src hi
  prev : p.tail ≤ q.tail
  token : p.head ≤ q.head

namespace Leads

variable {src : Text} {hi : Int} {p q r : Place}

theorem refl (h : p.Stands src hi) : Leads src hi p p := ⟨h, h, le_rfl, le_rfl⟩

theorem trans (h : Leads src hi p q) (h' : Leads src hi q r) : Leads src hi p r :=
  ⟨h.source, h'.target, le_trans h.prev h'.prev, le_trans h.token h'.token⟩

theorem gap (h : Leads src hi p q) : p.tail ≤ q.head := le_trans h.source.gap h.token

-- The points that a reader comes to are in order: `grind` finds that out from its steps.
@[grind →] theorem points (h : Leads src hi p q) :
    p.tail ≤ q.tail ∧ p.head ≤ q.head ∧ p.tail ≤ p.head ∧ q.tail ≤ q.head :=
  ⟨h.prev, h.token, h.source.gap, h.target.gap⟩

end Leads

structure Passed (p q : Place) : Prop where
  kind : p.token.kind ≠ .eof
  stop : q.prevEnd = p.token.stop
  settled : p.settled.Sublist q.settled

@[grind →] theorem Passed.le (h : Passed p q) : p.head ≤ q.tail := by
  refine ⟨?_, h.settled⟩
  change _ ≤ q.prevEnd.offset
  rw [h.stop, Token.stop]
  exact Int.le_add_of_nonneg_right (Int.natCast_nonneg _)

end Place

namespace Reader

/-- The comments that were dealt with, without the pure annotations. -/
def settled (s : Reader) : List Comment := (s.lexer.comments.take s.taken).filter (!·.isPure)

def place (s : Reader) : Place := ⟨s.token, s.prevEnd, s.settled⟩

def Clean (s : Reader) : Prop := s.faults = [] ∧ s.lexer.faults = []

/-- The reader and its lexer stand in the source, and the tokens that were read ahead follow each
other. -/
structure Stands (src : Text) (hi : Int) (s : Reader) : Prop where
  place : s.place.Stands src hi
  peek : s.peek.Stands src hi
  peek2 : s.peek2.Stands src hi
  lexer : s.lexer.Stands src hi
  before_peek : s.token.stop.offset ≤ s.peek.pos.offset
  before_peek2 : s.peek.stop.offset ≤ s.peek2.pos.offset
  before_lexer : s.peek2.stop.offset ≤ s.lexer.cursor.pos.offset

theorem clean_of_fault? {s : Reader} (h : s.fault? = none) : s.Clean := by
  have hnil : ∀ fs, Fault.earliest? fs = none → fs = [] := by
    intro fs
    cases fs with
    | nil => exact fun _ => rfl
    | cons f fs =>
      intro h
      rw [Fault.earliest?] at h
      split at h
      · split at h <;> cases h
      · cases h
  have := hnil _ h
  rw [List.append_eq_nil_iff] at this
  exact ⟨this.2, this.1⟩

end Reader

namespace Token

theorem le_stop (t : Token) : t.pos.offset ≤ t.stop.offset :=
  Int.le_add_of_nonneg_right (Int.natCast_nonneg _)

end Token

namespace Parse

open Place (Leads Passed)

/-- A run that ends without a fault started without one, and if the reader stood in the source, it
still does, and `Q` holds. -/
def Reads (src : Text) (hi : Int) (x : Parse α) (Q : Place → α → Place → Prop) : Prop :=
  ∀ ⦃s a s'⦄, x.run s = .ok (a, s') → s'.Clean → s.Clean ∧ (s.Stands src hi →
    s'.Stands src hi ∧ Leads src hi s.place s'.place ∧ Q s.place a s'.place)

namespace Reads

variable {src : Text} {hi : Int}

theorem pure (h : ∀ p, p.Stands src hi → Q p a p) : Reads src hi (Pure.pure a) Q := by
  intro s b s' hrun hclean
  cases hrun
  exact ⟨hclean, fun hs => ⟨hs, .refl hs.place, h _ hs.place⟩⟩

theorem throw (c : Crash) : Reads src hi (MonadExcept.throw c) Q := by
  intro s a s' hrun
  cases hrun

theorem bind (hx : Reads src hi x P)
    (hf : ∀ a, Reads src hi (f a) fun q b r => ∀ p, Leads src hi p q → P p a q → Q p b r) :
    Reads src hi (x >>= f) Q := by
  intro s b s' hrun hclean
  rw [StateT.run_bind] at hrun
  cases hx' : x.run s with
  | error c =>
    rw [hx'] at hrun
    cases hrun
  | ok out =>
    rw [hx'] at hrun
    obtain ⟨hmid, hrest⟩ := hf out.1 hrun hclean
    obtain ⟨hstart, hfirst⟩ := hx hx' hmid
    refine ⟨hstart, fun hs => ?_⟩
    obtain ⟨hs₁, hleads, hP⟩ := hfirst hs
    obtain ⟨hs₂, hleads', hQ⟩ := hrest hs₁
    exact ⟨hs₂, hleads.trans hleads', hQ _ hleads hP⟩

theorem imp (hx : Reads src hi x P) (h : ∀ p a q, Leads src hi p q → P p a q → Q p a q) :
    Reads src hi x Q := by
  intro s a s' hrun hclean
  obtain ⟨hstart, hrest⟩ := hx hrun hclean
  refine ⟨hstart, fun hs => ?_⟩
  obtain ⟨hs', hleads, hP⟩ := hrest hs
  exact ⟨hs', hleads, h _ _ _ hleads hP⟩

abbrev Round (src : Text) (hi : Int) (I : Place → σ → Place → Prop) (R : Place → β → Place → Prop)
    (a : σ) (q : Place) (x : σ ⊕ β) (q' : Place) : Prop :=
  ∀ p, Leads src hi p q → I p a q → Sum.elim (fun a => I p a q') (fun b => R p b q') x

theorem iterate {step : σ → Parse (σ ⊕ β)} (h : ∀ a, Reads src hi (step a) (Round src hi I R a))
    (n : Nat) (a : σ) :
    Reads src hi (Parse.iterate step n a) fun q b r => ∀ p, Leads src hi p q → I p a q →
      R p b r := by
  induction n generalizing a with
  | zero => exact .throw _
  | succ n ih =>
    apply bind (h a)
    intro x
    cases x with
    | inl a' =>
      exact (ih a').imp fun q' b r _ hR q hqq hstep p hpq ha =>
        hR p (hpq.trans hqq) (hstep p hpq ha)
    | inr b => exact pure fun q' _ q _ hstep p hpq ha => hstep p hpq ha

theorem loop {step : σ → Parse (σ ⊕ β)} (h : ∀ a, Reads src hi (step a) (Round src hi I R a))
    (ha : ∀ p, p.Stands src hi → I p a p) : Reads src hi (Parse.iterate step n a) R :=
  (iterate h n a).imp fun p _ _ hleads hR => hR p (.refl hleads.source) (ha p hleads.source)

section Looking

variable {Q : Place → α → Place → Prop}

theorem look {x : Parse β} {f : β → Parse α} {P : Place → β → Prop}
    (hx : ∀ s b s', x.run s = .ok (b, s') → s' = s ∧ P s.place b)
    (hf : ∀ b, Reads src hi (f b) fun p a q => P p b → Q p a q) :
    Reads src hi (x >>= f) Q := by
  have hlook : Reads src hi x fun p b q => q = p ∧ P p b := by
    intro s b s' hrun hclean
    obtain ⟨rfl, hP⟩ := hx s b s' hrun
    exact ⟨hclean, fun hs => ⟨hs, .refl hs.place, rfl, hP⟩⟩
  apply bind hlook
  intro b
  refine (hf b).imp ?_
  rintro q a r _ hQ p _ ⟨rfl, hP⟩
  exact hQ hP

theorem get {f : Reader → Parse α}
    (hf : ∀ s, Reads src hi (f s) fun p a q => p = s.place → Q p a q) :
    Reads src hi (MonadState.get >>= f) Q := by
  apply look (P := fun p s => p = s.place) _ hf
  intro s b s' hrun
  cases hrun
  exact ⟨rfl, rfl⟩

theorem peek {f : Token → Parse α} (hf : ∀ t, Reads src hi (f t) Q) :
    Reads src hi (Parse.peek >>= f) Q := by
  apply look (P := fun _ _ => True)
  · intro s b s' hrun
    cases hrun
    exact ⟨rfl, trivial⟩
  · intro t
    exact (hf t).imp fun _ _ _ _ hQ _ => hQ

theorem check {k : Kind} {f : Bool → Parse α}
    (hf : ∀ b, Reads src hi (f b) fun p a q => b = decide (p.token.kind = k) → Q p a q) :
    Reads src hi (Parse.check k >>= f) Q := by
  apply look (P := fun p b => b = decide (p.token.kind = k)) _ hf
  intro s b s' hrun
  cases hrun
  exact ⟨rfl, rfl⟩

theorem checkPeek {k : Kind} {f : Bool → Parse α} (hf : ∀ b, Reads src hi (f b) Q) :
    Reads src hi (Parse.checkPeek k >>= f) Q := by
  apply look (P := fun _ _ => True)
  · intro s b s' hrun
    cases hrun
    exact ⟨rfl, trivial⟩
  · intro b
    exact (hf b).imp fun _ _ _ _ hQ _ => hQ

theorem failed {f : Bool → Parse α} (hf : ∀ b, Reads src hi (f b) Q) :
    Reads src hi (Parse.failed >>= f) Q := by
  apply look (P := fun _ _ => True)
  · intro s b s' hrun
    cases hrun
    exact ⟨rfl, trivial⟩
  · intro b
    exact (hf b).imp fun _ _ _ _ hQ _ => hQ

theorem token {f : Token → Parse α}
    (hf : ∀ t, Reads src hi (f t) fun p a q => p.token = t → Q p a q) :
    Reads src hi (Parse.token >>= f) Q := by
  apply look (P := fun p t => p.token = t) _ hf
  intro s b s' hrun
  cases hrun
  exact ⟨rfl, rfl⟩

theorem start {f : Position → Parse α}
    (hf : ∀ o, Reads src hi (f o) fun p a q => p.token.pos = o → Q p a q) :
    Reads src hi (Parse.start >>= f) Q := by
  apply look (P := fun p o => p.token.pos = o) _ hf
  intro s b s' hrun
  cases hrun
  exact ⟨rfl, rfl⟩

theorem checkWord {word : Text} {f : Bool → Parse α}
    (hf : ∀ b, Reads src hi (f b) fun p a q => (b = true → p.token.kind = .ident) → Q p a q) :
    Reads src hi (Parse.checkWord word >>= f) Q := by
  apply look (P := fun p b => b = true → p.token.kind = .ident) _ hf
  intro s b s' hrun
  cases hrun
  refine ⟨rfl, fun hb => ?_⟩
  simp only [Bool.and_eq_true, decide_eq_true_eq] at hb
  exact hb.1

theorem markFrom
    (hf : ∀ e, Reads src hi (f (.ofSpan ⟨o, e⟩)) fun p a q => p.prevEnd = e → Q p a q) :
    Reads src hi (Parse.markFrom o >>= f) Q := by
  intro s a s' hrun hclean
  obtain ⟨hstart, hrest⟩ := hf s.prevEnd hrun hclean
  refine ⟨hstart, fun hs => ?_⟩
  obtain ⟨hs', hleads, hQ⟩ := hrest hs
  exact ⟨hs', hleads, hQ rfl⟩

theorem marked {f : Mark → α} (h : ∀ p, p.Stands src hi → Q p (f (.ofSpan ⟨o, p.prevEnd⟩)) p) :
    Reads src hi (Parse.markFrom o >>= fun m => Pure.pure (f m)) Q :=
  markFrom fun _ => pure fun p hp he => he ▸ h p hp

end Looking

section Branching

variable {Q : Place → α → Place → Prop} {x y : Parse α}

theorem ite [Decidable c] (hx : c → Reads src hi x Q) (hy : ¬ c → Reads src hi y Q) :
    Reads src hi (if c then x else y) Q := by
  split
  · next hc => exact hx hc
  · next hc => exact hy hc

theorem maybe {c : Prop} [Decidable c] {x : Parse Unit} (hx : c → Reads src hi x P)
    (hf : Reads src hi (f ()) fun q a r => ∀ p, Leads src hi p q → (c → P p () q) →
      (¬ c → q = p) → Q p a r) : Reads src hi (if c then x >>= f else f ()) Q := by
  apply ite
  · intro hc
    apply bind (hx hc)
    intro _
    exact hf.imp fun q a r _ hQ p hleads hP => hQ p hleads (fun _ => hP) fun h => absurd hc h
  · intro hc
    exact hf.imp fun q a r hleads hQ =>
      hQ q (.refl hleads.source) (fun h => absurd h hc) fun _ => rfl

theorem some_map {act : Parse β} (h : Reads src hi act fun p b q => P p (some b) q) :
    Reads src hi (some <$> act) P := by
  rw [map_eq_pure_bind]
  apply bind h
  intro b
  apply pure
  intro q _ p _ hP
  exact hP

theorem optionThen {c : Prop} [Decidable c] {act : Parse β} {f : Option β → Parse α}
    {P : Place → Option β → Place → Prop} (hx : c → Reads src hi act fun p b q => P p (some b) q)
    (hnone : ∀ p, p.Stands src hi → P p none p)
    (hf : ∀ b, Reads src hi (f b) fun q a r => ∀ p, Leads src hi p q → P p b q → Q p a r) :
    Reads src hi (if c then some <$> act >>= f else Pure.pure none >>= f) Q := by
  apply ite
  · intro hc
    exact bind (some_map (hx hc)) hf
  · intro _
    exact bind (pure hnone) hf

theorem checkThen (hx : Reads src hi x fun p a q => p.token.kind = k → Q p a q)
    (hy : Reads src hi y fun p a q => p.token.kind ≠ k → Q p a q) :
    Reads src hi (do if ← Parse.check k then x else y) Q := by
  apply check
  intro b
  apply ite
  · rintro rfl
    exact hx.imp fun p a q _ hQ hk => hQ (of_decide_eq_true hk.symm)
  · intro hb
    refine hy.imp fun p a q _ hQ hk => hQ fun hkind => hb ?_
    rw [hk, decide_eq_true hkind]

theorem failedThen (hx : Reads src hi x fun _ _ _ => True) (hy : Reads src hi y Q) :
    Reads src hi (do if ← Parse.failed then x else y) Q := by
  intro s a s' hrun hclean
  change (if (!s.faults.isEmpty || !s.lexer.faults.isEmpty) = true then x else y).run s = _ at hrun
  split at hrun
  · next hfailed =>
    obtain ⟨hstart, _⟩ := hx hrun hclean
    simp [hstart.1, hstart.2] at hfailed
  · exact hy hrun hclean

theorem stopped (hx : Reads src hi x fun p a q => p.token.kind = k → Q p a q)
    (hy : Reads src hi y fun p a q => p.token.kind ≠ k → Q p a q) :
    Reads src hi (do if (← Parse.check k) || (← Parse.failed) then x else y) Q := by
  intro s a s' hrun hclean
  change (if (decide (s.token.kind = k) || (!s.faults.isEmpty || !s.lexer.faults.isEmpty)) = true
    then x else y).run s = _ at hrun
  split at hrun
  · next hstop =>
    obtain ⟨hstart, hrest⟩ := hx hrun hclean
    refine ⟨hstart, fun hs => ?_⟩
    obtain ⟨hs', hleads, hQ⟩ := hrest hs
    simp only [hstart.1, hstart.2, List.isEmpty_nil, Bool.not_true, Bool.or_false,
      decide_eq_true_eq] at hstop
    exact ⟨hs', hleads, hQ hstop⟩
  · next hgo =>
    obtain ⟨hstart, hrest⟩ := hy hrun hclean
    refine ⟨hstart, fun hs => ?_⟩
    obtain ⟨hs', hleads, hQ⟩ := hrest hs
    simp only [Bool.or_eq_true, decide_eq_true_eq, not_or] at hgo
    exact ⟨hs', hleads, hQ hgo.1⟩

end Branching

section Primitives

theorem advance : Reads src hi Parse.advance fun p _ q => p.token.kind ≠ .eof → Passed p q := by
  intro s a s' hrun hclean
  cases hnext : s.lexer.next with
  | error c =>
    rw [run_advance_error hnext] at hrun
    cases hrun
  | ok out =>
    obtain ⟨t, l⟩ := out
    rw [run_advance hnext] at hrun
    cases hrun
    have htaken := Lexer.taken hnext
    have hlexical : s.lexer.faults = [] := List.prefix_nil.1 (hclean.2 ▸ htaken.faults)
    refine ⟨⟨hclean.1, hlexical⟩, fun hs => ?_⟩
    obtain ⟨hlexer, htoken⟩ := hs.lexer.next hnext hclean.2
    have hstop := s.token.le_stop
    have hpeek := hs.before_peek
    have hprev := hs.place.gap.1
    have hnonneg := hs.place.nonneg
    -- The end of what was passed over is the end of the token, unless that is the end token.
    have hpassed : (s.token.kind ≠ .eof ∧ (shifted s t l).prevEnd = s.token.stop ∧
        s.token.stop.offset ≤ hi) ∨
        (s.token.kind = .eof ∧ (shifted s t l).prevEnd = s.prevEnd) := by
      by_cases hk : s.token.kind = .eof
      · have hliteral := hs.place.token.ended.1 hk
        exact .inr ⟨hk, by simp [shifted, hk, show s.token.literal = [] from hliteral]⟩
      · exact .inl ⟨hk, by simp [shifted, hk], (hs.place.token.placed hk).1⟩
    have hle := hs.place.le
    -- So it does not go back, and not beyond the next token.
    have hprevEnd : s.prevEnd.offset ≤ (shifted s t l).prevEnd.offset ∧
        (shifted s t l).prevEnd.offset ≤ s.peek.pos.offset ∧
        (shifted s t l).prevEnd.offset ≤ hi := by
      change s.prevEnd.offset ≤ s.token.pos.offset at hprev
      change s.prevEnd.offset ≤ hi at hle
      rcases hpassed with ⟨_, h, _⟩ | ⟨_, h⟩
      · rw [h]
        omega
      · rw [h]
        omega
    have hplace : Place.Stands src hi (shifted s t l).place :=
      ⟨hs.peek, Int.le_trans hnonneg hprevEnd.1, ⟨hprevEnd.2.1, .refl _⟩, hprevEnd.2.2⟩
    have hsettled : s.settled.Sublist (shifted s t l).settled :=
      (htaken.comments.take s.taken).sublist.filter _
    refine ⟨⟨hplace, hs.peek2, htoken, hlexer, hs.before_peek2, ?_, ?_⟩,
      ⟨hs.place, hplace, ⟨hprevEnd.1, hsettled⟩, Int.le_trans hstop hpeek, hsettled⟩, ?_⟩
    · exact Int.le_trans hs.before_lexer htaken.start
    · exact Int.le_of_eq htaken.stop.symm
    · intro hk
      rcases hpassed with ⟨_, h, _⟩ | ⟨h, _⟩
      · exact ⟨hk, h, hsettled⟩
      · exact absurd h hk

theorem failAt (o : Position) (c : Cause) : Reads src hi (Parse.failAt o c) fun _ _ _ => False := by
  intro s a s' hrun hclean
  cases hrun
  exact absurd hclean.1 (by simp)

theorem fail (c : Cause) : Reads src hi (Parse.fail c) fun _ _ _ => False := by
  apply start
  intro o
  exact (failAt o c).imp fun _ _ _ _ h _ => h

theorem failExpecting (expected : Text) :
    Reads src hi (Parse.failExpecting expected) fun _ _ _ => False := by
  apply token
  intro t
  exact (fail _).imp fun _ _ _ _ h _ => h

theorem failing (hx : Reads src hi x fun _ _ _ => False)
    (hf : Reads src hi (f ()) fun _ _ _ => True) : Reads src hi (x >>= f) Q := by
  apply bind hx
  intro _
  exact hf.imp fun _ _ _ _ _ _ _ h => h.elim

theorem refusing [Decidable c] (hx : Reads src hi x fun _ _ _ => False)
    (hf : Reads src hi (f ()) fun p a q => ¬ c → Q p a q) :
    Reads src hi (if c then x >>= f else f ()) Q := by
  apply ite
  · intro _
    exact failing hx (hf.imp fun _ _ _ _ _ => trivial)
  · intro hc
    exact hf.imp fun _ _ _ _ h => h hc

theorem acceptThen (hk : k ≠ .eof)
    (hx : Reads src hi x fun q a r => ∀ p, Leads src hi p q → p.token.kind = k → Passed p q →
      Q p a r) (hy : Reads src hi y fun p a q => p.token.kind ≠ k → Q p a q) :
    Reads src hi (do if ← Parse.accept k then x else y) Q := by
  have heq : (do if ← Parse.accept k then x else y) =
      (do if ← Parse.check k then (do Parse.advance; x) else y) := by
    simp only [Parse.accept, bind_assoc]
    congr 1
    funext b
    cases b <;> simp
  rw [heq]
  apply checkThen
  · apply bind advance
    intro _
    refine hx.imp fun q a r _ hQ p hleads hpassed hkind => hQ p hleads hkind (hpassed ?_)
    rwa [hkind]
  · exact hy

theorem acceptOption (hk : k ≠ .eof) {act : Parse β} {f : Option β → Parse α}
    {P : Place → Option β → Place → Prop}
    (hx : Reads src hi act fun q b r => ∀ p, Leads src hi p q → P p (some b) r)
    (hnone : ∀ p, p.Stands src hi → P p none p)
    (hf : ∀ b, Reads src hi (f b) fun q a r => ∀ p, Leads src hi p q → P p b q → Q p a r) :
    Reads src hi (do if ← Parse.accept k then some <$> act >>= f else Pure.pure none >>= f) Q := by
  apply acceptThen hk
  · apply bind (some_map (P := fun q b r => ∀ p, Leads src hi p q → P p b r) hx)
    intro b
    exact (hf b).imp fun r a s _ hQ q hqr hP p hpq _ _ => hQ p (hpq.trans hqr) (hP p hpq)
  · apply bind (pure hnone)
    intro b
    exact (hf b).imp fun q a r _ hQ p hpq hP _ => hQ p hpq hP

theorem accept (hk : k ≠ .eof) : Reads src hi (Parse.accept k) fun p b q =>
    (b = true → p.token.kind = k ∧ Passed p q) ∧ (b = false → q = p) := by
  rw [← bind_pure (Parse.accept k)]
  have heq : (Parse.accept k >>= Pure.pure) =
      (do if ← Parse.accept k then return true else return false) := by
    congr 1
    funext b
    cases b <;> rfl
  rw [heq]
  apply acceptThen hk
  · exact pure fun q _ p _ hkind hpassed => ⟨fun _ => ⟨hkind, hpassed⟩, fun h => nomatch h⟩
  · exact pure fun p _ _ => ⟨fun h => (nomatch h), fun _ => rfl⟩

theorem expect (hk : k ≠ .eof) :
    Reads src hi (Parse.expect k) fun p _ q => p.token.kind = k ∧ Passed p q := by
  apply checkThen
  · exact advance.imp fun p _ q _ h hkind => ⟨hkind, h (by rwa [hkind])⟩
  · exact (failExpecting _).imp fun _ _ _ _ h => h.elim

theorem expectWord (word : Text) :
    Reads src hi (Parse.expectWord word) fun p _ q => Passed p q := by
  apply checkWord
  intro b
  apply ite
  · intro hb
    refine advance.imp fun p _ q _ h hkind => h ?_
    rw [hkind hb]
    decide
  · intro _
    exact (failExpecting _).imp fun _ _ _ _ h => h.elim

theorem withNoIn (h : Reads src hi act Q) (noIn : Bool) :
    Reads src hi (Parse.withNoIn noIn act) Q := by
  intro s a s' hrun hclean
  have hwith : (Parse.withNoIn noIn act).run s =
      act.run { s with noIn } >>= fun r => .ok (r.1, { r.2 with noIn := s.noIn }) := rfl
  rw [hwith] at hrun
  cases hact : act.run { s with noIn } with
  | error c =>
    rw [hact] at hrun
    cases hrun
  | ok out =>
    rw [hact] at hrun
    cases hrun
    obtain ⟨hstart, hrest⟩ := h hact hclean
    refine ⟨hstart, fun hs => ?_⟩
    obtain ⟨hs', hleads, hQ⟩ := hrest
      ⟨hs.place, hs.peek, hs.peek2, hs.lexer, hs.before_peek, hs.before_peek2, hs.before_lexer⟩
    exact ⟨⟨hs'.place, hs'.peek, hs'.peek2, hs'.lexer, hs'.before_peek, hs'.before_peek2,
      hs'.before_lexer⟩, hleads, hQ⟩

theorem takeComments (o : Int) : Reads src hi (Parse.takeComments o) fun p cs q =>
    q = ⟨p.token, p.prevEnd, p.settled ++ cs⟩ ∧ ∀ c ∈ cs, c.span.stop.offset ≤ o := by
  intro s cs s' hrun hclean
  have hending : ∀ ds : List Comment, ∀ c ∈ ds.take (ending o ds), c.span.stop.offset ≤ o := by
    intro ds
    induction ds with
    | nil => simp
    | cons d ds ih =>
      rw [ending]
      split
      · next hd =>
        rw [List.take_succ_cons]
        exact List.forall_mem_cons.2 ⟨hd, ih⟩
      · simp
  cases hrun
  have hplace : ∀ n, Reader.place { s with taken := s.taken + n } =
      ⟨s.token, s.prevEnd, s.settled ++
        ((s.lexer.comments.drop s.taken).take n).filter (!·.isPure)⟩ := by
    intro n
    rw [Reader.place, Reader.settled, List.take_add, List.filter_append]
    rfl
  refine ⟨hclean, fun hs => ?_⟩
  have hstands : ∀ n, Place.Stands src hi (Reader.place { s with taken := s.taken + n }) :=
    fun _ => ⟨hs.place.token, hs.place.nonneg, ⟨hs.place.gap.1, .refl _⟩, hs.place.le⟩
  refine ⟨⟨hstands _, hs.peek, hs.peek2, hs.lexer, hs.before_peek, hs.before_peek2,
    hs.before_lexer⟩, ⟨hs.place, hstands _, ?_, ?_⟩, hplace _, ?_⟩
  · rw [hplace]
    exact ⟨Int.le_refl _, List.sublist_append_left _ _⟩
  · rw [hplace]
    exact ⟨Int.le_refl _, List.sublist_append_left _ _⟩
  · exact fun c hc => hending _ c (List.mem_of_mem_filter hc)

theorem semicolon : Reads src hi Parse.semicolon fun _ _ _ => True := by
  apply acceptThen (by decide)
  · exact pure fun _ _ _ _ _ _ => trivial
  · apply token
    intro t
    apply ite
    · intro _
      exact pure fun _ _ _ _ => trivial
    · intro _
      exact (failExpecting _).imp fun _ _ _ _ h => h.elim

end Primitives
end Reads
end Parse
end LabelHooks
