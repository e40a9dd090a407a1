import Mathlib
import LabelHooks.Proofs.Marking
import LabelHooks.Proofs.Shifting

/-!
What is left of a text when places matter only up to a view of the offsets. A lexer feeds tokens
to its reader; the same text at another place, seen through another view, can give the same feed.
-/

namespace LabelHooks
set_option autoImplicit true

open Token (Kind)

def Position.seen (v : Int → Int) (p : Position) : Position := ⟨0, 0, v p.offset⟩

def Mark.seen (v : Int → Int) (m : Mark) : Mark := .ofSpan ⟨m.span.start.seen v, .none⟩

def Token.seen (v : Int → Int) (t : Token) : Token := { t with pos := t.pos.seen v }

def Cause.seen (v : Int → Int) : Cause → Cause
  | .unexpectedToken found expected => .unexpectedToken (found.seen v) expected
  | .unexpectedOperand found => .unexpectedOperand (found.seen v)
  | c => c

def Fault.seen (v : Int → Int) (f : Fault) : Fault := ⟨f.pos.seen v, f.cause.seen v⟩

def Cause.bare : Cause → Bool
  | .unexpectedToken _ _ | .unexpectedOperand _ => false
  | _ => true

theorem Cause.seen_of_bare (c : Cause) (h : c.bare = true) (v : Int → Int) : c.seen v = c := by
  cases c <;> first | rfl | cases h

theorem Cause.bare_of_lexical {c : Cause} (h : c.isLexical = true) : c.bare = true := by
  cases c <;> first | rfl | cases h

def Straight (v : Int → Int) (a b : Int) : Prop := ∀ o, a ≤ o → o ≤ b → v o = v a + (o - a)

theorem Straight.sub (h : Straight v a b) (ha : a ≤ a') (hb : b' ≤ b) : Straight v a' b' := by
  intro o ho ho'
  rw [h o (by omega) (by omega), h a' ha (by omega)]
  omega

namespace Token

/-- The end token is the one without text, and the view is straight on the substitutions of a
template literal. -/
structure Sound (v : Int → Int) (t : Token) : Prop where
  ended : t.kind = .eof ↔ t.literal = []
  inside : t.kind = .template → ∀ parts, TemplateParts.ofRaw t.literal t.pos = .ok parts →
    ∀ sub ∈ parts.substitutions, t.pos.offset ≤ sub.pos.offset ∧
      Straight v t.pos.offset (sub.pos.offset + sub.source.reach)

theorem sound_of_straight {v : Int → Int} {t : Token} (hended : t.kind = .eof ↔ t.literal = [])
    (h : Straight v t.pos.offset (t.pos.offset + t.literal.length)) : t.Sound v := by
  refine ⟨hended, ?_⟩
  intro _ parts hparts sub hsub
  obtain ⟨i, _, hi, hreach, _⟩ := TemplateParts.ofRaw_inside hparts hsub
  exact ⟨by omega, h.sub (Int.le_refl _) (by omega)⟩

end Token

namespace Lexer

/-- The tokens that a lexer gives, each with the faults after it, and the end token that it gives
from then on, unless an escape reaches past the text. -/
inductive Shows (v : Int → Int) : Lexer → List (Token × List Fault) → Option Token → Prop where
  | overrun {l : Lexer} : l.next = .error .overrun → Shows v l [] none
  | done {l : Lexer} {t : Token} : l.next = .ok (t, l) → t.Sound v →
    Shows v l [] (some (t.seen v))
  | token {l m : Lexer} {t : Token} : l.next = .ok (t, m) → t.Sound v → Shows v m ts e →
    Shows v l ((t.seen v, m.faults.map (Fault.seen v)) :: ts) e

def feedWeight (ts : List (Token × List Fault)) : Nat := (ts.map (·.1.literal.length)).sum

theorem Shows.done_of_ended (h : l.cursor.rest = []) :
    Shows v l [] (some ⟨.eof, [], l.cursor.pos.seen v, false⟩) :=
  .done (next_ended h) ⟨by simp, fun hk => nomatch hk⟩

end Lexer

namespace Lexeme

theorem first_cause_isLexical (h : first prev t = (k, n, some c)) : c.isLexical = true := by
  cases t with
  | nil => cases h
  | cons b t =>
    rw [first] at h
    split at h
    · cases h
    · split at h
      · cases h
      · split at h
        · split at h <;> cases h
          rfl
        · split at h
          · split at h <;> cases h
            rfl
          · split at h
            · split at h <;> cases h
              rfl
            · split at h <;> cases h
              rfl

end Lexeme

namespace Lexer

def Behind (l : Lexer) : Prop :=
  ∀ f ∈ l.faults, l.base ≤ f.pos.offset ∧ f.pos.offset ≤ l.cursor.pos.offset ∧ f.cause.isLexical

namespace Behind

theorem move {l m : Lexer} (h : l.Behind) (hfaults : m.faults = l.faults) (hbase : m.base = l.base)
    (hoffset : l.cursor.pos.offset ≤ m.cursor.pos.offset) : m.Behind := by
  intro f hf
  rw [hfaults] at hf
  obtain ⟨h₁, h₂, h₃⟩ := h f hf
  exact ⟨by omega, by omega, h₃⟩

theorem advanceBy {l : Lexer} (h : l.Behind) (n : Nat) :
    Behind { l with cursor := l.cursor.advanceBy n } :=
  h.move rfl rfl (by rw [Cursor.advanceBy_offset]; omega)

theorem comment {l : Lexer} (h : l.Behind) (kind : CommentKind) (n : Nat) :
    (l.comment kind n).Behind :=
  h.move rfl rfl (by rw [Lexer.comment, Cursor.advanceBy_offset]; omega)

theorem fail {l : Lexer} (h : l.Behind) (hbase : l.base ≤ p.offset)
    (hp : p.offset ≤ l.cursor.pos.offset) (hc : c.isLexical) : (l.fail p c).Behind := by
  intro f hf
  rcases List.mem_append.1 hf with hf | hf
  · exact h f hf
  · rw [List.mem_singleton] at hf
    subst hf
    exact ⟨hbase, hp, hc⟩

theorem skipTrivia (fuel : Nat) {l : Lexer} (newline : Bool) (h : l.Behind)
    (hbase : l.base ≤ l.cursor.pos.offset) : (l.skipTrivia fuel newline).1.Behind := by
  induction fuel generalizing l newline with
  | zero => exact h
  | succ fuel ih =>
    have hmoved : ∀ n, l.base ≤ (l.cursor.advanceBy n).pos.offset := by
      intro n
      rw [Cursor.advanceBy_offset]
      omega
    rw [Lexer.skipTrivia]
    split
    · exact ih _ (h.comment _ _) (hmoved _)
    · next t _ =>
      simp only [blockComment]
      split
      · exact ih _ (h.comment _ _) (hmoved _)
      · refine ih _ ((h.comment _ _).fail hbase ?_ rfl) (hmoved _)
        rw [Lexer.comment, Cursor.advanceBy_offset]
        omega
    · split
      · exact ih _ (h.advanceBy 1) (hmoved 1)
      · split
        · exact ih _ (h.advanceBy 1) (hmoved 1)
        · split
          · exact ih _ (h.advanceBy 3) (hmoved 3)
          · split
            · exact ih _ (h.comment _ _) (hmoved _)
            · exact h
    · exact h

theorem next {l m : Lexer} (h : l.Behind) (hbase : l.base ≤ l.cursor.pos.offset)
    (hnext : l.next = .ok (t, m)) : m.Behind := by
  have hskip := skipTrivia (l.cursor.rest.length + 1) false h hbase
  have honward := Onward.skipTrivia (l.cursor.rest.length + 1) l false
  rw [Lexer.next] at hnext
  generalize l.skipTrivia (l.cursor.rest.length + 1) false = out at hnext hskip honward
  obtain ⟨l₁, newline⟩ := out
  dsimp only at hnext hskip honward
  have hbase₁ : l₁.base ≤ l₁.cursor.pos.offset := by
    have := honward.offset
    rw [honward.base]
    omega
  cases hrest : l₁.cursor.rest with
  | nil =>
    rw [scan, hrest] at hnext
    cases hnext
    exact hskip
  | cons b r =>
    rw [scan_eq hrest] at hnext
    have hfail : (l₁.failing (Lexeme.first l₁.prev (b :: r)).2.2).Behind := by
      cases hcause : (Lexeme.first l₁.prev (b :: r)).2.2 with
      | none => exact hskip
      | some c =>
        have hfirst : Lexeme.first l₁.prev (b :: r) =
            ((Lexeme.first l₁.prev (b :: r)).1, (Lexeme.first l₁.prev (b :: r)).2.1, some c) := by
          rw [← hcause]
        exact hskip.fail hbase₁ (Int.le_refl _) (Lexeme.first_cause_isLexical hfirst)
    generalize Lexeme.first l₁.prev (b :: r) = first at hnext hfail
    obtain ⟨k, n, cause⟩ := first
    simp only [take] at hnext
    split at hnext
    · cases hnext
    · cases hnext
      exact (hfail.advanceBy n).move rfl rfl (Int.le_refl _)

end Behind

theorem Shifted.faults_seen (h : Shifted d l l') (hv : ∀ o, a ≤ o → o ≤ b → v' (o + d) = v o)
    (hl : l.Behind) (ha : a ≤ l.base) (hb : l.cursor.pos.offset ≤ b) :
    l'.faults.map (Fault.seen v') = l.faults.map (Fault.seen v) := by
  have hfaults := h.faults
  unfold Behind at hl
  generalize l.faults = fs at hfaults hl
  generalize l'.faults = fs' at hfaults
  induction hfaults with
  | nil => rfl
  | @cons f f' fs fs' hf _ ih =>
    obtain ⟨h₁, h₂, h₃⟩ := hl f (.head _)
    rw [List.map_cons, List.map_cons, ih fun g hg => hl g (.tail _ hg)]
    have hseen := hv f.pos.offset (by omega) (by omega)
    rw [Fault.seen, Fault.seen, hf.cause, Cause.seen_of_bare _ (Cause.bare_of_lexical h₃),
      Cause.seen_of_bare _ (Cause.bare_of_lexical h₃),
      Position.seen, Position.seen, hf.offset, hseen]

theorem Shifted.exists_shows {v v' : Int → Int} {d a b : Int} (h : Shifted d l l')
    (hv : ∀ o, a ≤ o → o ≤ b → v' (o + d) = v o) (hs : Straight v a b) (hl : l.Behind)
    (ha : a ≤ l.base) (hbase : l.base ≤ l.cursor.pos.offset) (hb : l.limit ≤ b) :
    ∃ ts e, Shows v l ts e ∧ Shows v' l' ts e ∧ feedWeight ts ≤ l.cursor.rest.length := by
  induction hn : l.cursor.rest.length using Nat.strongRecOn generalizing l l' with
  | ind n ih =>
    subst hn
    rcases h.next with ⟨hnext, hnext'⟩ | ⟨t, m, t', m', hnext, hnext', ht, hm⟩
    · exact ⟨[], none, .overrun hnext, .overrun hnext', Nat.zero_le _⟩
    · have htaken := taken hnext
      have hlimit : m.limit ≤ b := Int.le_trans (htaken.limit hbase) hb
      have hmlimit := Onward.le_limit m
      have hstart := htaken.start
      have hstop := htaken.stop
      have hmbase : m.base ≤ m.cursor.pos.offset := by
        rw [htaken.base]
        omega
      have hmbehind := hl.next hbase hnext
      have hword : t'.kind = t.kind ∧ t'.literal = t.literal ∧
          t'.newlineBefore = t.newlineBefore := by
        have := ht.word
        simp only [Token.word, Word.mk.injEq] at this
        exact this
      obtain ⟨hkind, hliteral, hnewline⟩ := hword
      have hended : t.kind = .eof ↔ t.literal = [] := by
        rcases htaken.ended with hend | hend
        · simp [hend.1, hend.2.1]
        · simp [hend.1, hend.2]
      have hstraight : Straight v t.pos.offset (t.pos.offset + t.literal.length) :=
        hs.sub (by omega) (by omega)
      have hstraight' : Straight v' t'.pos.offset (t'.pos.offset + t'.literal.length) := by
        intro o ho ho'
        rw [hliteral, ht.offset] at ho'
        rw [ht.offset] at ho ⊢
        have hshift := hv (o - d) (by omega) (by omega)
        rw [Int.sub_add_cancel] at hshift
        rw [hshift, hv _ (by omega) (by omega), hstraight (o - d) (by omega) (by omega)]
        omega
      have hsound := Token.sound_of_straight hended hstraight
      have hsound' : t'.Sound v' :=
        Token.sound_of_straight (by rw [hkind, hliteral, hended]) hstraight'
      have hseen : t'.seen v' = t.seen v := by
        rw [Token.seen, Token.seen, Position.seen, Position.seen, ht.offset,
          hv _ (by omega) (by omega), hkind, hliteral, hnewline]
      have hfaults := hm.faults_seen hv hmbehind (by rw [htaken.base]; exact ha) (by omega)
      -- After the token: the end again and again, or fewer bytes than before.
      have hrest : ∃ ts e, Shows v m ts e ∧ Shows v' m' ts e ∧
          feedWeight ts ≤ m.cursor.rest.length := by
        rcases htaken.ended with ⟨_, _, hmrest⟩ | ⟨_, hne⟩
        · have hpos : m'.cursor.pos.seen v' = m.cursor.pos.seen v := by
            rw [Position.seen, Position.seen, hm.cursor.offset, hv _ (by omega) (by omega)]
          refine ⟨[], _, .done_of_ended hmrest, ?_, Nat.zero_le _⟩
          rw [← hpos]
          exact .done_of_ended (hm.cursor.rest.trans hmrest)
        · have hlt : m.cursor.rest.length < l.cursor.rest.length := by
            have := htaken.rest
            have := List.length_pos_iff.2 hne
            omega
          exact ih _ hlt hm hmbehind (by rw [htaken.base]; exact ha) hmbase hlimit rfl
      obtain ⟨ts, e, hshows, hshows', hweight⟩ := hrest
      refine ⟨(t.seen v, m.faults.map (Fault.seen v)) :: ts, e, .token hnext hsound hshows, ?_, ?_⟩
      · rw [← hseen, ← hfaults]
        exact .token hnext' hsound' hshows'
      · have := htaken.rest
        have hcons : feedWeight ((t.seen v, m.faults.map (Fault.seen v)) :: ts) =
            t.literal.length + feedWeight ts := by
          simp [feedWeight, Token.seen]
        omega

theorem Shows.of_allFrom (h : allFrom fuel l = .ok (ts, m)) (hm : m.faults = [])
    (hts : ∀ t ∈ ts, t.Sound v) : l.faults = [] ∧ Shows v l (ts.map fun t => (t.seen v, []))
      (ts.getLast?.map fun t => { t.seen v with newlineBefore := false }) := by
  induction fuel generalizing l ts with
  | zero => cases h
  | succ fuel ih =>
    rw [allFrom] at h
    cases hnext : l.next with
    | error c =>
      rw [hnext] at h
      cases h
    | ok out =>
      obtain ⟨t, l₁⟩ := out
      have htaken := taken hnext
      rw [hnext] at h
      simp only [bind, Except.bind] at h
      split at h
      · next hk =>
        cases h
        have hend : t.literal = [] ∧ m.cursor.rest = [] := by
          rcases htaken.ended with hend | hend
          · exact hend.2
          · exact absurd hk hend.1
        have hpos : m.cursor.pos.offset = t.pos.offset := by
          rw [htaken.stop, hend.1]
          simp
        refine ⟨List.prefix_nil.1 (hm ▸ htaken.faults), ?_⟩
        have hdone := Shows.done_of_ended (v := v) hend.2
        rw [Position.seen, hpos] at hdone
        have htoken := Shows.token hnext (hts t (.head _)) hdone
        rw [hm] at htoken
        simpa [Token.seen, Position.seen, hk, hend.1] using htoken
      · next hk =>
        cases hall : allFrom fuel l₁ with
        | error c =>
          rw [hall] at h
          cases h
        | ok out =>
          obtain ⟨ts', m'⟩ := out
          rw [hall] at h
          cases h
          obtain ⟨hl₁, hshows⟩ := ih hall fun t ht => hts t (.tail _ ht)
          have hne : ts' ≠ [] := by
            rintro rfl
            cases fuel with
            | zero => cases hall
            | succ fuel =>
              rw [allFrom] at hall
              cases hl₂ : l₁.next with
              | error c =>
                rw [hl₂] at hall
                cases hall
              | ok out =>
                rw [hl₂] at hall
                simp only [bind, Except.bind] at hall
                split at hall
                · cases hall
                · split at hall <;> cases hall
          refine ⟨List.prefix_nil.1 (hl₁ ▸ htaken.faults), ?_⟩
          have htoken := Shows.token hnext (hts t (.head _)) hshows
          rw [hl₁] at htoken
          obtain ⟨u, us, rfl⟩ := List.exists_cons_of_ne_nil hne
          simpa [List.getLast?_cons_cons] using htoken

end Lexer
end LabelHooks
