import Mathlib.Data.List.Forall2
import LabelHooks.Proofs.Splitting

/-!
The same text at another place. Two lexers over the same bytes, the offsets of one `d` more than
those of the other, give the same tokens, `d` bytes apart.
-/

namespace LabelHooks
set_option autoImplicit true

open Token (Kind)

structure Cursor.Shifted (d : Int) (c c' : Cursor) : Prop where
  rest : c'.rest = c.rest
  beyond : c'.beyond = c.beyond
  offset : c'.pos.offset = c.pos.offset + d

namespace Cursor.Shifted

theorem ofText (h : p'.offset = p.offset + d) (t : Text) :
    Shifted d (.ofText t p) (.ofText t p') := by
  refine ⟨rfl, rfl, ?_⟩
  rw [Lexer.ofText_offset, Lexer.ofText_offset, h]

theorem advance (h : Shifted d c c') : Shifted d c.advance c'.advance := by
  obtain ⟨hrest, hbeyond, hoffset⟩ := h
  unfold Cursor.advance
  rw [hrest]
  split
  · refine ⟨rfl, rfl, ?_⟩
    simp only [onto_offset]
    omega
  · refine ⟨rfl, hbeyond, ?_⟩
    simp only [onto_offset]
    omega

theorem advanceBy (h : Shifted d c c') (n : Nat) : Shifted d (c.advanceBy n) (c'.advanceBy n) := by
  induction n generalizing c c' with
  | zero => exact h
  | succ n ih => exact ih h.advance

end Cursor.Shifted

structure Fault.Shifted (d : Int) (f f' : Fault) : Prop where
  cause : f'.cause = f.cause
  offset : f'.pos.offset = f.pos.offset + d

structure Token.Shifted (d : Int) (t t' : Token) : Prop where
  word : t'.word = t.word
  offset : t'.pos.offset = t.pos.offset + d

structure Lexer.Shifted (d : Int) (l l' : Lexer) : Prop where
  cursor : Cursor.Shifted d l.cursor l'.cursor
  base : l'.base = l.base + d
  prev : l'.prev = l.prev
  faults : List.Forall₂ (Fault.Shifted d) l.faults l'.faults

namespace Lexer.Shifted

variable {d : Int} {l l' : Lexer}

theorem ofFragment (h : p'.offset = p.offset + d) (t : Text) :
    Shifted d (.ofFragment t p) (.ofFragment t p') :=
  ⟨.ofText h t, h, rfl, .nil⟩

theorem atStart (h : Shifted d l l') : l'.atStart = l.atStart := by
  simp only [Lexer.atStart, h.cursor.offset, h.base, decide_eq_decide]
  omega

theorem moved (h : Shifted d l l') (n : Nat) :
    Shifted d { l with cursor := l.cursor.advanceBy n }
      { l' with cursor := l'.cursor.advanceBy n } :=
  ⟨h.cursor.advanceBy n, h.base, h.prev, h.faults⟩

theorem comment (h : Shifted d l l') (kind : CommentKind) (n : Nat) :
    Shifted d (l.comment kind n) (l'.comment kind n) :=
  ⟨h.cursor.advanceBy n, h.base, h.prev, h.faults⟩

theorem fail (h : Shifted d l l') (hp : p'.offset = p.offset + d) (c : Cause) :
    Shifted d (l.fail p c) (l'.fail p' c) :=
  ⟨h.cursor, h.base, h.prev, List.rel_append h.faults (.cons ⟨rfl, hp⟩ .nil)⟩

theorem failing (h : Shifted d l l') (cause : Option Cause) :
    Shifted d (l.failing cause) (l'.failing cause) := by
  cases cause with
  | none => exact h
  | some c => exact h.fail h.cursor.offset c

theorem blockComment (h : Shifted d l l') (t : Text) :
    Shifted d (l.blockComment t).1 (l'.blockComment t).1 ∧
      (l'.blockComment t).2 = (l.blockComment t).2 := by
  simp only [Lexer.blockComment, and_true]
  split
  · exact h.comment _ _
  · exact (h.comment _ _).fail h.cursor.offset _

theorem skipTrivia (h : Shifted d l l') (fuel : Nat) (newline : Bool) :
    Shifted d (l.skipTrivia fuel newline).1 (l'.skipTrivia fuel newline).1 ∧
      (l'.skipTrivia fuel newline).2 = (l.skipTrivia fuel newline).2 := by
  induction fuel generalizing l l' newline with
  | zero => exact ⟨h, rfl⟩
  | succ fuel ih =>
    rw [Lexer.skipTrivia, Lexer.skipTrivia, h.cursor.rest, h.atStart]
    split
    · exact ih (h.comment _ _) _
    · next t _ =>
      obtain ⟨hblock, hbroken⟩ := h.blockComment t
      simp only [hbroken]
      exact ih hblock _
    · split
      · exact ih (h.moved 1) _
      · split
        · exact ih (h.moved 1) _
        · split
          · exact ih (h.moved 3) _
          · split
            · exact ih (h.comment _ _) _
            · exact ⟨h, rfl⟩
    · exact ⟨h, rfl⟩

theorem take (h : Shifted d l l') (n : Nat) :
    (l.take n = .error .overrun ∧ l'.take n = .error .overrun) ∨
      ∃ u m m', l.take n = .ok (u, m) ∧ l'.take n = .ok (u, m') ∧ Shifted d m m' := by
  have hmoved := h.moved n
  have hbeyond : (l'.cursor.advanceBy n).beyond = (l.cursor.advanceBy n).beyond :=
    hmoved.cursor.beyond
  simp only [Lexer.take, hbeyond, h.cursor.rest]
  split
  · exact .inl ⟨rfl, rfl⟩
  · exact .inr ⟨_, _, _, rfl, rfl, hmoved⟩

theorem next (h : Shifted d l l') :
    (l.next = .error .overrun ∧ l'.next = .error .overrun) ∨
      ∃ t m t' m', l.next = .ok (t, m) ∧ l'.next = .ok (t', m') ∧ Token.Shifted d t t' ∧
        Shifted d m m' := by
  have hskip := h.skipTrivia (l.cursor.rest.length + 1) false
  rw [Lexer.next, Lexer.next, h.cursor.rest]
  generalize l.skipTrivia (l.cursor.rest.length + 1) false = out at hskip
  generalize l'.skipTrivia (l.cursor.rest.length + 1) false = out' at hskip
  obtain ⟨l₁, newline⟩ := out
  obtain ⟨l₁', newline'⟩ := out'
  obtain ⟨h₁, hnewline⟩ := hskip
  dsimp only at h₁ hnewline
  subst hnewline
  cases hrest : l₁.cursor.rest with
  | nil =>
    right
    have hrest' := h₁.cursor.rest.trans hrest
    refine ⟨⟨.eof, [], l₁.cursor.pos, newline'⟩, l₁, ⟨.eof, [], l₁'.cursor.pos, newline'⟩, l₁',
      ?_, ?_, ⟨rfl, h₁.cursor.offset⟩, h₁⟩
    · simp [scan, hrest, bind, Except.bind, pure, Except.pure]
    · simp [scan, hrest', bind, Except.bind, pure, Except.pure]
  | cons b r =>
    dsimp only
    rw [scan_eq hrest, scan_eq (h₁.cursor.rest.trans hrest), h₁.prev]
    generalize Lexeme.first l₁.prev (b :: r) = first
    obtain ⟨k, n, cause⟩ := first
    dsimp only
    rcases (h₁.failing cause).take n with ⟨ht, ht'⟩ | ⟨u, m, m', ht, ht', hm⟩
    · left
      rw [ht, ht']
      exact ⟨rfl, rfl⟩
    · right
      rw [ht, ht']
      refine ⟨_, _, _, _, rfl, rfl, ⟨rfl, h₁.cursor.offset⟩, ⟨hm.cursor, hm.base, ?_, hm.faults⟩⟩
      rfl

end Lexer.Shifted

structure Substitution.Shifted (d : Int) (a b : Substitution) : Prop where
  source : b.source = a.source
  offset : b.pos.offset = a.pos.offset + d

structure TemplateParts.Shifted (d : Int) (a b : TemplateParts) : Prop where
  quasis : b.quasis = a.quasis
  substitutions : List.Forall₂ (Substitution.Shifted d) a.substitutions b.substitutions

namespace TemplateParts

theorem split_shifted (h : Cursor.Shifted d c c') (fuel : Nat) :
    (∃ e, split fuel c = .error e ∧ split fuel c' = .error e) ∨
      ∃ a b, split fuel c = .ok a ∧ split fuel c' = .ok b ∧ Shifted d a b := by
  induction fuel generalizing c c' with
  | zero => exact .inl ⟨_, rfl, rfl⟩
  | succ fuel ih =>
    rw [split, split, h.rest, h.beyond]
    cases quasi c.rest with
    | mk n next =>
      rcases next with _ | _ | _
      case some.true =>
        have hopened := h.advanceBy (n + 2)
        dsimp only
        rw [hopened.rest]
        rcases ih (hopened.advanceBy (Lexeme.substitution (c.advanceBy (n + 2)).rest).1) with
          ⟨e, he, he'⟩ | ⟨a, b, ha, hb, hab⟩
        · rw [he, he']
          exact .inl ⟨e, rfl, rfl⟩
        · rw [ha, hb]
          refine .inr ⟨_, _, rfl, rfl, ?_, .cons ⟨rfl, hopened.offset⟩ hab.substitutions⟩
          simp [hab.quasis]
      all_goals
        dsimp only
        split
        · exact .inl ⟨_, rfl, rfl⟩
        · exact .inr ⟨_, _, rfl, rfl, rfl, .nil⟩

theorem ofRaw_shifted (h : p'.offset = p.offset + d) (raw : Text) :
    (∃ e, ofRaw raw p = .error e ∧ ofRaw raw p' = .error e) ∨
      ∃ a b, ofRaw raw p = .ok a ∧ ofRaw raw p' = .ok b ∧ Shifted d a b :=
  split_shifted (Cursor.Shifted.ofText h raw).advance _

theorem split_ne_exhausted (h : c.rest.length < fuel) : split fuel c ≠ .error .exhausted := by
  induction fuel generalizing c with
  | zero => omega
  | succ fuel ih =>
    rw [split]
    cases hquasi : quasi c.rest with
    | mk n next =>
      rcases next with _ | _ | _
      case some.true =>
        obtain ⟨hle, _⟩ := quasi_opens hquasi
        dsimp only
        generalize hclosed : (c.advanceBy (n + 2)).advanceBy
          (Lexeme.substitution (c.advanceBy (n + 2)).rest).1 = closed
        have hlt : closed.rest.length < fuel := by
          rw [← hclosed, Cursor.advanceBy_rest, Cursor.advanceBy_rest, List.length_drop,
            List.length_drop]
          omega
        have hrest := ih hlt
        intro hsplit
        cases hout : split fuel closed with
        | error e =>
          rw [hout] at hsplit hrest
          cases hsplit
          exact hrest rfl
        | ok parts =>
          rw [hout] at hsplit
          cases hsplit
      all_goals
        dsimp only
        intro hsplit
        split at hsplit <;> cases hsplit

theorem ofRaw_ne_exhausted (raw : Text) (p : Position) : ofRaw raw p ≠ .error .exhausted := by
  apply split_ne_exhausted
  have := Cursor.advanceBy_rest 1 (Cursor.ofText raw p)
  rw [show (Cursor.ofText raw p).advance.rest = raw.drop 1 from this, List.length_drop]
  omega

end TemplateParts
end LabelHooks
