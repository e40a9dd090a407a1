import LabelHooks.Proofs.Spelling

/-!
Lexers as streams of tokens. Whatever a lexer has been through, a token it gives takes its literal
off the text, and at the end it gives the end token again and again.
-/

namespace LabelHooks
set_option autoImplicit true

open Token (Kind)
open List

namespace Cursor

theorem advanceBy_rest (n : Nat) (c : Cursor) : (c.advanceBy n).rest = c.rest.drop n := by
  induction n generalizing c with
  | zero => rfl
  | succ n ih =>
    rw [advanceBy, ih, advance]
    split
    · next h => simp [h]
    · next h => rw [h, drop_succ_cons]

@[simp] theorem onto_offset (t : Text) (p : Position) : (onto t p).offset = p.offset := by
  unfold onto
  split <;> rfl

theorem advanceBy_offset (n : Nat) (c : Cursor) :
    (c.advanceBy n).pos.offset = c.pos.offset + n := by
  induction n generalizing c with
  | zero => simp [advanceBy]
  | succ n ih =>
    rw [advanceBy, ih, advance]
    split <;> simp only [onto_offset] <;> omega

theorem le_length_of_not_beyond {n : Nat} {c : Cursor} (h : (c.advanceBy n).beyond = false) :
    n ≤ c.rest.length := by
  induction n generalizing c with
  | zero => omega
  | succ n ih =>
    rw [advanceBy] at h
    have := ih h
    rw [advance] at this h
    split at this
    · next hrest =>
      simp only [hrest] at h
      rw [beyond_advanceBy rfl] at h
      cases h
    · next hrest =>
      rw [hrest, length_cons]
      exact Nat.succ_le_succ this

end Cursor

namespace Lexer

/-- The offset up to which the lexer can go: the end of the text, or one byte beyond it if the text
is the beginning of a byte order mark. -/
def limit (l : Lexer) : Int :=
  if l.atStart && l.cursor.rest = [0xEF, 0xBB] then l.base + 3
  else l.cursor.pos.offset + l.cursor.rest.length

/-- The lexer has passed over a part of the text and perhaps found faults in it. -/
structure Onward (l m : Lexer) : Prop where
  rest : m.cursor.rest.length ≤ l.cursor.rest.length
  offset : l.cursor.pos.offset ≤ m.cursor.pos.offset
  base : m.base = l.base
  faults : l.faults <+: m.faults
  comments : l.comments <+: m.comments
  limit : l.base ≤ l.cursor.pos.offset → m.limit ≤ l.limit

namespace Onward

theorem refl (l : Lexer) : Onward l l :=
  ⟨Nat.le_refl _, Int.le_refl _, rfl, prefix_rfl, prefix_rfl, fun _ => Int.le_refl _⟩

theorem trans (h : Onward l m) (h' : Onward m n) : Onward l n := by
  refine ⟨Nat.le_trans h'.rest h.rest, Int.le_trans h.offset h'.offset, h'.base.trans h.base,
    h.faults.trans h'.faults, h.comments.trans h'.comments, ?_⟩
  intro hl
  have := h.offset
  exact Int.le_trans (h'.limit (by rw [h.base]; omega)) (h.limit hl)

theorem le_limit (l : Lexer) : l.cursor.pos.offset + l.cursor.rest.length ≤ l.limit := by
  unfold Lexer.limit
  split
  · next h =>
    simp only [atStart, Bool.and_eq_true, decide_eq_true_eq] at h
    rw [h.1, h.2]
    simp
  · exact Int.le_refl _

theorem advanceBy (hm : m.cursor = l.cursor.advanceBy n) (hbase : m.base = l.base)
    (hfaults : l.faults <+: m.faults) (hcomments : l.comments <+: m.comments)
    (hn : n ≤ l.cursor.rest.length ∨ (l.atStart ∧ l.cursor.rest = [0xEF, 0xBB] ∧ n = 3)) :
    Onward l m := by
  have hrest : m.cursor.rest = l.cursor.rest.drop n := by rw [hm, Cursor.advanceBy_rest]
  have hoffset : m.cursor.pos.offset = l.cursor.pos.offset + n := by
    rw [hm, Cursor.advanceBy_offset]
  have hlength : m.cursor.rest.length = l.cursor.rest.length - n := by rw [hrest, length_drop]
  refine ⟨by omega, by omega, hbase, hfaults, hcomments, ?_⟩
  intro hl
  by_cases hz : n = 0
  · subst hz
    have hcursor : m.cursor = l.cursor := hm
    apply Int.le_of_eq
    rw [Lexer.limit, Lexer.limit, atStart, atStart, hcursor, hbase]
  · have hstart : m.atStart = false := by
      simp only [atStart, decide_eq_false_iff_not]
      omega
    rcases hn with hn | ⟨hat, hr, rfl⟩
    · have := le_limit l
      rw [Lexer.limit, hstart]
      simp only [Bool.false_and, Bool.false_eq_true, if_false]
      omega
    · rw [Lexer.limit, hstart, Lexer.limit, hat, hr]
      simp only [atStart, decide_eq_true_eq] at hat
      rw [hr] at hlength
      simp only [Bool.false_and, Bool.false_eq_true, if_false, Bool.true_and, decide_true, if_true]
      simp only [length_cons, length_nil] at hlength
      omega

theorem comment (hn : n ≤ l.cursor.rest.length) (kind : CommentKind) :
    Onward l (l.comment kind n) :=
  advanceBy rfl rfl prefix_rfl (prefix_append _ _) (.inl hn)

theorem fail (l : Lexer) (p : Position) (c : Cause) : Onward l (l.fail p c) :=
  advanceBy (n := 0) rfl rfl (prefix_append _ _) prefix_rfl (.inl (Nat.zero_le _))

theorem skipTrivia (fuel : Nat) (l : Lexer) (newline : Bool) :
    Onward l (l.skipTrivia fuel newline).1 := by
  induction fuel generalizing l newline with
  | zero => exact refl l
  | succ fuel ih =>
    have hline : ∀ t, Lexeme.lineComment t ≤ t.length := fun t => Lexeme.run_le _ t
    rw [Lexer.skipTrivia]
    split
    · next t h =>
      have hn : 2 + Lexeme.lineComment t ≤ l.cursor.rest.length := by
        have := hline t
        rw [h, length_cons, length_cons]
        omega
      exact (comment hn _).trans (ih _ _)
    · next t h =>
      have hn : (Lexeme.blockComment t).1 + 2 ≤ l.cursor.rest.length := by
        have := Lexeme.blockComment_le t
        rw [h, length_cons, length_cons]
        omega
      have hblock : Onward l (l.blockComment t).1 := by
        simp only [Lexer.blockComment]
        split
        · exact comment hn _
        · exact (comment hn _).trans (fail _ _ _)
      exact hblock.trans (ih _ _)
    · next b t _ _ h =>
      have hlength : l.cursor.rest.length = t.length + 1 := by rw [h, length_cons]
      have hone : Onward l { l with cursor := l.cursor.advance } :=
        advanceBy (n := 1) rfl rfl prefix_rfl prefix_rfl (.inl (by omega))
      split
      · exact hone.trans (ih _ _)
      · split
        · exact hone.trans (ih _ _)
        · split
          · next hmark =>
            simp only [Bool.and_eq_true, decide_eq_true_eq] at hmark
            have hthree : Onward l { l with cursor := l.cursor.advanceBy 3 } := by
              refine advanceBy (n := 3) rfl rfl prefix_rfl prefix_rfl ?_
              obtain ⟨⟨hstart, hfirst⟩, hsecond⟩ := hmark
              rcases t with _ | ⟨c, _ | ⟨_, t⟩⟩
              · cases hsecond
              · cases hsecond
                exact .inr ⟨hstart, by rw [h, hfirst], rfl⟩
              · exact .inl (by rw [hlength]; simp)
            exact hthree.trans (ih _ _)
          · split
            · have := hline t
              exact (comment (by omega) _).trans (ih _ _)
            · exact refl l
    · exact refl l

end Onward

/-- What is true of a token `t` that `l` gives, and of the lexer `m` after it. -/
structure Taken (l : Lexer) (t : Token) (m : Lexer) : Prop where
  start : l.cursor.pos.offset ≤ t.pos.offset
  stop : m.cursor.pos.offset = t.pos.offset + t.literal.length
  rest : m.cursor.rest.length + t.literal.length ≤ l.cursor.rest.length
  faults : l.faults <+: m.faults
  comments : l.comments <+: m.comments
  base : m.base = l.base
  limit : l.base ≤ l.cursor.pos.offset → m.limit ≤ l.limit
  ended : (t.kind = .eof ∧ t.literal = [] ∧ m.cursor.rest = []) ∨ (t.kind ≠ .eof ∧ t.literal ≠ [])

theorem taken {l m : Lexer} (h : l.next = .ok (t, m)) : Taken l t m := by
  have hskip := Onward.skipTrivia (l.cursor.rest.length + 1) l false
  rw [next] at h
  generalize l.skipTrivia (l.cursor.rest.length + 1) false = out at h hskip
  obtain ⟨l₁, newline⟩ := out
  dsimp only at h hskip
  cases hrest : l₁.cursor.rest with
  | nil =>
    rw [scan, hrest] at h
    cases h
    exact ⟨hskip.offset, by simp, by simpa using hskip.rest, hskip.faults, hskip.comments,
      hskip.base, hskip.limit, .inl ⟨rfl, rfl, hrest⟩⟩
  | cons b r =>
    rw [scan_eq hrest] at h
    have hk := Lexeme.first_kind_ne_eof l₁.prev b r
    have hpos := Lexeme.first_pos l₁.prev b r
    generalize Lexeme.first l₁.prev (b :: r) = first at h hk hpos
    obtain ⟨k, n, cause⟩ := first
    simp only [failing_eq, take] at h
    split at h
    · cases h
    · next hbeyond =>
      have hle : n ≤ l₁.cursor.rest.length :=
        Cursor.le_length_of_not_beyond (by simpa using hbeyond)
      have hlen : (l₁.cursor.rest.take n).length = n := by
        rw [length_take, Nat.min_eq_left hle]
      have hmove : Onward l₁ m := by
        cases h
        exact .advanceBy rfl rfl (prefix_append _ _) prefix_rfl (.inl hle)
      cases h
      refine ⟨hskip.offset, ?_, ?_, (hskip.trans hmove).faults, (hskip.trans hmove).comments,
        (hskip.trans hmove).base, (hskip.trans hmove).limit, .inr ⟨hk, ?_⟩⟩
      · dsimp only
        rw [Cursor.advanceBy_offset, hlen]
      · dsimp only
        rw [Cursor.advanceBy_rest, hlen, length_drop, Nat.sub_add_cancel hle]
        exact hskip.rest
      · intro hnil
        dsimp only at hnil hpos
        rw [hnil, length_nil] at hlen
        omega

theorem next_ended {l : Lexer} (h : l.cursor.rest = []) :
    l.next = .ok (⟨.eof, [], l.cursor.pos, false⟩, l) := by
  have hskip : l.skipTrivia (l.cursor.rest.length + 1) false = (l, false) := by
    rw [skipTrivia, h]
  rw [next, hskip]
  simp only [scan, h, bind, Except.bind, pure, Except.pure, if_true]

end Lexer
end LabelHooks
