import LabelHooks.Proofs.Tiling
import LabelHooks.Proofs.Splitting

/-!
Where things stand in a source. A lexer reads the source or a substitution inside it, to any depth;
its tokens stand in the source where their positions say, except that the line is one too large in
a substitution that starts with a line break.
-/

namespace LabelHooks
set_option autoImplicit true

open Token (Kind)
open List

namespace Text

/-- A substitution that starts with a line break opens at offset `i`, and the brace that closes it
stands at offset `m` or after it. -/
def Breaks (src : Text) (m : Int) (i : Nat) : Prop :=
  [0x24, 0x7B, newline] <+: src.drop i ∧
    (Lexeme.substitution (src.drop (i + 2))).2 = true ∧
    m < i + 2 + (Lexeme.substitution (src.drop (i + 2))).1
deriving Decidable

/-- The substitutions that start with a line break, open before offset `n` and are still open at
offset `m`. -/
def breaks (src : Text) (n : Nat) (m : Int) : Nat :=
  (List.range n).countP fun i => src.Breaks m i

theorem breaks_mono (src : Text) (h : k ≤ n) : src.breaks k m ≤ src.breaks n m :=
  (range_sublist.2 h).countP_le

theorem breaks_anti (src : Text) (n : Nat) {m m' : Int} (h : m' ≤ m) :
    src.breaks n m ≤ src.breaks n m' := by
  refine countP_mono_left fun i _ hi => ?_
  obtain ⟨hopen, hclosed, hlt⟩ := of_decide_eq_true hi
  exact decide_eq_true ⟨hopen, hclosed, Int.lt_of_le_of_lt h hlt⟩

theorem breaks_lt {src : Text} (h : src.Breaks m k) (hk : k < n) :
    src.breaks k m < src.breaks n m := by
  apply Nat.lt_of_lt_of_le _ (breaks_mono _ hk)
  rw [breaks, breaks, range_succ, countP_append, countP_singleton, if_pos (decide_eq_true h)]
  exact Nat.lt_succ_self _

end Text

namespace Position

theorem after_column_congr {p q : Position} (h : p.column = q.column) (u : Text) :
    (p.after u).column = (q.after u).column := by
  induction u generalizing p q with
  | nil => exact h
  | cons b u ih =>
    apply ih
    unfold step
    split
    · rfl
    · exact congrArg (· + 1) h

/-- The position after `u` in a text that ends at `hi`: the source, or a substitution of it. -/
structure Stands (src : Text) (hi : Int) (u : Text) (p : Position) : Prop where
  offset : p.offset = u.length
  column : p.column = (first.after u).column
  le_line : (first.after u).line ≤ p.line
  line_le : p.line ≤ (first.after u).line + src.breaks u.length hi

theorem stands_first (src : Text) (hi : Int) : first.Stands src hi [] :=
  ⟨rfl, rfl, Int.le_refl _, Int.le_add_of_nonneg_right (Int.natCast_nonneg _)⟩

theorem Stands.inner {src u : Text} {hi hi' : Int} {p : Position} (h : p.Stands src hi u)
    (hhi : hi' ≤ hi) : p.Stands src hi' u where
  __ := h
  line_le := Int.le_trans h.line_le
    (Int.add_le_add_left (Int.ofNat_le.2 (src.breaks_anti u.length hhi)) _)

theorem Stands.after {src u : Text} {hi : Int} {p : Position} (h : p.Stands src hi u) (v : Text) :
    (p.after v).Stands src hi (u ++ v) := by
  have hle := h.le_line
  have hline := h.line_le
  have hmono := src.breaks_mono (m := hi) (prefix_append u v).length_le
  refine ⟨?_, ?_, ?_, ?_⟩
  · rw [after_offset, h.offset, length_append]
    omega
  · rw [after_append]
    exact after_column_congr h.column v
  · rw [after_append, after_line p, after_line (first.after u)]
    omega
  · rw [after_append, after_line p, after_line (first.after u)]
    omega

end Position

namespace Token

/-- A token of the source that ends at `hi` or before; of the end token no place is known. -/
structure Stands (src : Text) (hi : Int) (t : Token) : Prop where
  ended : t.kind = .eof ↔ t.literal = []
  closed : t.kind = .template → Lexeme.template t.literal.tail = (t.literal.length - 1, true)
  reserved : t.kind ∈ Kind.keywords → t.literal = t.kind.text
  placed : t.kind ≠ .eof → t.stop.offset ≤ hi ∧
    ∃ u v, src = u ++ (t.literal ++ v) ∧ t.pos.Stands src hi u

theorem Stands.start {t : Token} (h : t.Stands src hi) (hk : t.kind ≠ .eof) :
    ∃ u v, src = u ++ (t.literal ++ v) ∧ t.pos.Stands src u.length u := by
  obtain ⟨hstop, u, v, hsrc, hu⟩ := h.placed hk
  refine ⟨u, v, hsrc, hu.inner ?_⟩
  simp only [Token.stop, hu.offset] at hstop
  omega

theorem stands_eof (src : Text) (hi : Int) (p : Position) (b : Bool) :
    Stands src hi ⟨.eof, [], p, b⟩ :=
  ⟨by simp, (nomatch ·), fun h => absurd h (show Kind.eof ∉ Kind.keywords by decide),
    fun h => absurd rfl h⟩

end Token

theorem Lexeme.IsLexeme.eq_text {prev} (h : IsLexeme prev k u r) (hk : k ∈ Kind.keywords) :
    u = k.text := by
  cases h with
  | word =>
    rename_i b u _ _ _
    revert hk
    unfold Kind.ofWord
    cases hfind : Kind.keywords.find? fun k => k.text == b :: u with
    | none => exact fun hk => absurd hk (by decide)
    | some k =>
      intro _
      have htext : (k.text == b :: u) = true :=
        find?_some (p := fun k : Kind => k.text == b :: u) hfind
      exact (eq_of_beq htext).symm
  | punctuator hmem =>
    have hdisjoint : ∀ k ∈ Kind.punctuators, k ∉ Kind.keywords := by decide
    exact absurd hk (hdisjoint k hmem)
  | number | string | template | regexp => exact absurd hk (by decide)

namespace Lexer

def Stands (src : Text) (hi : Int) (l : Lexer) : Prop :=
  l.base ≤ l.cursor.pos.offset ∧ (l.cursor.rest = [] ∨
    ∃ u t w p, src = u ++ (t ++ w) ∧ l.cursor = .ofText t p ∧ p.Stands src hi u ∧
      (u ++ t).length ≤ hi)

theorem stands_ofText (src : Text) : (ofText src).Stands src src.length := by
  refine ⟨by simp [ofText, ofFragment], .inr ⟨[], src, [], .first, by simp, rfl,
    Position.stands_first src _, by simp⟩⟩

theorem Stands.of_skips {src : Text} {hi : Int} {l m : Lexer} (c : Cursor)
    (hskips : Skips { l with cursor := c } t p false
      (l.skipTrivia (l.cursor.rest.length + 1) false)) (hsrc : src = u ++ (t ++ w))
    (hp : p.Stands src hi u) (hhi : (u ++ t).length ≤ hi) (hbase : l.base ≤ p.offset)
    (hnext : l.next = .ok (x, m)) (hm : m.faults = []) : m.Stands src hi ∧ x.Stands src hi := by
  obtain ⟨g, cs, fs, r, rfl, hg, hr, ⟨rfl, h⟩ | ⟨_, h⟩ | ⟨y, v, k, cause, rfl, hy, hfirst, h⟩⟩ :=
    next_eq c hskips
  · rw [h] at hnext
    cases hnext
    have hoffset : l.base ≤ (p.after g).offset := by
      rw [Position.after_offset]
      omega
    exact ⟨⟨by simpa using hoffset, .inl rfl⟩, Token.stands_eof ..⟩
  · rw [h] at hnext
    cases hnext
  · rw [h] at hnext
    cases hnext
    simp only [append_eq_nil_iff] at hm
    obtain ⟨_, hcause⟩ := hm
    cases cause with
    | some cause => cases hcause
    | none =>
      have hlexeme := Lexeme.isLexeme_of_first hy hfirst
      have hstart := hp.after g
      have hstop := hstart.after y
      have hoffset := hp.offset
      simp only [length_append] at hhi
      have hsplit : src = (u ++ g) ++ (y ++ (v ++ w)) := by
        rw [hsrc]
        simp only [append_assoc]
      refine ⟨⟨?_, .inr ⟨u ++ g ++ y, v, w, _, ?_, rfl, hstop, ?_⟩⟩, ⟨?_, ?_, ?_, ?_⟩⟩
      · rw [ofText_offset, Position.after_offset, Position.after_offset]
        dsimp only
        omega
      · rw [hsplit]
        simp only [append_assoc]
      · simp only [length_append]
        omega
      · exact ⟨fun hk => absurd hk hlexeme.kind_ne_eof, fun hnil => absurd hnil hy⟩
      · rintro rfl
        exact hlexeme.template_closed
      · exact hlexeme.eq_text
      · intro _
        refine ⟨?_, u ++ g, v ++ w, hsplit, hstart⟩
        simp only [Token.stop, Position.after_offset]
        omega

theorem skipTrivia_mark {l : Lexer} (hrest : l.cursor.rest = [0xEF, 0xBB])
    (hstart : l.atStart = true) : l.skipTrivia (l.cursor.rest.length + 1) false =
      ({ l with cursor := l.cursor.advanceBy 3 }, false) := by
  have hspace : Lexeme.isSpace 0xEF = false := by decide
  have hnewline : (0xEF : UInt8) ≠ Text.newline := by decide
  have hend : (l.cursor.advanceBy 3).rest = [] := by
    rw [Cursor.advanceBy_rest, hrest]
    rfl
  rw [hrest, length_cons, skipTrivia]
  simp only [hrest]
  simp [hstart, hspace, hnewline, skipTrivia, hend]

theorem Stands.next {src : Text} {hi : Int} {l m : Lexer} (h : l.Stands src hi)
    (hnext : l.next = .ok (x, m)) (hm : m.faults = []) : m.Stands src hi ∧ x.Stands src hi := by
  obtain ⟨hbase, hnil | ⟨u, t, w, p, hsrc, hcursor, hp, hhi⟩⟩ := h
  · rw [next_ended hnil] at hnext
    cases hnext
    exact ⟨⟨hbase, .inl hnil⟩, Token.stands_eof ..⟩
  · have hoffset : l.cursor.pos.offset = p.offset := by rw [hcursor, ofText_offset]
    have hrest : l.cursor.rest = t := by rw [hcursor, ofText_rest]
    cases hmark : l.atMark with
    | false =>
      have hskips := skips (t.length + 1) false hcursor (Nat.lt_succ_self _) (by omega) hmark
      rw [← hrest] at hskips
      exact of_skips l.cursor hskips (by rw [hsrc, hrest]) hp (by rw [hrest]; exact hhi)
        (by omega) hnext hm
    | true =>
      -- A byte order mark is passed over, if it is there as a whole.
      simp only [atMark, Bool.and_eq_true, decide_eq_true_eq, hrest] at hmark
      obtain ⟨⟨hstart, hfirst⟩, hsecond⟩ := hmark
      have hat : l.base = p.offset := by
        simp only [atStart, decide_eq_true_eq] at hstart
        omega
      rcases t with _ | ⟨b₁, _ | ⟨b₂, _ | ⟨b, t⟩⟩⟩
      · cases hfirst
      · cases hsecond
      · cases hfirst
        cases hsecond
        have hend : (l.cursor.advanceBy 3).rest = [] := by
          rw [Cursor.advanceBy_rest, hrest]
          rfl
        rw [Lexer.next, skipTrivia_mark hrest hstart] at hnext
        simp only [scan, hend] at hnext
        cases hnext
        refine ⟨⟨?_, .inl hend⟩, Token.stands_eof ..⟩
        simp only [Cursor.advanceBy_offset]
        omega
      · cases hfirst
        cases hsecond
        have hmarked := hp.after [0xEF, 0xBB, b]
        refine of_skips _ (skips_mark hcursor hat) (u := u ++ [0xEF, 0xBB, b]) (w := w) ?_ hmarked
          ?_ ?_ hnext hm
        · rw [hsrc]
          simp
        · simpa using hhi
        · rw [Position.after_offset]
          omega

end Lexer

namespace TemplateParts

open Lexeme (frames more)

theorem quasi_text (h : quasi t = (n, some true)) : [0x24, 0x7B] <+: t.drop n := by
  fun_induction quasi t generalizing n with
  | case1 | case2 | case5 => cases h
  | case3 c t ih =>
    cases hq : quasi t with
    | mk k s =>
      rw [hq] at h
      cases h
      exact ih hq
  | case4 t =>
    cases h
    simp
  | case6 b t h₁ h₂ h₃ hb ih =>
    cases hq : quasi t with
    | mk k s =>
      rw [hq] at h
      cases h
      exact ih hq

theorem length_quasis (h : split fuel c = .ok parts) :
    parts.quasis.length = parts.substitutions.length + 1 := by
  induction fuel generalizing c parts with
  | zero => cases h
  | succ fuel ih =>
    rw [split] at h
    cases hquasi : quasi c.rest with
    | mk n next =>
      rw [hquasi] at h
      rcases next with _ | _ | _
      case some.true =>
        dsimp only at h
        generalize hcursor : (c.advanceBy (n + 2)).advanceBy _ = closed at h
        cases hsplit : split fuel closed with
        | error e =>
          rw [hsplit] at h
          cases h
        | ok parts' =>
          rw [hsplit] at h
          cases h
          simp only [length_cons, ih hsplit]
      all_goals
        dsimp only at h
        split at h
        · cases h
        · cases h
          rfl

end TemplateParts

def Substitution.Row (src : Text) (hi : Int) : Int → List Substitution → Prop
  | lo, [] => lo ≤ hi
  | lo, sub :: subs => lo ≤ sub.pos.offset ∧
    (Lexer.ofFragment sub.source sub.pos).Stands src (sub.pos.offset + sub.source.length) ∧
    Row src hi (sub.pos.offset + sub.source.length) subs

theorem Substitution.Row.mono (h : Row src hi lo subs) (hlo : lo' ≤ lo) (hhi : hi ≤ hi') :
    Row src hi' lo' subs := by
  induction subs generalizing lo lo' with
  | nil => exact Int.le_trans hlo (Int.le_trans h hhi)
  | cons sub subs ih => exact ⟨Int.le_trans hlo h.1, h.2.1, ih h.2.2 (Int.le_refl _)⟩

namespace Lexer

/-- A lexer for the source of a substitution stands in the source. A line break at its start has
been counted once already. -/
theorem stands_ofFragment {src u t w : Text} {hi : Int} {p : Position} {n : Nat}
    (hsrc : src = u ++ ([0x24, 0x7B] ++ (t ++ w)))
    (hclosed : Lexeme.substitution (t ++ w) = (n + 1, true)) (hp : p.Stands src hi u)
    (hhi : (u ++ [0x24, 0x7B]).length + (t.take n).length ≤ hi) :
    (ofFragment (t.take n) (Cursor.ofText t (p.after [0x24, 0x7B])).pos).Stands src
      ((u ++ [0x24, 0x7B]).length + (t.take n).length) := by
  refine ⟨by simp [ofFragment], ?_⟩
  replace hp := hp.inner hhi
  rcases n with _ | n
  · exact .inl rfl
  rcases t with _ | ⟨b, r⟩
  · exact .inl (by simp [ofFragment])
  · right
    have hp' := hp.after [0x24, 0x7B]
    have hsplit : src = (u ++ [0x24, 0x7B]) ++
        ((b :: r).take (n + 1) ++ ((b :: r).drop (n + 1) ++ w)) := by
      rw [← append_assoc ((b :: r).take _), take_append_drop, append_assoc, hsrc]
    have hend : (((u ++ [0x24, 0x7B]) ++ (b :: r).take (n + 1)).length : Int) ≤
        (u ++ [0x24, 0x7B]).length + ((b :: r).take (n + 1)).length :=
      Int.le_of_eq (by rw [length_append, Int.natCast_add])
    by_cases hb : b = Text.newline
    · have hle := hp'.le_line
      have hopen : src.Breaks ((u ++ [0x24, 0x7B]).length + ((b :: r).take (n + 1)).length)
          u.length := by
        have hdrop : src.drop (u.length + 2) = (b :: r) ++ w := by
          rw [hsrc, ← drop_drop, drop_left]
          rfl
        refine ⟨?_, ?_, ?_⟩
        · rw [hsrc, drop_left, hb]
          simp
        · rw [hdrop, hclosed]
        · rw [hdrop, hclosed, length_append]
          have := length_take_le (n + 1) (b :: r)
          simp only [length_cons, length_nil]
          omega
      have hline : (p.after [0x24, 0x7B]).line + 1 ≤
          (Position.first.after (u ++ [0x24, 0x7B])).line +
            src.breaks (u ++ [0x24, 0x7B]).length
              ((u ++ [0x24, 0x7B]).length + ((b :: r).take (n + 1)).length) := by
        have hbreaks := Text.breaks_lt (n := (u ++ [0x24, 0x7B]).length) hopen (by simp)
        have hbound := hp.line_le
        rw [Position.after_append, Position.after_line p, Position.after_line (.after .first u)]
        omega
      refine ⟨_, _, _, ⟨(p.after [0x24, 0x7B]).line + 1, (p.after [0x24, 0x7B]).column,
        (p.after [0x24, 0x7B]).offset⟩, hsplit, ?_,
        ⟨hp'.offset, hp'.column, Int.le_add_one hle, hline⟩, hend⟩
      simp [ofFragment, Cursor.ofText, Cursor.onto, hb]
    · have hhead : (b :: r).head? ≠ some Text.newline := by simpa using hb
      rw [Cursor.pos_ofText hhead]
      exact ⟨_, _, _, _, hsplit, rfl, hp', hend⟩

end Lexer

namespace TemplateParts

open Lexeme (frames more)

theorem split_row {fuel : Nat} {src u t w : Text} {hi : Int}
    (h : split fuel (.ofText t p) = .ok parts)
    (hsrc : src = u ++ (t ++ w)) (hp : p.Stands src hi u) (hhi : (u ++ t).length ≤ hi)
    (hclosed : frames [.template] t = (t.length, true)) :
    Substitution.Row src (u ++ t).length u.length parts.substitutions := by
  induction fuel generalizing u t p parts with
  | zero => cases h
  | succ fuel ih =>
    rcases split_eq_ok h with ⟨_, hnil⟩ | ⟨n, parts', hquasi, hsplit, hcons⟩
    · rw [hnil, length_append]
      exact Int.ofNat_le.2 (Nat.le_add_right _ _)
    · rw [Lexer.ofText_rest] at hquasi
      obtain ⟨hle, hframes⟩ := quasi_opens hquasi
      rw [Cursor.advanceBy_ofText hle] at hsplit hcons
      rw [Lexer.ofText_rest] at hsplit hcons
      have hp' := hp.after (t.take (n + 2))
      have hdollar : t.take (n + 2) = t.take n ++ [0x24, 0x7B] := by
        obtain ⟨v, hv⟩ := quasi_text hquasi
        rw [take_add, ← hv]
        simp
      have hsrc' : src = (u ++ t.take (n + 2)) ++ (t.drop (n + 2) ++ w) := by
        rw [append_assoc, ← append_assoc (t.take _), take_append_drop, hsrc]
      -- The substitution is closed, and the literal goes on after it.
      have hopen := hframes []
      rw [hclosed] at hopen
      obtain ⟨k, hk, hsum⟩ := Lexeme.more_eq_closed hopen.symm
      obtain ⟨y, v, hyv, hy, hpasses, hlen, hv⟩ := Lexeme.split_closed hk
      have hm : (Lexeme.substitution (t.drop (n + 2))).1 = y.length := hlen
      have hlength : (t.drop (n + 2)).length = y.length + v.length := by
        rw [hyv, length_append]
      have htotal : t.length = n + 2 + (y.length + v.length) := by
        rw [← hlength, length_drop]
        omega
      have htake : (t.take (n + 2)).length = n + 2 := length_take_of_le hle
      have hpos : 0 < y.length := length_pos_iff.2 hy
      rw [hm] at hsplit hcons
      rw [Cursor.advanceBy_ofText (by omega), hyv, take_left, drop_left] at hsplit
      have hrow := ih (u := u ++ t.take (n + 2) ++ y) (t := v) hsplit
        (by rw [hsrc', hyv]; simp only [append_assoc]) (hp'.after y)
        (by simp only [length_append] at hhi ⊢; omega) (by rw [hv]; congr 1; omega)
      have hsub : Lexeme.substitution (t.drop (n + 2) ++ w) = (y.length - 1 + 1, true) := by
        rw [Nat.sub_add_cancel hpos, hyv, append_assoc]
        simpa [Lexeme.substitution, frames, more] using hpasses [] (v ++ w)
      have hfragment := Lexer.stands_ofFragment (t := t.drop (n + 2)) (w := w)
        (by rw [hsrc', hdollar]; simp only [append_assoc]) hsub (hp.after (t.take n))
        (by simp only [length_append, length_take, length_cons, length_nil] at hhi ⊢; omega)
      rw [← Position.after_append, append_assoc, ← hdollar] at hfragment
      have hoffset : (Cursor.ofText (t.drop (n + 2)) (p.after (t.take (n + 2)))).pos.offset =
          (u ++ t.take (n + 2)).length := by
        rw [Lexer.ofText_offset, hp'.offset]
      have hsource : ((t.drop (n + 2)).take (y.length - 1)).length = y.length - 1 :=
        length_take_of_le (by omega)
      rw [hcons]
      refine ⟨?_, ?_, hrow.mono ?_ ?_⟩
      · rw [hoffset, length_append]
        omega
      · rw [hoffset]
        exact hfragment
      · simp only [length_append] at hoffset ⊢
        rw [hoffset, hsource]
        omega
      · simp only [length_append]
        omega

theorem ofRaw_row {src : Text} {hi : Int} {t : Token} (h : ofRaw t.literal t.pos = .ok parts)
    (ht : t.Stands src hi) (hk : t.kind = .template) :
    Substitution.Row src t.stop.offset t.pos.offset parts.substitutions ∧
      parts.quasis.length = parts.substitutions.length + 1 := by
  refine ⟨?_, length_quasis h⟩
  obtain ⟨hstop, u, v, hsrc, hp⟩ := ht.placed (by rw [hk]; decide)
  have hclosed := ht.closed hk
  have hne : t.literal ≠ [] := by
    intro hnil
    rw [ht.ended.2 hnil] at hk
    cases hk
  obtain ⟨b, r, hr⟩ := exists_cons_of_ne_nil hne
  rw [ofRaw, hr, Cursor.advance_ofText] at h
  rw [hr, tail_cons, length_cons, Nat.add_sub_cancel] at hclosed
  rw [hr] at hsrc
  have hend : ((u ++ [b] ++ r).length : Int) ≤ hi := by
    simp only [Token.stop, hp.offset, hr] at hstop
    simp only [length_append, length_cons, length_nil] at hstop ⊢
    omega
  have hrow := split_row (u := u ++ [b]) (w := v) h (by rw [hsrc]; simp) (hp.after [b]) hend
    hclosed
  refine hrow.mono ?_ ?_
  · rw [hp.offset, length_append]
    omega
  · simp only [Token.stop, hp.offset, hr, length_append, length_cons, length_nil]
    omega

end TemplateParts
end LabelHooks
