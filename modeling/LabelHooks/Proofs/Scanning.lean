import Mathlib.Data.List.Induction
import LabelHooks.Proofs.Lexemes
import LabelHooks.Token.Lexer

/-!
What the lexer does with a text: a token is the first lexeme after a gap of white space and
comments, and a text is a row of gaps and lexemes. `Lexed` says this of a whole text.
-/

namespace LabelHooks
set_option autoImplicit true

open Token (Kind)
namespace Position
open List

def step (p : Position) (b : UInt8) : Position :=
  if b = Text.newline then ⟨p.line + 1, 1, p.offset + 1⟩ else ⟨p.line, p.column + 1, p.offset + 1⟩

/-- Where the byte after `u` stands. -/
def after (p : Position) : Text → Position
  | [] => p
  | b :: u => (p.step b).after u

@[simp] theorem after_nil (p : Position) : p.after [] = p := rfl

@[simp] theorem after_cons (p : Position) (b : UInt8) (u : Text) :
    p.after (b :: u) = (p.step b).after u := rfl

theorem after_append (p : Position) (u v : Text) : p.after (u ++ v) = (p.after u).after v := by
  induction u generalizing p with
  | nil => rfl
  | cons b u ih => exact ih _

@[simp] theorem step_offset (p : Position) (b : UInt8) : (p.step b).offset = p.offset + 1 := by
  unfold step
  split <;> rfl

@[simp] theorem after_offset (p : Position) (u : Text) :
    (p.after u).offset = p.offset + u.length := by
  induction u generalizing p with
  | nil => simp
  | cons b u ih =>
    rw [after_cons, ih, step_offset, length_cons]
    omega

theorem after_line (p : Position) (u : Text) :
    (p.after u).line = p.line + u.count Text.newline := by
  induction u generalizing p with
  | nil => simp
  | cons b u ih =>
    rw [after_cons, ih, count_cons, step]
    by_cases hb : b = Text.newline
    · simp only [hb, if_true, beq_self_eq_true]
      omega
    · simp [hb]

theorem after_column (u : Text) : (first.after u).column =
    1 + (u.reverse.takeWhile (· ≠ Text.newline)).length := by
  induction u using reverseRecOn with
  | nil => rfl
  | append_singleton u b ih =>
    rw [after_append, after_cons, after_nil, reverse_append, reverse_singleton,
      singleton_append, takeWhile_cons, step]
    by_cases hb : b = Text.newline
    · simp [hb]
    · simp only [hb, if_false, ne_eq, not_false_eq_true, decide_true, if_true, length_cons, ih]
      omega

end Position

namespace Cursor
open List

theorem advance_ofText (b : UInt8) (t : Text) (p : Position) :
    (ofText (b :: t) p).advance = ofText t (p.step b) := by
  by_cases hb : b = Text.newline
  · simp [ofText, advance, onto, Position.step, hb]
  · simp [ofText, advance, onto, Position.step, hb]

theorem advanceBy_ofText (h : n ≤ t.length) (p : Position) :
    advanceBy n (ofText t p) = ofText (t.drop n) (p.after (t.take n)) := by
  induction n generalizing t p with
  | zero => rfl
  | succ n ih =>
    cases t with
    | nil => simp at h
    | cons b t =>
      rw [advanceBy, advance_ofText, ih (by simpa using h)]
      rfl

theorem beyond_advance {c : Cursor} (h : c.beyond) : c.advance.beyond := by
  unfold advance
  split
  · rfl
  · exact h

theorem beyond_advanceBy {c : Cursor} (h : c.beyond) (n : Nat) : (c.advanceBy n).beyond := by
  induction n generalizing c with
  | zero => exact h
  | succ n ih => exact ih (beyond_advance h)

theorem beyond_advanceBy_ofText (h : t.length < n) (p : Position) :
    (advanceBy n (ofText t p)).beyond := by
  induction n generalizing t p with
  | zero => simp at h
  | succ n ih =>
    cases t with
    | nil => exact beyond_advanceBy rfl n
    | cons b t =>
      rw [advanceBy, advance_ofText]
      exact ih (by simpa using h) _

theorem pos_ofText (h : t.head? ≠ some Text.newline) (p : Position) : (ofText t p).pos = p := by
  simp [ofText, onto, h]

end Cursor

/-- The first lexeme of a text that starts with no white space: its kind, its length and what is
wrong with it. -/
def Lexeme.first (prev : Kind) : Text → Kind × Nat × Option Cause
  | [] => (.eof, 0, none)
  | b :: t =>
    if isIdentStart b then
      (.ofWord ((b :: t).take (ident (b :: t))), ident (b :: t), none)
    else if Text.isDigit b || (b = byte '.' && startsWithDigit t) then
      (.number, number (b :: t), none)
    else if b = byte '\'' || b = byte '"' then
      (.string, (quoted b t).1 + 1, if (quoted b t).2 then none else some .unterminatedString)
    else if b = byte '\x60' then
      (.template, (template t).1 + 1, if (template t).2 then none else some .unterminatedTemplate)
    else if b = byte '/' && !Lexer.endsOperand prev then
      (.regexp, (regexp false t).1 + 1 + ident (t.drop (regexp false t).1),
        if (regexp false t).2 then none else some .unterminatedRegexp)
    else match punctuator (b :: t) with
      | some (kind, n) => (kind, n, none)
      | none => (.illegal, 1, some (.unexpectedByte b))

namespace Lexeme
open List

theorem first_pos (prev : Kind) (b : UInt8) (t : Text) : 0 < (first prev (b :: t)).2.1 := by
  simp only [first]
  split
  · next h => exact run_pos (by simp [isIdentPart, h]) t
  · split
    · next h => exact number_pos h
    · split
      · exact Nat.succ_pos _
      · split
        · exact Nat.succ_pos _
        · split
          · exact Nat.add_pos_left (Nat.succ_pos _) _
          · split
            · next h => exact Nat.pos_of_ne_zero (punctuator_eq_some h).1
            · exact Nat.one_pos

theorem first_le (prev : Kind) (h : t.getLast? ≠ some 0x5C) : (first prev t).2.1 ≤ t.length := by
  cases t with
  | nil => exact Nat.le_refl 0
  | cons b t =>
    have ht := last_tail h
    simp only [first]
    split
    · exact run_le _ _
    · split
      · exact number_le _
      · split
        · exact Nat.succ_le_succ (quoted_le b ht)
        · split
          · exact Nat.succ_le_succ (frames_le ht)
          · split
            · have h₁ := regexp_le false ht
              have h₂ : ident (t.drop (regexp false t).1) ≤ (t.drop (regexp false t).1).length :=
                run_le _ _
              rw [length_drop] at h₂
              simp only [length_cons]
              omega
            · split
              · next h => exact (punctuator_eq_some h).2.1
              · exact Nat.succ_le_succ (Nat.zero_le _)

theorem ofWord_ne_eof (w : Text) : Kind.ofWord w ≠ .eof := by
  unfold Kind.ofWord
  cases h : Kind.keywords.find? fun k => k.text == w with
  | none => simp
  | some k =>
    have hk : ∀ k ∈ Kind.keywords, k ≠ .eof := by decide
    exact hk k (mem_of_find?_eq_some h)

theorem first_kind_ne_eof (prev : Kind) (b : UInt8) (t : Text) :
    (first prev (b :: t)).1 ≠ .eof := by
  have hpunct : ∀ k ∈ Kind.punctuators, k ≠ .eof := by decide
  simp only [first]
  split
  · exact ofWord_ne_eof _
  · split
    · exact Kind.noConfusion
    · split
      · exact Kind.noConfusion
      · split
        · exact Kind.noConfusion
        · split
          · exact Kind.noConfusion
          · split
            · next h => exact hpunct _ (punctuator_eq_some h).2.2.1
            · exact Kind.noConfusion

def isBlank (b : UInt8) : Bool := b = Text.newline || isSpace b

end Lexeme

inductive Gap : Position → Text → List Comment → Prop where
  | nil (p : Position) : Gap p [] []
  | blank : Lexeme.isBlank b → Gap (p.step b) g cs → Gap p (b :: g) cs
  | comment (c : Comment) : c.text ≠ [] → c.span.start = p → Gap (p.after c.text) g cs →
    Gap p (c.text ++ g) (c :: cs)

def Settled : Text → Prop
  | [] => True
  | b :: t => Lexeme.isBlank b = false ∧
    (b = byte '/' → t.head? ≠ some (byte '/') ∧ t.head? ≠ some (byte '*'))

namespace Lexer
open List

def failing (l : Lexer) : Option Cause → Lexer
  | none => l
  | some c => l.fail l.cursor.pos c

theorem ofCode_byte (h : Lexeme.isIdentStart b = false) : Text.ofCode b.toNat = [b] := by
  have hb : b.toNat < 0x80 := by
    simp only [Lexeme.isIdentStart, Bool.or_eq_false_iff, decide_eq_false_iff_not,
      UInt8.le_iff_toNat_le] at h
    exact Nat.lt_of_not_le h.2
  rw [Text.ofCode, if_pos hb]
  simp

theorem closing_eq (l : Lexer) (cause : Cause) (closed : Bool) :
    l.closing cause closed = l.failing (if closed then none else some cause) := by
  cases closed <;> rfl

theorem scan_eq {l : Lexer} (h : l.cursor.rest = b :: t) : l.scan = (do
      let first := Lexeme.first l.prev (b :: t)
      let (literal, l') ← (l.failing first.2.2).take first.2.1 return (first.1, literal, l')) := by
  rw [scan, h]
  simp only [Lexeme.first]
  by_cases h₁ : Lexeme.isIdentStart b = true
  · simp only [h₁, if_true, failing, take, h]
    split <;> rfl
  · rw [if_neg h₁, if_neg h₁]
    by_cases h₂ : (Text.isDigit b || (b = byte '.' && Lexeme.startsWithDigit t)) = true
    · rw [if_pos h₂]
      exact if_pos h₂
    · rw [if_neg h₂]
      refine (if_neg h₂).trans ?_
      by_cases h₃ : (b = byte '\'' || b = byte '"') = true
      · rw [if_pos h₃, if_pos h₃, closing_eq]
      · rw [if_neg h₃, if_neg h₃]
        by_cases h₄ : b = byte '\x60'
        · rw [if_pos h₄, if_pos h₄, closing_eq]
        · rw [if_neg h₄, if_neg h₄]
          by_cases h₅ : (b = byte '/' && !endsOperand l.prev) = true
          · rw [if_pos h₅, if_pos h₅, closing_eq]
          · rw [if_neg h₅, if_neg h₅]
            cases Lexeme.punctuator (b :: t) with
            | some x => rfl
            | none =>
              rw [ofCode_byte (by simpa using h₁)]
              simp only [failing, take, fail, h]
              split <;> rfl

def atMark (l : Lexer) : Bool :=
  l.atStart && l.cursor.rest.head? = some 0xEF && l.cursor.rest.tail.head? = some 0xBB

theorem atMark_of_lt {l : Lexer} (h : l.base < l.cursor.pos.offset) : l.atMark = false := by
  have : l.atStart = false := by simpa [atStart] using (by omega : l.cursor.pos.offset ≠ l.base)
  simp [atMark, this]

@[simp] theorem ofText_offset (t : Text) (p : Position) :
    (Cursor.ofText t p).pos.offset = p.offset := by
  unfold Cursor.ofText Cursor.onto
  split <;> rfl

@[simp] theorem ofText_rest (t : Text) (p : Position) : (Cursor.ofText t p).rest = t := rfl

theorem newline_not_mem_lineComment (t : Text) : Text.newline ∉ t.take (Lexeme.lineComment t) := by
  intro h
  rw [Lexeme.lineComment, Lexeme.take_run] at h
  have := all_takeWhile (p := fun b => decide (b ≠ Text.newline)) (l := t)
  rw [all_eq_true] at this
  simpa using this _ h

def Skips (l : Lexer) (t : Text) (p : Position) (newline : Bool) (out : Lexer × Bool) : Prop :=
  ∃ g cs fs r, t = g ++ r ∧ Gap p g cs ∧ Settled r ∧ out =
    ({ l with
      cursor := .ofText r (p.after g), comments := l.comments ++ cs, faults := l.faults ++ fs },
      newline || Text.newline ∈ g)

theorem Skips.after (cs : List Comment) (fs : List Fault)
    (hgap : ∀ g cs', Gap (p.after u) g cs' → Gap p (u ++ g) (cs ++ cs')) (h : Skips { l with
        cursor := .ofText t (p.after u), comments := l.comments ++ cs, faults := l.faults ++ fs }
      t (p.after u) (newline || Text.newline ∈ u) out) : Skips l (u ++ t) p newline out := by
  obtain ⟨g, cs', fs', r, rfl, hg, hr, rfl⟩ := h
  refine ⟨u ++ g, cs ++ cs', fs ++ fs', r, by rw [append_assoc], hgap g cs' hg, hr, ?_⟩
  simp [Position.after_append, Bool.or_assoc]

theorem Skips.settled (hc : l.cursor = .ofText t p) (h : Settled t) :
    Skips l t p newline (l, newline) := by
  refine ⟨[], [], [], t, rfl, .nil p, h, ?_⟩
  simp [← hc]

theorem comment_eq {l : Lexer} (hc : l.cursor = .ofText t p) (hle : n ≤ t.length)
    (kind : CommentKind) : l.comment kind n = { l with
      cursor := .ofText (t.drop n) (p.after (t.take n))
      comments := l.comments ++ [⟨kind, t.take n, ⟨(Cursor.ofText t p).pos,
        (Cursor.ofText (t.drop n) (p.after (t.take n))).pos⟩⟩] } := by
  rw [comment, hc, Cursor.advanceBy_ofText hle]
  rfl

theorem comment_cursor {l : Lexer} (hc : l.cursor = .ofText t p) (hle : n ≤ t.length)
    (kind : CommentKind) : (l.comment kind n).cursor = .ofText (t.drop n) (p.after (t.take n)) := by
  rw [comment_eq hc hle]

theorem Skips.comment {l : Lexer} (fs : List Fault) (hc : l.cursor = .ofText t p) (hpos : 0 < n)
    (hle : n ≤ t.length) (hhead : t.head? ≠ some Text.newline)
    (h : Skips { l.comment kind n with faults := l.faults ++ fs } (t.drop n) (p.after (t.take n))
      (newline || Text.newline ∈ t.take n) out) : Skips l t p newline out := by
  rw [comment_eq hc hle] at h
  rw [← take_append_drop n t]
  refine .after _ fs (fun g cs hg => ?_) h
  have hne : t.take n ≠ [] := by
    intro hnil
    have := congrArg length hnil
    rw [length_take, length_nil] at this
    omega
  exact .comment ⟨kind, t.take n, _⟩ hne (Cursor.pos_ofText hhead p) hg

theorem skips (fuel : Nat) {l : Lexer} (newline : Bool) (hc : l.cursor = .ofText t p)
    (hfuel : t.length < fuel) (hbase : l.base ≤ p.offset) (hmark : l.atMark = false) :
    Skips l t p newline (l.skipTrivia fuel newline) := by
  induction fuel generalizing l t p newline with
  | zero => omega
  | succ fuel ih =>
    have hrest : l.cursor.rest = t := by rw [hc, ofText_rest]
    -- After a piece of `n` bytes the rest of the gap is passed over.
    have rest : ∀ {n : Nat} {l' : Lexer}, 0 < n → n ≤ t.length → l'.base = l.base →
        l'.cursor = .ofText (t.drop n) (p.after (t.take n)) → ∀ newline',
        Skips l' (t.drop n) (p.after (t.take n)) newline' (l'.skipTrivia fuel newline') := by
      intro n l' hpos hle hb hc' newline'
      have hlt : l'.base < (p.after (t.take n)).offset := by
        rw [Position.after_offset, length_take]
        omega
      apply ih newline' hc'
      · rw [length_drop]
        omega
      · exact Int.le_of_lt hlt
      · exact atMark_of_lt (by rw [hc', ofText_offset]; exact hlt)
    rw [skipTrivia]
    simp only [hrest]
    split
    · next u =>
      have hle : 2 + Lexeme.lineComment u ≤ (0x2F :: 0x2F :: u : Text).length := by
        have : Lexeme.lineComment u ≤ u.length := Lexeme.run_le _ u
        simp only [length_cons]
        omega
      have hline : Text.newline ∉ (0x2F :: 0x2F :: u : Text).take (2 + Lexeme.lineComment u) := by
        rw [Nat.add_comm, take_succ_cons, take_succ_cons]
        simp [newline_not_mem_lineComment, show Text.newline ≠ 0x2F by decide]
      apply Skips.comment [] hc (by omega) hle (show some 0x2F ≠ _ by decide)
      simp only [append_nil, hline, decide_false, Bool.or_false]
      apply rest (by omega) hle
      · rfl
      · exact comment_cursor hc hle .line
    · next u =>
      have hle : (Lexeme.blockComment u).1 + 2 ≤ (0x2F :: 0x2A :: u : Text).length := by
        have := Lexeme.blockComment_le u
        simp only [length_cons]
        omega
      have hbroken : (newline || contains (u.take (Lexeme.blockComment u).1) Text.newline) =
          (newline || decide (Text.newline ∈ (0x2F :: 0x2A :: u : Text).take
            ((Lexeme.blockComment u).1 + 2))) := by
        rw [take_succ_cons, take_succ_cons]
        simp [show Text.newline ≠ 0x2F by decide, show Text.newline ≠ 0x2A by decide]
      simp only [blockComment, hbroken]
      cases (Lexeme.blockComment u).2 with
      | true =>
        apply Skips.comment [] hc (by omega) hle (show some 0x2F ≠ _ by decide)
        simp only [append_nil]
        apply rest (by omega) hle
        · rfl
        · exact comment_cursor hc hle .block
      | false =>
        apply Skips.comment [⟨l.cursor.pos, .unterminatedComment⟩] hc (by omega) hle
          (show some 0x2F ≠ _ by decide)
        apply rest (by omega) hle
        · rfl
        · exact comment_cursor hc hle .block
    · next b u h₁ h₂ =>
      -- One byte of white space.
      have blank : ∀ newline', Lexeme.isBlank b →
          newline' = (newline || decide (Text.newline ∈ [b])) → Skips l (b :: u) p newline
            (skipTrivia fuel { l with cursor := l.cursor.advance } newline') := by
        rintro newline' hb rfl
        have hcursor : l.cursor.advance = .ofText u (p.step b) := by
          rw [hc, Cursor.advance_ofText]
        apply Skips.after (u := [b]) [] [] (fun g cs hg => Gap.blank hb hg)
        simp only [append_nil, hcursor]
        apply rest (n := 1) Nat.one_pos (by simp)
        · rfl
        · rfl
      have htail : b = byte '/' → u.head? ≠ some (byte '/') ∧ u.head? ≠ some (byte '*') := by
        rintro rfl
        cases u with
        | nil => simp
        | cons c u =>
          constructor
          · intro h
            cases h
            exact h₁ u rfl rfl
          · intro h
            cases h
            exact h₂ u rfl rfl
      split
      · next hb => exact blank _ (by simp [Lexeme.isBlank, hb]) (by simp [hb])
      · next hn =>
        split
        · next hb =>
          exact blank _ (by simp [Lexeme.isBlank, hb]) (by simp [Ne.symm hn])
        · next hb =>
          have hsettled : Settled (b :: u) := ⟨by simp [Lexeme.isBlank, hn, hb], htail⟩
          split
          · next hm =>
            rw [atMark, hrest, head?_cons, tail_cons] at hmark
            simp only [Option.some.injEq] at hmark
            rw [hmark] at hm
            cases hm
          · split
            · next hs =>
              have hb : b = byte '#' := by
                simp only [Bool.and_eq_true, decide_eq_true_eq] at hs
                exact hs.1.2
              have hle : 1 + Lexeme.lineComment u ≤ (b :: u).length := by
                have : Lexeme.lineComment u ≤ u.length := Lexeme.run_le _ u
                simp only [length_cons]
                omega
              have hline : Text.newline ∉ (b :: u).take (1 + Lexeme.lineComment u) := by
                rw [Nat.add_comm, take_succ_cons]
                simp [newline_not_mem_lineComment, Ne.symm hn]
              apply Skips.comment [] hc (by omega) hle (by simpa using hn)
              simp only [append_nil, hline, decide_false, Bool.or_false]
              apply rest (by omega) hle
              · rfl
              · exact comment_cursor hc hle .line
            · exact .settled hc hsettled
    · exact .settled hc trivial

theorem take_eq {l : Lexer} (hc : l.cursor = .ofText t p) (hle : n ≤ t.length) :
    l.take n = .ok (t.take n, { l with cursor := .ofText (t.drop n) (p.after (t.take n)) }) := by
  rw [take, hc, Cursor.advanceBy_ofText hle]
  rfl

theorem take_overrun {l : Lexer} (hc : l.cursor = .ofText t p) (hlt : t.length < n) :
    l.take n = .error .overrun := by
  have h := Cursor.beyond_advanceBy_ofText hlt p
  rw [take, hc, if_pos h]

def faultsAt (p : Position) (cause : Option Cause) : List Fault := (cause.map (⟨p, ·⟩)).toList

theorem failing_eq (l : Lexer) (cause : Option Cause) :
    l.failing cause = { l with faults := l.faults ++ faultsAt l.cursor.pos cause } := by
  cases cause with
  | none => simp [failing, faultsAt]
  | some c => rfl

end Lexer

theorem Settled.head_ne_newline (h : Settled t) : t.head? ≠ some Text.newline := by
  cases t with
  | nil => simp
  | cons b t =>
    intro hb
    cases hb
    exact absurd h.1 (by decide)

/-- The lexemes of a text that stands at `p`, the last token before it being of kind `prev`. -/
inductive Lexed : Kind → Position → Text → List Token → List Comment → List Fault → Prop where
  | done : Gap p g cs → Lexed prev p g [⟨.eof, [], p.after g, Text.newline ∈ g⟩] cs fs
  | token : Gap p g cs → Settled (u ++ r) → u ≠ [] →
    Lexeme.first prev (u ++ r) = (k, u.length, cause) →
    Lexed k ((p.after g).after u) r ts cs' fs' →
    Lexed prev p (g ++ (u ++ r)) (⟨k, u, p.after g, Text.newline ∈ g⟩ :: ts) (cs ++ cs')
      (fs ++ Lexer.faultsAt (p.after g) cause ++ fs')

namespace Lexer
open List

theorem next_eq {l : Lexer} (c : Cursor) (hskips : Skips { l with cursor := c } t p false
      (l.skipTrivia (l.cursor.rest.length + 1) false)) :
    ∃ g cs fs r, t = g ++ r ∧ Gap p g cs ∧ Settled r ∧
      ((r = [] ∧ l.next = .ok (⟨.eof, [], p.after g, Text.newline ∈ g⟩, { l with
          cursor := .ofText [] (p.after g), comments := l.comments ++ cs
          faults := l.faults ++ fs })) ∨
        (r.length < (Lexeme.first l.prev r).2.1 ∧ l.next = .error .overrun) ∨
        ∃ u v k cause, r = u ++ v ∧ u ≠ [] ∧ Lexeme.first l.prev r = (k, u.length, cause) ∧
          l.next = .ok (⟨k, u, p.after g, Text.newline ∈ g⟩, { l with
            cursor := .ofText v ((p.after g).after u), prev := k, comments := l.comments ++ cs
            faults := l.faults ++ fs ++ faultsAt (p.after g) cause })) := by
  obtain ⟨g, cs, fs, r, ht, hg, hr, hskip⟩ := hskips
  refine ⟨g, cs, fs, r, ht, hg, hr, ?_⟩
  have hpos : (Cursor.ofText r (p.after g)).pos = p.after g :=
    Cursor.pos_ofText hr.head_ne_newline _
  rw [next, hskip]
  dsimp only
  cases r with
  | nil =>
    left
    refine ⟨rfl, ?_⟩
    simp only [Bool.false_or, scan, ofText_rest]
    simp only [bind, Except.bind, pure, Except.pure, hpos, if_true]
  | cons b r =>
    right
    rw [scan_eq rfl]
    simp only [Bool.false_or, failing_eq]
    generalize hfirst : Lexeme.first l.prev (b :: r) = first
    obtain ⟨k, n, cause⟩ := first
    by_cases hle : n ≤ (b :: r).length
    · right
      refine ⟨(b :: r).take n, (b :: r).drop n, k, cause, ?_, ?_, ?_, ?_⟩
      · rw [take_append_drop]
      · have := Lexeme.first_pos l.prev b r
        rw [hfirst] at this
        intro hnil
        have := congrArg length hnil
        rw [length_take, length_nil] at this
        dsimp only at *
        omega
      · rw [length_take, Nat.min_eq_left hle]
      · have hk := Lexeme.first_kind_ne_eof l.prev b r
        rw [hfirst] at hk
        rw [take_eq rfl hle]
        simp only [bind, Except.bind, pure, Except.pure, hpos, if_neg hk]
    · left
      constructor
      · exact Nat.lt_of_not_le hle
      · rw [take_overrun rfl (Nat.lt_of_not_le hle)]
        rfl

/-- A text is divided into gaps and lexemes, unless its last byte is an escape that reaches past
it. -/
theorem allFrom_eq (fuel : Nat) {l : Lexer} (c : Cursor)
    (hskips : Skips { l with cursor := c } t p false
      (l.skipTrivia (l.cursor.rest.length + 1) false)) (hfuel : t.length < fuel)
    (hbase : l.base ≤ p.offset) : (allFrom fuel l = .error .overrun ∧ t.getLast? = some 0x5C) ∨
      ∃ ts cs fs l', allFrom fuel l = .ok (ts, l') ∧ l'.comments = l.comments ++ cs ∧
        l'.faults = l.faults ++ fs ∧ Lexed l.prev p t ts cs fs := by
  induction fuel generalizing l t p c with
  | zero => omega
  | succ fuel ih =>
    obtain ⟨g, cs, fs, r, rfl, hg, hr, ⟨rfl, hnext⟩ | ⟨hlt, hnext⟩ | h⟩ := next_eq c hskips
    · right
      refine ⟨[⟨.eof, [], p.after g, Text.newline ∈ g⟩], cs, fs, { l with
        cursor := .ofText [] (p.after g), comments := l.comments ++ cs
        faults := l.faults ++ fs }, ?_, rfl, rfl, ?_⟩
      · rw [allFrom, hnext]
        rfl
      · rw [append_nil]
        exact .done hg
    · left
      constructor
      · rw [allFrom, hnext]
        rfl
      · have hlast : r.getLast? = some 0x5C := by
          by_contra hlast
          have := Lexeme.first_le l.prev hlast
          omega
        rw [getLast?_append, hlast]
        rfl
    · obtain ⟨u, v, k, cause, rfl, hu, hfirst, hnext⟩ := h
      have hpos : 0 < u.length := length_pos_iff.2 hu
      have hk : k ≠ .eof := by
        cases u with
        | nil => exact absurd rfl hu
        | cons b u =>
          have := Lexeme.first_kind_ne_eof l.prev b (u ++ v)
          rw [cons_append] at hfirst
          rwa [hfirst] at this
      have hlt : l.base < ((p.after g).after u).offset := by
        rw [Position.after_offset, Position.after_offset]
        omega
      rw [allFrom, hnext]
      simp only [bind, Except.bind, if_neg hk]
      rw [length_append, length_append] at hfuel
      let l₁ : Lexer := { l with
        cursor := .ofText v ((p.after g).after u), prev := k, comments := l.comments ++ cs
        faults := l.faults ++ fs ++ faultsAt (p.after g) cause }
      have hskips₁ := skips (l := l₁) (v.length + 1) false rfl (by omega) (Int.le_of_lt hlt)
        (atMark_of_lt (by rw [ofText_offset]; exact hlt))
      rcases ih (l := l₁) l₁.cursor hskips₁ (by omega) (Int.le_of_lt hlt) with
        ⟨hall, hlast⟩ | ⟨ts, cs', fs', l', hall, hcs, hfs, hlexed⟩
      · left
        rw [hall]
        refine ⟨rfl, ?_⟩
        rw [getLast?_append, getLast?_append, hlast]
        rfl
      · right
        rw [hall]
        refine ⟨_, cs ++ cs', fs ++ faultsAt (p.after g) cause ++ fs', l', rfl, ?_, ?_,
          .token hg hr hu hfirst hlexed⟩
        · rw [hcs, append_assoc]
        · rw [hfs]
          simp only [l₁, append_assoc]

theorem skips_mark {l : Lexer} (hc : l.cursor = .ofText (0xEF :: 0xBB :: b :: t) p)
    (hbase : l.base = p.offset) : let c := Cursor.ofText t (p.after [0xEF, 0xBB, b])
    Skips { l with cursor := c } t (p.after [0xEF, 0xBB, b]) false
      (l.skipTrivia (l.cursor.rest.length + 1) false) := by
  intro c
  have hadvance : l.cursor.advanceBy 3 = c := by
    rw [hc, Cursor.advanceBy_ofText (by simp)]
    rfl
  have hstart : l.atStart = true := by simp [atStart, hc, hbase]
  have hlt : l.base < (p.after [0xEF, 0xBB, b]).offset := by
    rw [Position.after_offset, hbase, length_cons]
    omega
  have hskip : l.skipTrivia (l.cursor.rest.length + 1) false =
      skipTrivia l.cursor.rest.length { l with cursor := c } false := by
    have hspace : Lexeme.isSpace 0xEF = false := by decide
    have hnewline : (0xEF : UInt8) ≠ Text.newline := by decide
    rw [skipTrivia, hadvance]
    simp [hc, hstart, hspace, hnewline]
  rw [hskip]
  apply skips (l := { l with cursor := c }) _ _ rfl
  · rw [hc, ofText_rest]
    simp only [length_cons]
    omega
  · exact Int.le_of_lt hlt
  · exact atMark_of_lt (by rw [ofText_offset]; exact hlt)

end Lexer
end LabelHooks
