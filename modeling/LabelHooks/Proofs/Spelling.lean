import LabelHooks.Proofs.Scanning

/-!
Texts that spell out a row of tokens. A lexeme is read as the same token wherever it stands, as
long as what follows does not go on with it, and white space never does.
-/

namespace LabelHooks
set_option autoImplicit true

open Token (Kind)
namespace Lexeme
open List

def glues (k : Kind) (b : UInt8) : Bool :=
  if k = .number then extendsNumber b
  else if k = .ident || k = .regexp || k.isKeyword then isIdentPart b
  else joins k b || (k = .slash && (b = byte '/' || b = byte '*')) ||
    ((k = .dot || k = .optChain) && Text.isDigit b)

set_option maxRecDepth 4000 in
theorem joins_blank (hb : isBlank b) (k : Kind) : joins k b = false := by
  have hblank : ∀ k ∈ Kind.punctuators, ∀ c ∈ k.text, isBlank c = false := by decide
  rw [joins, any_eq_false]
  intro k' hk' hprefix
  have hmem : b ∈ k'.text := (List.isPrefixOf_iff_prefix.1 hprefix).subset (by simp)
  rw [hblank k' hk' b hmem] at hb
  cases hb

set_option maxRecDepth 4000 in
theorem glues_blank (hb : isBlank b) (k : Kind) : glues k b = false := by
  have hall : ∀ b ∈ [Text.newline, byte ' ', byte '\t', byte '\r', 0x0C, 0x0B],
      extendsNumber b = false ∧ isIdentPart b = false ∧ Text.isDigit b = false ∧ b ≠ byte '/' ∧
        b ≠ byte '*' := by decide
  have hmem : b ∈ [Text.newline, byte ' ', byte '\t', byte '\r', 0x0C, 0x0B] := by
    simpa [isBlank, isSpace, or_assoc] using hb
  obtain ⟨h₁, h₂, h₃, h₄, h₅⟩ := hall b hmem
  simp [glues, joins_blank hb, h₁, h₂, h₃, h₄, h₅]

theorem glues_word (w : Text) : glues (.ofWord w) = isIdentPart := by
  have hkeywords : ∀ k ∈ Kind.keywords, k ≠ .number ∧ k.isKeyword = true := by decide
  unfold Kind.ofWord
  cases h : Kind.keywords.find? fun k => k.text == w with
  | none => rfl
  | some k =>
    obtain ⟨hnumber, hkeyword⟩ := hkeywords k (mem_of_find?_eq_some h)
    funext b
    simp [glues, hnumber, hkeyword]

theorem glues_punctuator (hk : k ∈ Kind.punctuators) (b : UInt8) :
    glues k b = (joins k b || (k = .slash && (b = byte '/' || b = byte '*')) ||
      ((k = .dot || k = .optChain) && Text.isDigit b)) := by
  have hpunctuators : ∀ k ∈ Kind.punctuators,
      k ≠ .number ∧ (k = .ident || k = .regexp || k.isKeyword) = false := by decide
  obtain ⟨hnumber, hword⟩ := hpunctuators k hk
  rw [glues, if_neg hnumber, hword]
  rfl

theorem mem_of_run_eq (h : run p (u ++ r) = u.length) : ∀ b ∈ u, p b := by
  have htake := take_run p (u ++ r)
  rw [h, take_left] at htake
  rw [htake]
  intro b hb
  exact all_eq_true.1 all_takeWhile b hb

theorem stops_of_run_eq (h : run p (u ++ r) = u.length) : Stops p r := by
  have hu := mem_of_run_eq h
  rw [run, takeWhile_append_of_pos hu, length_append] at h
  intro b hb
  cases r with
  | nil => cases hb
  | cons c r =>
    cases hb
    cases hp : p b with
    | false => rfl
    | true =>
      rw [takeWhile_cons_of_pos hp, length_cons] at h
      omega

theorem Stops.of_blank (h : ∀ b, r.head? = some b → isBlank b) (k : Kind) : Stops (glues k) r := by
  intro b hb
  exact glues_blank (h b hb) k

theorem startsWithDigit_append (h : u ≠ []) :
    startsWithDigit (u ++ r) = startsWithDigit (u ++ s) := by
  cases u with
  | nil => exact absurd rfl h
  | cons b u => rfl

theorem quoted_append (h : quoted q (u ++ r₀) = (u.length, true)) (r : Text) :
    quoted q (u ++ r) = (u.length, true) := by
  obtain ⟨w, v, hw, hlen, hclosed⟩ := quoted_closed h
  rw [append_inj_left hw hlen.symm]
  rw [hclosed, hlen]

theorem template_append (h : template (u ++ r₀) = (u.length, true)) (r : Text) :
    template (u ++ r) = (u.length, true) := by
  obtain ⟨w, v, hw, hlen, hpasses⟩ := passes_of_closed h
  have hu : u = w := append_inj_left hw hlen.symm
  have := hpasses [] r
  rw [hu, template]
  rw [append_nil, append_nil, frames] at this
  rw [this]
  rfl

theorem regexp_append (h : regexp false (u ++ r₀) = (n, true)) (hn : n ≤ u.length) (r : Text) :
    regexp false (u ++ r) = (n, true) := by
  obtain ⟨w, v, hw, hlen, hclosed⟩ := regexp_closed h
  have htake : u.take n = w := by
    have := congrArg (take n) hw
    rwa [take_append_of_le_length hn, take_left' hlen] at this
  rw [← take_append_drop n u, append_assoc, htake]
  exact hclosed _

theorem fraction_lexeme (hn : number (byte '.' :: (u ++ r₀)) = u.length + 1)
    (h : startsWithDigit (u ++ r₀)) : u ≠ [] := by
  rintro rfl
  have hmark : marked (byte '.' :: r₀) = false := rfl
  have hrun : run isDigitOrSeparator (byte '.' :: r₀) = 0 := rfl
  have hfrac : fraction 0 (byte '.' :: r₀) = 1 + run isDigitOrSeparator r₀ := by
    rw [show byte '.' = 0x2E from rfl, fraction]
    simp
  have hpos := run_pos_of_digit h
  rw [nil_append] at hn hpos
  rw [number_eq, hmark, decimal, hrun, drop_zero, hfrac] at hn
  simp only [length_nil, Bool.false_eq_true, if_false] at hn
  omega

inductive IsLexeme (prev : Kind) : Kind → Text → Text → Prop where
  | word : isIdentStart b → (∀ c ∈ u, isIdentPart c) → Stops isIdentPart r →
    IsLexeme prev (.ofWord (b :: u)) (b :: u) r
  | number : (Text.isDigit b || (b = byte '.' && startsWithDigit u)) →
    number ((b :: u) ++ r) = (b :: u).length → IsLexeme prev .number (b :: u) r
  | string : (q = byte '\'' || q = byte '"') → quoted q (u ++ r) = (u.length, true) →
    IsLexeme prev .string (q :: u) r
  | template : template (u ++ r) = (u.length, true) → IsLexeme prev .template (byte '\x60' :: u) r
  | regexp : Lexer.endsOperand prev = false → regexp false (u ++ (w ++ r)) = (u.length, true) →
    (∀ c ∈ w, isIdentPart c) → Stops isIdentPart r →
    IsLexeme prev .regexp (byte '/' :: (u ++ w)) r
  | punctuator : k ∈ Kind.punctuators → punctuator (k.text ++ r) = some (k, k.text.length) →
    (k.text.head? = some (byte '/') → Lexer.endsOperand prev) →
    (k = .dot → startsWithDigit r = false) → IsLexeme prev k k.text r

set_option maxRecDepth 20000 in
theorem isIdentStart_of_isDigit : ∀ b, Text.isDigit b → isIdentStart b = false :=
  forall_byte (by decide)

set_option maxRecDepth 4000 in
theorem punctuator_head : ∀ k ∈ Kind.punctuators, ∀ b ∈ k.text.head?,
    isIdentStart b = false ∧ Text.isDigit b = false ∧ b ≠ byte '\'' ∧ b ≠ byte '"' ∧
      b ≠ byte '\x60' ∧ (b = byte '.' → k = .dot ∨ k = .ellipsis) := by
  decide

theorem first_other {prev : Kind} {b : UInt8} {t : Text} (hstart : isIdentStart b = false)
    (hdigit : Text.isDigit b = false) (hdot : b = byte '.' → startsWithDigit t = false) :
    first prev (b :: t) = if b = byte '\'' || b = byte '"' then
      (.string, (quoted b t).1 + 1, if (quoted b t).2 then none else some .unterminatedString)
    else if b = byte '\x60' then
      (.template, (template t).1 + 1, if (template t).2 then none else some .unterminatedTemplate)
    else if b = byte '/' && !Lexer.endsOperand prev then
      (.regexp, (regexp false t).1 + 1 + ident (t.drop (regexp false t).1),
        if (regexp false t).2 then none else some .unterminatedRegexp)
    else match punctuator (b :: t) with
      | some (kind, n) => (kind, n, none)
      | none => (.illegal, 1, some (.unexpectedByte b)) := by
  have hnumber : (Text.isDigit b || (b = byte '.' && startsWithDigit t)) = false := by
    rw [hdigit, Bool.false_or, Bool.and_eq_false_iff, decide_eq_false_iff_not]
    by_cases hb : b = byte '.'
    · exact .inr (hdot hb)
    · exact .inl hb
  rw [first, hstart, hnumber]
  rfl

theorem first_of_isLexeme {prev} (h : IsLexeme prev k u r) :
    first prev (u ++ r) = (k, u.length, none) := by
  cases h with
  | @word b u r hb hu hr =>
    have hword : ∀ c ∈ b :: u, isIdentPart c := by
      intro c hc
      rcases mem_cons.1 hc with rfl | hc
      · simp [isIdentPart, hb]
      · exact hu c hc
    have hident : ident (b :: (u ++ r)) = (b :: u).length := run_append hword hr
    rw [cons_append, first, if_pos hb, hident, ← cons_append, take_left]
  | @number b u r hb hn =>
    have hb' : (Text.isDigit b || (b = byte '.' && startsWithDigit (u ++ r))) = true := by
      cases u with
      | nil => simpa [startsWithDigit] using Or.inl hb
      | cons c u => exact hb
    have hstart : isIdentStart b = false := by
      simp only [Bool.or_eq_true, Bool.and_eq_true, decide_eq_true_eq] at hb
      rcases hb with hb | ⟨rfl, _⟩
      · exact isIdentStart_of_isDigit b hb
      · decide
    rw [cons_append, first, hstart, if_neg Bool.false_ne_true, if_pos hb', ← cons_append,
      hn]
  | @string q u r hq h =>
    have hstart : isIdentStart q = false ∧ Text.isDigit q = false ∧ q ≠ byte '.' := by
      simp only [Bool.or_eq_true, decide_eq_true_eq] at hq
      rcases hq with rfl | rfl <;> decide
    rw [cons_append, first_other hstart.1 hstart.2.1 (absurd · hstart.2.2), if_pos hq, h]
    rfl
  | @template u r h =>
    rw [cons_append, first_other (by decide) (by decide) (absurd · (by decide)),
      if_neg (by decide), if_pos rfl, h]
    rfl
  | @regexp u w r hp h hw hr =>
    have hflags : ident (((u ++ w) ++ r).drop u.length) = w.length := by
      rw [append_assoc, drop_left]
      exact run_append hw hr
    rw [cons_append, first_other (by decide) (by decide) (absurd · (by decide)),
      if_neg (by decide), if_neg (by decide), if_pos (by simp [hp])]
    simp only [append_assoc] at hflags ⊢
    simp only [h, hflags, if_true, length_cons, length_append]
    rw [Nat.add_right_comm]
  | punctuator hk h hp hdot =>
    have hpos := (punctuator_eq_some h).1
    cases htext : k.text with
    | nil => simp [htext] at hpos
    | cons b t =>
      have hhead : k.text.head? = some b := by rw [htext]; rfl
      obtain ⟨h₁, h₂, h₃, h₄, h₅, h₆⟩ := punctuator_head k hk b hhead
      have hpoint : b = byte '.' → startsWithDigit (t ++ r) = false := by
        intro hb
        rcases h₆ hb with rfl | rfl
        · cases htext
          exact hdot rfl
        · cases htext
          rfl
      have hslash : ¬ (b = byte '/' && !Lexer.endsOperand prev) = true := by
        simp only [Bool.and_eq_true, decide_eq_true_eq, Bool.not_eq_true', not_and,
          Bool.not_eq_false]
        intro hb
        exact hp (by rw [hhead, hb])
      rw [htext, cons_append] at h
      rw [cons_append, first_other h₁ h₂ hpoint, if_neg (by simp [h₃, h₄]), if_neg h₅,
        if_neg hslash, h]

theorem closed_eq {x : Nat × Bool} {m n : Nat} {k k' : Kind} {cause : Cause}
    (h : (k', m, if x.2 then none else some cause) = (k, n, none)) :
    k' = k ∧ m = n ∧ x.2 = true := by
  cases hx : x.2 with
  | false => simp [hx] at h
  | true =>
    simp only [hx, if_true, Prod.mk.injEq, and_true] at h
    exact ⟨h.1, h.2, rfl⟩

theorem isLexeme_of_first {prev k : Kind} {u r : Text} (hu : u ≠ [])
    (h : first prev (u ++ r) = (k, u.length, none)) : IsLexeme prev k u r := by
  cases u with
  | nil => exact absurd rfl hu
  | cons b u =>
    rw [cons_append] at h
    by_cases h₁ : isIdentStart b = true
    · rw [first, if_pos h₁] at h
      simp only [Prod.mk.injEq, and_true] at h
      obtain ⟨hk, hlen⟩ := h
      rw [hlen, ← cons_append, take_left] at hk
      subst hk
      have hword : run isIdentPart ((b :: u) ++ r) = (b :: u).length := hlen
      refine .word h₁ (fun c hc => mem_of_run_eq hword c (.tail _ hc)) ?_
      exact stops_of_run_eq hword
    · by_cases h₂ : (Text.isDigit b || (b = byte '.' && startsWithDigit (u ++ r))) = true
      · rw [first, if_neg h₁, if_pos h₂] at h
        simp only [Prod.mk.injEq, and_true] at h
        obtain ⟨rfl, hlen⟩ := h
        refine .number ?_ hlen
        simp only [Bool.or_eq_true, Bool.and_eq_true, decide_eq_true_eq] at h₂ ⊢
        rcases h₂ with h₂ | ⟨rfl, h₂⟩
        · exact .inl h₂
        · have hne := fraction_lexeme hlen h₂
          rw [startsWithDigit_append (s := []) hne, append_nil] at h₂
          exact .inr ⟨rfl, h₂⟩
      · simp only [Bool.or_eq_true, Bool.and_eq_true, decide_eq_true_eq, not_or, not_and,
          Bool.not_eq_true] at h₁ h₂
        rw [first_other h₁ h₂.1 h₂.2] at h
        split at h
        · next hq =>
          obtain ⟨rfl, hclosed⟩ := closed_eq h
          exact .string hq (Prod.ext (by simpa using hclosed.1) hclosed.2)
        · split at h
          · next hb =>
            obtain ⟨rfl, hclosed⟩ := closed_eq h
            rw [hb]
            exact .template (Prod.ext (by simpa using hclosed.1) hclosed.2)
          · split at h
            · next hb =>
              obtain ⟨rfl, hclosed⟩ := closed_eq h
              simp only [Bool.and_eq_true, decide_eq_true_eq, Bool.not_eq_true'] at hb
              obtain ⟨rfl, hp⟩ := hb
              generalize hn : (regexp false (u ++ r)).1 = n at hclosed
              have hle : n ≤ u.length := by
                have := hclosed.1
                rw [length_cons] at this
                omega
              have hflags : run isIdentPart (u.drop n ++ r) = (u.drop n).length := by
                have := hclosed.1
                rw [drop_append_of_le_length hle, length_cons] at this
                rw [length_drop]
                rw [ident] at this
                omega
              have hregexp : regexp false (u.take n ++ (u.drop n ++ r)) =
                  ((u.take n).length, true) := by
                rw [← append_assoc, take_append_drop, length_take,
                  Nat.min_eq_left hle]
                exact Prod.ext hn hclosed.2
              have hlexeme : IsLexeme prev .regexp (byte '/' :: (u.take n ++ u.drop n)) r :=
                .regexp hp hregexp (mem_of_run_eq hflags) (stops_of_run_eq hflags)
              rwa [take_append_drop] at hlexeme
            · next hslash =>
              split at h
              · next k' n hpunct =>
                simp only [Prod.mk.injEq, and_true] at h
                obtain ⟨rfl, rfl⟩ := h
                obtain ⟨_, _, hk, htext, _⟩ := punctuator_eq_some hpunct
                rw [← cons_append, take_left] at htext
                rw [← cons_append, ← htext] at hpunct
                rw [← htext]
                refine .punctuator hk hpunct ?_ ?_
                · intro hhead
                  rw [htext] at hhead
                  cases hhead
                  simpa using hslash
                · rintro rfl
                  cases htext
                  exact h₂.2 rfl
              · simp at h

theorem IsLexeme.stable {prev} (h : IsLexeme prev k u r₀) (hr : Stops (glues k) r) :
    IsLexeme prev k u r := by
  cases h with
  | word hb hu _ => exact .word hb hu (by rwa [glues_word] at hr)
  | number hb hn =>
    refine .number hb ((stable_number _ _ _ (Nat.le_of_eq hn) ?_).trans hn)
    exact hr
  | string hq h => exact .string hq (quoted_append h r)
  | template h => exact .template (template_append h r)
  | @regexp u w _ hp h hw _ =>
    rw [← append_assoc] at h
    have hclosed := regexp_append h (by rw [length_append]; omega) r
    rw [append_assoc] at hclosed
    exact .regexp hp hclosed hw hr
  | punctuator hk h hp hdot =>
    have hjoins : Stops (joins k) r := hr.imp fun b hb => by
      simp [glues_punctuator hk, hb]
    have hdigit : k = .dot ∨ k = .optChain → startsWithDigit r = false := by
      intro hk'
      cases r with
      | nil => rfl
      | cons b r =>
        have hglues := hr b rfl
        rw [glues_punctuator hk, Bool.or_eq_false_iff] at hglues
        have hlast := hglues.2
        rcases hk' with rfl | rfl <;> simpa [startsWithDigit] using hlast
    refine .punctuator hk (punctuator_append hk hjoins ?_) hp (fun hk' => hdigit (.inl hk'))
    by_cases hk' : k = .optChain
    · subst hk'
      have hdrop : (Kind.optChain.text ++ r).drop 2 = r := rfl
      simp [fits, hdrop, hdigit (.inr rfl)]
    · simp [fits, hk']

theorem IsLexeme.ne_nil {prev} (h : IsLexeme prev k u r) : u ≠ [] := by
  cases h with
  | punctuator hk h =>
    have := (punctuator_eq_some h).1
    intro hnil
    simp [hnil] at this
  | _ => exact cons_ne_nil _ _

theorem IsLexeme.kind_ne_eof {prev} (h : IsLexeme prev k u r) : k ≠ .eof := by
  have hne := h.ne_nil
  have hfirst := first_of_isLexeme h
  cases u with
  | nil => exact absurd rfl hne
  | cons b u =>
    have := first_kind_ne_eof prev b (u ++ r)
    rw [cons_append] at hfirst
    rwa [hfirst] at this

theorem ofWord_ne_template (w : Text) : Kind.ofWord w ≠ .template := by
  have hkeywords : ∀ k ∈ Kind.keywords, k ≠ .template := by decide
  unfold Kind.ofWord
  cases h : Kind.keywords.find? fun k => k.text == w with
  | none => simp
  | some k => exact hkeywords k (mem_of_find?_eq_some h)

theorem IsLexeme.template_closed {prev} (h : IsLexeme prev .template u r) :
    Lexeme.template u.tail = (u.length - 1, true) := by
  generalize hk : Kind.template = k at h
  cases h with
  | word => exact absurd hk.symm (ofWord_ne_template _)
  | template h =>
    have hclosed := template_append h []
    rwa [append_nil] at hclosed
  | punctuator hmem =>
    subst hk
    exact absurd hmem (by decide)
  | number | string | regexp => cases hk

end Lexeme

open Lexeme (isBlank IsLexeme)

structure Word where
  kind : Kind
  literal : Text
  newlineBefore : Bool
deriving DecidableEq, Repr

def Token.word (t : Token) : Word := ⟨t.kind, t.literal, t.newlineBefore⟩

/-- The text is a row of words with white space between them; `prev` is the kind of the word
before it. -/
inductive Spells : Kind → Text → List Word → Prop where
  | done : (∀ b ∈ g, isBlank b) → Spells prev g [⟨.eof, [], Text.newline ∈ g⟩]
  | word : (∀ b ∈ g, isBlank b) → Settled (u ++ r) → IsLexeme prev k u r → Spells k r ws →
    Spells prev (g ++ (u ++ r)) (⟨k, u, Text.newline ∈ g⟩ :: ws)

def Unmarked (t : Text) : Prop :=
  ¬ [0xEF, 0xBB] <+: t ∧ ¬ [byte '#', byte '!'] <+: t

namespace Lexer
open List

theorem skipTrivia_settled {l : Lexer} (fuel : Nat) (newline : Bool) (hr : Settled l.cursor.rest)
    (hstart : l.atStart → Unmarked l.cursor.rest) : l.skipTrivia fuel newline = (l, newline) := by
  cases fuel with
  | zero => rfl
  | succ fuel =>
    rw [skipTrivia]
    split
    · next t h =>
      rw [h] at hr
      exact absurd rfl (hr.2 rfl).1
    · next t h =>
      rw [h] at hr
      exact absurd rfl (hr.2 rfl).2
    · next b t h₁ h₂ h =>
      rw [h] at hr hstart
      have hblank := hr.1
      simp only [isBlank, Bool.or_eq_false_iff, decide_eq_false_iff_not] at hblank
      have hmarks : ∀ a c : UInt8, (l.atStart → ¬ [a, c] <+: b :: t) →
          ¬ (l.atStart && decide (b = a) && decide (t.head? = some c)) = true := by
        intro a c hnot hmark
        simp only [Bool.and_eq_true, decide_eq_true_eq] at hmark
        obtain ⟨⟨hat, rfl⟩, hc⟩ := hmark
        apply hnot hat
        cases t with
        | nil => cases hc
        | cons d t =>
          cases hc
          exact ⟨t, rfl⟩
      rw [if_neg hblank.1, hblank.2, if_neg Bool.false_ne_true,
        if_neg (hmarks _ _ fun hat => (hstart hat).1),
        if_neg (hmarks _ _ fun hat => (hstart hat).2)]
    · rfl

theorem skipTrivia_blank {l : Lexer} (h : l.cursor.rest = b :: t) (hb : isBlank b) (fuel : Nat)
    (newline : Bool) : l.skipTrivia (fuel + 1) newline =
      skipTrivia fuel { l with cursor := l.cursor.advance } (newline || b = Text.newline) := by
  have hslash : b ≠ 0x2F := by
    rintro rfl
    exact absurd hb (by decide)
  rw [skipTrivia, h]
  split
  · next heq => exact absurd (cons.inj heq).1 hslash
  · next heq => exact absurd (cons.inj heq).1 hslash
  · next heq =>
    cases heq
    simp only [isBlank, Bool.or_eq_true, decide_eq_true_eq] at hb
    by_cases hn : b = Text.newline
    · simp [hn]
    · simp [hn, hb.resolve_left hn]
  · next heq => cases heq

theorem skipTrivia_blanks (fuel : Nat) {l : Lexer} (newline : Bool)
    (hc : l.cursor = .ofText (g ++ r) p) (hg : ∀ b ∈ g, isBlank b) (hr : Settled r)
    (hfuel : g.length < fuel) (hstart : l.base = p.offset → Unmarked (g ++ r))
    (hbase : l.base ≤ p.offset) : l.skipTrivia fuel newline =
      ({ l with cursor := .ofText r (p.after g) }, newline || Text.newline ∈ g) := by
  induction g generalizing l p newline fuel with
  | nil =>
    simp only [nil_append] at hc hstart
    rw [skipTrivia_settled]
    · simp [← hc]
    · rwa [hc]
    · intro hat
      rw [hc, ofText_rest]
      apply hstart
      rw [atStart, hc, ofText_offset, decide_eq_true_eq] at hat
      exact hat.symm
  | cons b g ih =>
    obtain ⟨fuel, rfl⟩ : ∃ n, fuel = n + 1 := ⟨fuel - 1, by omega⟩
    rw [length_cons] at hfuel
    have hcursor : l.cursor.advance = .ofText (g ++ r) (p.step b) := by
      rw [hc, cons_append, Cursor.advance_ofText]
    rw [skipTrivia_blank (by rw [hc]; rfl) (hg b (.head _)),
      ih (l := { l with cursor := l.cursor.advance }) fuel _ hcursor
        (fun c hc => hg c (.tail _ hc)) (by omega)]
    · simp [Bool.or_assoc, eq_comm]
    · intro h
      rw [Position.step_offset] at h
      dsimp only at h
      omega
    · rw [Position.step_offset]
      dsimp only
      omega

theorem next_of_word {l : Lexer} (hc : l.cursor = .ofText (g ++ (u ++ r)) p)
    (hg : ∀ b ∈ g, isBlank b) (hu : Settled (u ++ r)) (hlex : IsLexeme l.prev k u r)
    (hstart : l.base = p.offset → Unmarked (g ++ (u ++ r))) (hbase : l.base ≤ p.offset) :
    l.next = .ok (⟨k, u, p.after g, Text.newline ∈ g⟩, { l with
      cursor := .ofText r ((p.after g).after u), prev := k }) := by
  have hskip := skipTrivia_blanks (l.cursor.rest.length + 1) false hc hg hu
    (by rw [hc, ofText_rest, length_append]; omega) hstart hbase
  have hne := hlex.ne_nil
  have hfirst := Lexeme.first_of_isLexeme hlex
  cases u with
  | nil => exact absurd rfl hne
  | cons b u =>
    rw [cons_append] at hfirst
    rw [next, hskip]
    dsimp only
    rw [scan_eq (b := b) (t := u ++ r) rfl]
    simp only [hfirst, failing]
    rw [take_eq rfl (by rw [length_append]; omega)]
    simp only [bind, Except.bind, pure, Except.pure, if_neg hlex.kind_ne_eof, Bool.false_or,
      take_left, drop_left, Cursor.pos_ofText hu.head_ne_newline]

theorem next_of_done {l : Lexer} (hc : l.cursor = .ofText g p) (hg : ∀ b ∈ g, isBlank b)
    (hstart : l.base = p.offset → Unmarked g) (hbase : l.base ≤ p.offset) :
    l.next = .ok (⟨.eof, [], p.after g, Text.newline ∈ g⟩, { l with
      cursor := .ofText [] (p.after g) }) := by
  rw [← append_nil g] at hc hstart
  have hskip := skipTrivia_blanks (l.cursor.rest.length + 1) false hc hg trivial
    (by rw [hc, ofText_rest, length_append]; omega) hstart hbase
  rw [next, hskip]
  simp only [scan, ofText_rest, bind, Except.bind, pure, Except.pure, if_true, Bool.false_or,
    Cursor.pos_ofText (t := []) (by simp)]

end Lexer
end LabelHooks
