import LabelHooks.Proofs.Standing

/-!
Template literals are split where the lexer sees their substitutions begin and end, and nothing is
lost: texts and substitutions in turn, between the backticks, are the literal again.
-/

namespace LabelHooks
set_option autoImplicit true

open List

namespace Lexeme

def Frame.isBraces : Frame → Bool
  | .braces _ => true
  | .template | .string _ => false

theorem last_of_closed (h : frames fs t = (n, true)) (hfs : fs.getLast?.any Frame.isBraces) :
    (t.take n).getLast? = some 0x7D := by
  fun_induction frames fs t generalizing n with
  | case1 => cases hfs
  | case2 | case3 | case8 | case12 => cases h
  | case17 fs t _ _ _ ih =>
    obtain ⟨k, hk, rfl⟩ := more_eq_closed h
    cases fs with
    | nil =>
      rw [frames] at hk
      cases hk
      rfl
    | cons f fs =>
      have := ih hk (by simpa using hfs)
      simp [Nat.add_comm, getLast?_cons, this]
  | case6 fs t _ _ _ ih | case11 fs t _ _ _ _ ih =>
    obtain ⟨k, hk, rfl⟩ := more_eq_closed h
    cases fs with
    | nil => cases hfs
    | cons f fs =>
      have := ih hk (by simpa using hfs)
      simp [Nat.add_comm, getLast?_cons, this]
  | case4 fs c t ih | case5 fs t ih | case7 fs b t _ _ _ _ ih | case9 q fs t ih
  | case10 q fs c t _ ih | case13 q fs b t _ _ _ _ _ ih | case14 depth fs b t _ ih
  | case15 depth fs t _ ih | case16 depth fs t _ _ ih | case18 fs t depth _ _ _ ih
  | case19 depth fs b t _ _ _ _ ih =>
    obtain ⟨k, hk, rfl⟩ := more_eq_closed h
    have hlast := hfs
    simp only [getLast?_cons, Option.any_some] at hlast
    have := ih hk (by cases fs <;> simp_all [getLast?_cons, Frame.isBraces])
    simp [Nat.add_comm, getLast?_cons, this]

theorem first_template {prev} (h : (first prev (b :: r)).1 = .template) : b = byte '\x60' := by
  rw [first] at h
  split at h
  · exact absurd h (ofWord_ne_template _)
  · split at h
    · cases h
    · split at h
      · cases h
      · split at h
        · assumption
        · split at h
          · cases h
          · split at h
            · next hpunct =>
              obtain ⟨-, -, hmem, -⟩ := punctuator_eq_some hpunct
              dsimp only at h
              exact absurd (h ▸ hmem) (by decide)
            · cases h

end Lexeme

namespace TemplateParts

open Lexeme (frames more)

theorem quasi_ends (t : Text) :
    ((quasi t).2 = none → ∀ fs, (frames (.template :: fs) t).2 = false) ∧
    ((quasi t).2 = some false → (quasi t).1 < t.length ∧ (t.drop (quasi t).1).head? = some 0x60 ∧
      ∀ fs, frames (.template :: fs) t =
        more ((quasi t).1 + 1) (frames fs (t.drop ((quasi t).1 + 1)))) := by
  fun_induction quasi t with
  | case1 | case2 => simp [frames]
  | case3 c t ih =>
    simp only [Lexeme.frames_template_escape, Lexeme.more_snd, length_cons, drop_succ_cons]
    refine ⟨ih.1, fun h => ?_⟩
    obtain ⟨hlt, hhead, hframes⟩ := ih.2 h
    refine ⟨by omega, hhead, fun fs => ?_⟩
    rw [hframes, Lexeme.more_more, show 2 + ((quasi t).1 + 1) = (quasi t).1 + 2 + 1 by omega]
  | case4 => simp
  | case5 t h₁ h₂ h₃ =>
    simp only [Lexeme.frames_template_plain (Lexeme.ne_escape h₁ h₂) h₃, if_true]
    refine ⟨by simp, fun _ => ⟨Nat.succ_pos _, rfl, fun _ => rfl⟩⟩
  | case6 b t h₁ h₂ h₃ hb ih =>
    simp only [Lexeme.frames_template_plain (Lexeme.ne_escape h₁ h₂) h₃, if_neg hb,
      Lexeme.more_snd, length_cons, drop_succ_cons]
    refine ⟨ih.1, fun h => ?_⟩
    obtain ⟨hlt, hhead, hframes⟩ := ih.2 h
    refine ⟨by omega, hhead, fun fs => ?_⟩
    rw [hframes, Lexeme.more_more, Nat.add_comm 1]

theorem quasi_take (h : quasi t = (n, some b)) : quasi (t.take n ++ [0x60]) = (n, some false) := by
  fun_induction quasi t generalizing n with
  | case1 | case2 => cases h
  | case3 c t ih =>
    obtain ⟨rfl, hb⟩ := Prod.mk.inj h
    simp [quasi, ih (Prod.ext rfl hb)]
  | case4 | case5 =>
    obtain ⟨rfl, -⟩ := Prod.mk.inj h
    rfl
  | case6 c t h₁ h₂ h₃ hc ih =>
    obtain ⟨rfl, hb⟩ := Prod.mk.inj h
    have := ih (Prod.ext rfl hb)
    rw [take_succ_cons, cons_append]
    generalize hu : t.take (quasi t).1 ++ [0x60] = u at this
    have hne : ∀ t', c = 0x24 → u ≠ 0x7B :: t' := by
      rintro t' rfl rfl
      cases t with
      | nil => simp at hu
      | cons d t =>
        cases hq : (quasi (d :: t)).1 with
        | zero => simp [hq] at hu
        | succ k =>
          rw [hq, take_succ_cons, cons_append] at hu
          exact h₃ t rfl (by rw [(cons.inj hu).1])
    rw [quasi, if_neg hc, this]
    · exact fun h _ => Lexeme.ne_escape h₁ h₂ h
    · exact fun _ _ h _ => Lexeme.ne_escape h₁ h₂ h
    · exact fun t' h hu => hne t' h hu

def interleave : List Text → List Text → Text
  | q :: qs, s :: ss => q ++ ([0x24, 0x7B] ++ (s ++ ([0x7D] ++ interleave qs ss)))
  | qs, _ => qs.flatten

/-- All that stands between the backticks. -/
def inner (parts : TemplateParts) : Text :=
  interleave parts.quasis (parts.substitutions.map (·.source))

/-- What stands between the opening backtick and the substitution number `i`, counted from zero. -/
def before (parts : TemplateParts) (i : Nat) : Text :=
  interleave (parts.quasis.take (i + 1)) ((parts.substitutions.take i).map (·.source)) ++
    [0x24, 0x7B]

/-- The parts of the text `t` after an opening backtick, where `t` starts at the offset `o`. -/
structure Cut (o : Int) (t : Text) (parts : TemplateParts) : Prop where
  text : t = parts.inner ++ [0x60]
  length : parts.quasis.length = parts.substitutions.length + 1
  offset : ∀ (i : Nat) (sub : Substitution), parts.substitutions[i]? = some sub →
    sub.pos.offset = o + (parts.before i).length
  plain : ∀ q ∈ parts.quasis, quasi (q ++ [0x60]) = (q.length, some false)
  closed : ∀ sub ∈ parts.substitutions,
    Lexeme.substitution (sub.source ++ [0x7D]) = (sub.source.length + 1, true)

theorem Cut.last (h : quasi (q ++ [0x60]) = (q.length, some false)) :
    Cut o (q ++ [0x60]) ⟨[q], []⟩ :=
  ⟨by simp [inner, interleave], rfl, by simp, by simpa using h, by simp⟩

theorem Cut.more {o : Int} {q t : Text} {sub : Substitution} {parts : TemplateParts}
    (hq : quasi (q ++ [0x60]) = (q.length, some false))
    (hoffset : sub.pos.offset = o + (q.length + 2 : Nat))
    (hsub : Lexeme.substitution (sub.source ++ [0x7D]) = (sub.source.length + 1, true))
    (h : Cut (sub.pos.offset + (sub.source.length + 1 : Nat)) t parts) :
    Cut o (q ++ ([0x24, 0x7B] ++ (sub.source ++ ([0x7D] ++ t))))
      ⟨q :: parts.quasis, sub :: parts.substitutions⟩ where
  text := by
    rw [h.text]
    simp [inner, interleave]
  length := by simp [h.length]
  offset i x hx := by
    cases i with
    | zero =>
      cases hx
      simpa [before, interleave] using hoffset
    | succ i =>
      rw [h.offset i x hx, hoffset]
      simp only [before, take_succ_cons, map_cons, interleave, length_append,
        length_cons, length_nil]
      omega
  plain := forall_mem_cons.2 ⟨hq, h.plain⟩
  closed := forall_mem_cons.2 ⟨hsub, h.closed⟩

theorem split_cut (fuel : Nat) {t : Text} {p : Position} (hfuel : t.length < fuel)
    (hclosed : frames [.template] t = (t.length, true)) :
    ∃ parts, split fuel (.ofText t p) = .ok parts ∧ Cut p.offset t parts := by
  induction fuel generalizing t p with
  | zero => omega
  | succ fuel ih =>
    obtain ⟨hnone, hlast⟩ := quasi_ends t
    rw [split]
    cases hquasi : quasi t with
    | mk n next =>
      rw [hquasi] at hnone hlast
      simp only [Lexer.ofText_rest, hquasi]
      rcases next with _ | _ | _
      case none =>
        have := hnone rfl []
        rw [hclosed] at this
        cases this
      case some.false =>
        obtain ⟨hlt, hhead, hframes⟩ := hlast rfl
        have hlen : t.length = n + 1 := by
          have := hframes []
          rw [hclosed, frames] at this
          exact (Prod.mk.inj this).1
        have ht : t = t.take n ++ [0x60] := by
          conv => lhs; rw [← take_append_drop n t]
          congr 1
          obtain ⟨v, hv⟩ := head?_eq_some_iff.1 hhead
          have := congrArg length hv
          simp only [length_drop, length_cons] at this
          rw [hv, length_eq_zero_iff.1 (show v.length = 0 by omega)]
        refine ⟨_, rfl, ?_⟩
        have hcut := Cut.last (o := p.offset) (q := t.take n) (by
          rw [quasi_take hquasi, length_take_of_le (by omega)])
        rwa [← ht] at hcut
      case some.true =>
        obtain ⟨hle, hframes⟩ := quasi_opens hquasi
        have hopen := hframes []
        rw [hclosed] at hopen
        obtain ⟨k, hk, hsum⟩ := Lexeme.more_eq_closed hopen.symm
        obtain ⟨y, v, hyv, hy, hpasses, hlen, hv⟩ := Lexeme.split_closed hk
        have htotal : t.length = n + 2 + (y.length + v.length) := by
          have := congrArg length hyv
          rw [length_drop, length_append] at this
          omega
        have hclose := hpasses [] []
        simp only [append_nil, frames, more] at hclose
        have hbrace : y = y.take (y.length - 1) ++ [0x7D] := by
          have := Lexeme.last_of_closed hclose rfl
          rw [Nat.add_zero, take_length] at this
          conv => lhs; rw [← dropLast_append_getLast? _ this]
          rw [dropLast_eq_take]
        have hpos : 0 < y.length := length_pos_iff.2 hy
        obtain ⟨parts, hparts, hcut⟩ := ih (t := v)
          (p := (p.after (t.take (n + 2))).after y) (by omega) (by rw [hv]; congr 1; omega)
        rw [Cursor.advanceBy_ofText hle]
        simp only [Lexer.ofText_rest]
        have hm : (Lexeme.substitution (t.drop (n + 2))).1 = y.length := hlen
        rw [hm, hyv, Cursor.advanceBy_ofText (by simp), take_left, drop_left, hparts]
        refine ⟨_, rfl, ?_⟩
        have htext :
            t = t.take n ++ ([0x24, 0x7B] ++ (y.take (y.length - 1) ++ ([0x7D] ++ v))) := by
          conv => lhs; rw [← take_append_drop n t]
          congr 1
          obtain ⟨w, hw⟩ := quasi_text hquasi
          have hdrop : t.drop (n + 2) = w := by
            rw [← drop_drop, ← hw]
            rfl
          rw [← hw, ← hdrop, hyv, ← append_assoc (y.take _), ← hbrace]
        have hsource : (y ++ v).take (y.length - 1) = y.take (y.length - 1) :=
          take_append_of_le_length (by omega)
        have hoffset : (Cursor.ofText (y ++ v) (p.after (t.take (n + 2)))).pos.offset =
            p.offset + ((t.take n).length + 2 : Nat) := by
          rw [Lexer.ofText_offset, Position.after_offset, length_take_of_le hle,
            length_take_of_le (by omega)]
        rw [hsource]
        have hcut' :=
          @Cut.more p.offset (t.take n) v ⟨y.take (y.length - 1), _⟩ parts ?_ hoffset ?_ ?_
        · rwa [← htext] at hcut'
        · rw [quasi_take hquasi, length_take_of_le (by omega)]
        · rw [← hbrace, length_take_of_le (by omega), Nat.sub_add_cancel hpos]
          exact hclose
        · rw [Position.after_offset, Position.after_offset, length_take_of_le hle] at hcut
          rw [hoffset, length_take_of_le (by omega), length_take_of_le (by omega),
            Nat.sub_add_cancel hpos]
          exact hcut

end TemplateParts

namespace Lexer

theorem template_closed {l m : Lexer} (h : l.next = .ok (t, m)) (hk : t.kind = .template)
    (hf : ⟨t.pos, .unterminatedTemplate⟩ ∉ m.faults) :
    ∃ r, t.literal = 0x60 :: r ∧ Lexeme.template r = (r.length, true) := by
  rw [next] at h
  generalize l.skipTrivia (l.cursor.rest.length + 1) false = out at h
  obtain ⟨l₁, newline⟩ := out
  dsimp only at h
  cases hrest : l₁.cursor.rest with
  | nil =>
    rw [scan, hrest] at h
    cases h
    cases hk
  | cons b r =>
    rw [scan_eq hrest] at h
    simp only [failing_eq, take] at h
    split at h
    · cases h
    · next hbeyond =>
      cases h
      obtain rfl := Lexeme.first_template hk
      have hfirst : Lexeme.first l₁.prev (byte '\x60' :: r) = (.template, (Lexeme.template r).1 + 1,
        if (Lexeme.template r).2 then none else some .unterminatedTemplate) := rfl
      have hle := Cursor.le_length_of_not_beyond (by simpa using hbeyond)
      simp only [hfirst, hrest, length_cons, Nat.add_le_add_iff_right] at hle hf ⊢
      cases hclosed : (Lexeme.template r).2 with
      | false => simp [hclosed, faultsAt] at hf
      | true =>
        refine ⟨r.take (Lexeme.template r).1, rfl, ?_⟩
        have hlen := length_take_of_le hle
        have hwhole :
            Lexeme.template (r.take (Lexeme.template r).1 ++ r.drop (Lexeme.template r).1) =
            ((r.take (Lexeme.template r).1).length, true) := by
          rw [take_append_drop, hlen]
          exact Prod.ext rfl hclosed
        simpa using Lexeme.template_append hwhole []

end Lexer

namespace TemplateParts

/-- A template literal that the lexer finds closed is split, wherever it is taken to stand, into
texts and substitutions that make it up again. Each substitution has the offset of its first byte;
no text opens a substitution, and each substitution ends at the brace that closes it for the
lexer. -/
theorem ofRaw_lossless {l m : Lexer} {t : Token} (h : l.next = .ok (t, m))
    (hk : t.kind = .template) (hf : ⟨t.pos, .unterminatedTemplate⟩ ∉ m.faults) (p : Position) :
    ∃ parts : TemplateParts, ofRaw t.literal p = .ok parts ∧
      t.literal = 0x60 :: (parts.inner ++ [0x60]) ∧
      parts.quasis.length = parts.substitutions.length + 1 ∧
      (∀ (i : Nat) (sub : Substitution), parts.substitutions[i]? = some sub →
        sub.pos.offset = p.offset + (0x60 :: parts.before i).length) ∧
      (∀ q ∈ parts.quasis, quasi (q ++ [0x60]) = (q.length, some false)) ∧
      ∀ sub ∈ parts.substitutions,
        Lexeme.substitution (sub.source ++ [0x7D]) = (sub.source.length + 1, true) := by
  obtain ⟨r, hr, hclosed⟩ := Lexer.template_closed h hk hf
  obtain ⟨parts, hparts, hcut⟩ := split_cut (t.literal.length + 1) (p := p.after [0x60])
    (by rw [hr, List.length_cons]; omega) hclosed
  refine ⟨parts, ?_, ?_, hcut.length, fun i sub hsub => ?_, hcut.plain, hcut.closed⟩
  · rw [ofRaw, ← hparts]
    simp only [hr, Cursor.advance_ofText]
    rfl
  · rw [hr, ← hcut.text]
  · rw [hcut.offset i sub hsub, Position.after_offset]
    simp only [List.length_cons, List.length_nil]
    omega

/-- An escaped backtick, a quoted brace, and a literal in a substitution of another one. -/
theorem ofRaw_lossless_nested : ∃ (l m : Lexer) (t : Token), l.next = .ok (t, m) ∧
    t.kind = .template ∧ ⟨t.pos, .unterminatedTemplate⟩ ∉ m.faults ∧
    ∃ parts : TemplateParts, ofRaw t.literal .first = .ok parts ∧
      t.literal = 0x60 :: (parts.inner ++ [0x60]) ∧
      parts.quasis.length = parts.substitutions.length + 1 := by
  let l : Lexer :=
    .ofText "\x60a\\\x60$\x7b\x7b b: '\x7d' \x7d\x7d c$\x7b\x60d$\x7be\x7d\x60\x7d\x60;"
  have h : (l.next.toOption.any fun r => r.1.kind = .template ∧ r.2.faults = []) = true := by
    decide +kernel
  cases hnext : l.next with
  | error e =>
    rw [hnext] at h
    cases h
  | ok r =>
    obtain ⟨t, m⟩ := r
    rw [hnext] at h
    obtain ⟨hk, hm⟩ := of_decide_eq_true h
    have hf : ⟨t.pos, .unterminatedTemplate⟩ ∉ m.faults := by
      rw [hm]
      exact List.not_mem_nil
    obtain ⟨parts, hparts, htext, hlength, -⟩ := ofRaw_lossless hnext hk hf .first
    exact ⟨l, m, t, hnext, hk, hf, parts, hparts, htext, hlength⟩

end TemplateParts
end LabelHooks
