import LabelHooks.Proofs.Streams

/-!
The substitutions of a template literal lie inside it. In one that is closed, each of them is
followed by its brace and by what closes the literal.
-/

namespace LabelHooks
set_option autoImplicit true

open List

namespace Lexeme

theorem closed_above (h : (frames (fs ++ gs) t).2 = true) : (frames fs t).2 = true := by
  fun_induction frames fs t with
  | case1 => rfl
  | case2 | case3 | case8 =>
    rw [cons_append, frames] at h
    cases h
  | case4 fs c t ih =>
    rw [cons_append, frames_template_escape] at h
    exact ih h
  | case5 fs t ih =>
    rw [cons_append, frames_template_open] at h
    exact ih h
  | case6 fs t h₁ h₂ h₃ ih | case7 fs b t h₁ h₂ h₃ hb ih =>
    rw [cons_append, frames_template_plain (ne_escape h₁ h₂) h₃] at h
    exact ih (by simpa [*] using h)
  | case9 q fs t ih =>
    rw [cons_append, frames_string_crlf] at h
    exact ih h
  | case10 q fs c t hc ih =>
    rw [cons_append, frames_string_escape hc] at h
    exact ih h
  | case11 fs b t h₁ h₂ h₃ ih | case13 q fs b t h₁ h₂ h₃ hq hn ih =>
    rw [cons_append, frames_string_plain (ne_escape h₁ h₃)] at h
    exact ih (by simpa [*] using h)
  | case12 q fs t h₁ h₂ h₃ hq =>
    rw [cons_append, frames_string_plain (ne_escape h₁ h₃)] at h
    simp [hq] at h
  | case14 depth fs b t hb ih | case15 depth fs t hb ih | case16 depth fs t hb _ ih
  | case17 fs t _ _ _ ih | case18 fs t depth _ _ _ ih | case19 depth fs b t _ _ _ _ ih =>
    rw [cons_append, frames_braces] at h
    exact ih (by simpa [*] using h)

theorem split_closed (h : frames (f :: fs) t = (n, true)) :
    ∃ u v, t = u ++ v ∧ u ≠ [] ∧ Passes [f] u [] ∧
      (frames [f] t).1 = u.length ∧ frames fs v = (n - u.length, true) := by
  have hclosed : (frames [f] t).2 = true := by
    have h' : (frames ([f] ++ fs) t).2 = true := by rw [singleton_append, h]
    exact closed_above h'
  obtain ⟨u, v, rfl, hu, hpasses⟩ := passes_of_closed (Prod.ext rfl hclosed)
  refine ⟨u, v, rfl, hpasses.ne_nil, hpasses, hu.symm, ?_⟩
  have := hpasses fs v
  rw [singleton_append, h, nil_append] at this
  obtain ⟨k, hk, rfl⟩ := more_eq_closed this.symm
  rw [hk, Nat.add_sub_cancel_left]

end Lexeme

def Text.reach (t : Text) : Nat := if t = [0xEF, 0xBB] then 3 else t.length

theorem Text.length_le_reach (t : Text) : t.length ≤ t.reach := by
  unfold Text.reach
  split
  · next h => simp [h]
  · exact Nat.le_refl _

namespace TemplateParts

open Lexeme (frames more)

theorem quasi_opens (h : quasi t = (n, some true)) : n + 2 ≤ t.length ∧
    ∀ fs, frames (.template :: fs) t = more (n + 2) (frames (.braces 0 :: .template :: fs)
      (t.drop (n + 2))) := by
  fun_induction quasi t generalizing n with
  | case1 | case2 | case5 => cases h
  | case3 c t ih =>
    cases hq : quasi t with
    | mk k s =>
      rw [hq] at h
      cases h
      obtain ⟨hle, hframes⟩ := ih hq
      refine ⟨by simp only [length_cons]; omega, fun fs => ?_⟩
      rw [Lexeme.frames_template_escape, hframes, Lexeme.more_more, Nat.add_comm 2]
      rfl
  | case4 t =>
    cases h
    exact ⟨by simp, fun fs => Lexeme.frames_template_open⟩
  | case6 b t h₁ h₂ h₃ hb ih =>
    cases hq : quasi t with
    | mk k s =>
      rw [hq] at h
      cases h
      obtain ⟨hle, hframes⟩ := ih hq
      refine ⟨by simp only [length_cons]; omega, fun fs => ?_⟩
      rw [Lexeme.frames_template_plain (Lexeme.ne_escape h₁ h₂) h₃, if_neg hb, hframes,
        Lexeme.more_more, Nat.add_comm 1]
      rfl

theorem split_eq_ok (h : split (fuel + 1) c = .ok parts) :
    (c.beyond = false ∧ parts.substitutions = []) ∨ ∃ n parts', quasi c.rest = (n, some true) ∧
        split fuel ((c.advanceBy (n + 2)).advanceBy
          (Lexeme.substitution (c.advanceBy (n + 2)).rest).1) = .ok parts' ∧
        parts.substitutions = ⟨(c.advanceBy (n + 2)).rest.take
          ((Lexeme.substitution (c.advanceBy (n + 2)).rest).1 - 1), (c.advanceBy (n + 2)).pos⟩ ::
          parts'.substitutions := by
  rw [split] at h
  cases hquasi : quasi c.rest with
  | mk n next =>
    rw [hquasi] at h
    match next with
    | none | some false =>
      dsimp only at h
      split at h
      · cases h
      · next hbeyond =>
        cases h
        exact .inl ⟨by simpa using hbeyond, rfl⟩
    | some true =>
      dsimp only at h
      cases hsplit : split fuel ((c.advanceBy (n + 2)).advanceBy
          (Lexeme.substitution (c.advanceBy (n + 2)).rest).1) with
      | error e =>
        rw [hsplit] at h
        cases h
      | ok parts' =>
        rw [hsplit] at h
        cases h
        exact .inr ⟨n, parts', rfl, hsplit, rfl⟩

theorem not_beyond_of_split (h : split fuel c = .ok parts) : c.beyond = false := by
  induction fuel generalizing c parts with
  | zero => cases h
  | succ fuel ih =>
    rcases split_eq_ok h with ⟨hbeyond, _⟩ | ⟨n, parts', _, hsplit, _⟩
    · exact hbeyond
    · cases hc : c.beyond with
      | false => rfl
      | true =>
        have := ih hsplit
        rw [Cursor.beyond_advanceBy (Cursor.beyond_advanceBy hc _)] at this
        cases this

theorem split_inside (h : split fuel c = .ok parts) : ∀ sub ∈ parts.substitutions, ∃ i : Nat,
      sub.pos.offset = c.pos.offset + i ∧ i + sub.source.reach ≤ c.rest.length ∧
      (frames [.template] c.rest = (c.rest.length, true) →
        i + sub.source.length + 2 ≤ c.rest.length) := by
  induction fuel generalizing c parts with
  | zero => cases h
  | succ fuel ih =>
    rcases split_eq_ok h with ⟨_, hnil⟩ | ⟨n, parts', hquasi, hsplit, hcons⟩
    · intro sub hsub
      rw [hnil] at hsub
      cases hsub
    · obtain ⟨hle, hframes⟩ := quasi_opens hquasi
      generalize hopened : c.advanceBy (n + 2) = opened at hsplit hcons
      have hrest : opened.rest = c.rest.drop (n + 2) := by rw [← hopened, Cursor.advanceBy_rest]
      have hoffset : opened.pos.offset = c.pos.offset + (n + 2 : Nat) := by
        rw [← hopened, Cursor.advanceBy_offset]
      have hlength : opened.rest.length = c.rest.length - (n + 2) := by
        rw [hrest, length_drop]
      generalize hm : (Lexeme.substitution opened.rest).1 = m at hsplit hcons
      have hm' : m ≤ opened.rest.length :=
        Cursor.le_length_of_not_beyond (not_beyond_of_split hsplit)
      -- Where the literal is closed, the substitution is, and the literal goes on after it.
      have hclosed : frames [.template] c.rest = (c.rest.length, true) → 0 < m ∧
          frames [.template] (opened.advanceBy m).rest =
            ((opened.advanceBy m).rest.length, true) := by
        intro hall
        have hopen := hframes []
        rw [hall, ← hrest] at hopen
        obtain ⟨k, hk, hsum⟩ := Lexeme.more_eq_closed hopen.symm
        obtain ⟨u, v, huv, hu, _, hu', hv⟩ := Lexeme.split_closed hk
        have hmu : m = u.length := hm.symm.trans hu'
        have hlen := congrArg length huv
        rw [length_append] at hlen
        have hpos : 0 < u.length := length_pos_iff.2 hu
        refine ⟨by omega, ?_⟩
        rw [Cursor.advanceBy_rest, huv, hmu, drop_left, hv]
        congr 1
        omega
      intro sub hsub
      rw [hcons] at hsub
      rcases mem_cons.1 hsub with rfl | hsub
      · refine ⟨n + 2, hoffset, ?_, ?_⟩
        · have htake : (opened.rest.take (m - 1)).length = m - 1 := by
            rw [length_take]
            omega
          rw [Text.reach]
          split
          · next hmark =>
            dsimp only at hmark
            rw [hmark] at htake
            simp only [length_cons, length_nil] at htake
            omega
          · dsimp only
            rw [htake]
            omega
        · intro hall
          obtain ⟨hpos, hrest'⟩ := hclosed hall
          have hne : (opened.advanceBy m).rest ≠ [] := by
            intro hnil
            rw [hnil] at hrest'
            simp [frames] at hrest'
          have hlt := length_pos_iff.2 hne
          rw [Cursor.advanceBy_rest, length_drop] at hlt
          dsimp only
          rw [length_take]
          omega
      · obtain ⟨i, hi, hreach, hend⟩ := ih hsplit sub hsub
        rw [Cursor.advanceBy_rest, length_drop] at hreach
        refine ⟨n + 2 + m + i, ?_, by omega, ?_⟩
        · rw [hi, Cursor.advanceBy_offset, hoffset]
          omega
        · intro hall
          have := hend (hclosed hall).2
          rw [Cursor.advanceBy_rest, length_drop] at this
          omega

theorem ofRaw_inside (h : ofRaw raw p = .ok parts) (hsub : sub ∈ parts.substitutions) :
    ∃ i : Nat, 0 < i ∧ sub.pos.offset = p.offset + i ∧ i + sub.source.reach ≤ raw.length ∧
      (Lexeme.template raw.tail = (raw.length - 1, true) →
        i + sub.source.length + 2 ≤ raw.length) := by
  obtain ⟨i, hi, hreach, hclosed⟩ := split_inside h sub hsub
  have hrest : (Cursor.ofText raw p).advance.rest = raw.tail := by
    cases raw <;> rfl
  have hoffset : (Cursor.ofText raw p).advance.pos.offset = p.offset + 1 := by
    have := Cursor.advanceBy_offset 1 (Cursor.ofText raw p)
    rwa [Lexer.ofText_offset] at this
  rw [hrest, length_tail] at hreach hclosed
  have hpos : 0 < raw.length := by
    cases raw with
    | nil =>
      have := not_beyond_of_split h
      cases this
    | cons b raw => exact Nat.succ_pos _
  refine ⟨1 + i, by omega, ?_, by omega, ?_⟩
  · rw [hi, hoffset]
    omega
  · intro hall
    have := hclosed hall
    omega

end TemplateParts
end LabelHooks
