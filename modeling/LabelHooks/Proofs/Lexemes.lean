import LabelHooks.Token.Lexeme

/-!
How far lexemes reach. None reaches past the text, unless the text ends in an escape character;
and a lexeme that has found its end does not depend on what follows.
-/

namespace LabelHooks.Lexeme
set_option autoImplicit true

open Text (isDigit isHexDigit)

theorem forall_byte {P : UInt8 → Prop} (h : ∀ n < 256, P (.ofNat n)) (b : UInt8) : P b := by
  have := h b.toNat b.toNat_lt
  rwa [UInt8.ofNat_toNat] at this

theorem last_tail {b c : UInt8} {t : Text} (h : (b :: t).getLast? ≠ some c) :
    t.getLast? ≠ some c := by
  cases t with
  | nil => simp
  | cons d t => simpa only [List.getLast?_cons_cons] using h

@[simp] theorem more_fst (n : Nat) (r : Nat × Bool) : (more n r).1 = n + r.1 := rfl

@[simp] theorem more_snd (n : Nat) (r : Nat × Bool) : (more n r).2 = r.2 := rfl

@[simp] theorem more_zero (r : Nat × Bool) : more 0 r = r := by
  simp [more]

@[simp] theorem more_more (m n : Nat) (r : Nat × Bool) : more m (more n r) = more (m + n) r := by
  simp [more, Nat.add_assoc]

theorem more_eq_closed {m n : Nat} {r : Nat × Bool} (h : more m r = (n, true)) :
    ∃ k, r = (k, true) ∧ n = m + k := by
  obtain ⟨k, c⟩ := r
  simp only [more, Prod.mk.injEq] at h
  exact ⟨k, by rw [h.2], h.1.symm⟩

theorem ne_escape {b : UInt8} {t : Text} (h₁ : b = 0x5C → t = [] → False)
    (h₂ : ∀ d t', b = 0x5C → t = d :: t' → False) : b ≠ 0x5C := by
  intro hb
  cases t with
  | nil => exact h₁ hb rfl
  | cons d t => exact h₂ d t hb rfl

section Strings

variable {q b c : UInt8} {t : Text}

theorem quoted_crlf : quoted q (0x5C :: 0x0D :: 0x0A :: t) = more 3 (quoted q t) := by
  rw [quoted]

theorem quoted_escape (h : ∀ t', c = 0x0D → t ≠ 0x0A :: t') :
    quoted q (0x5C :: c :: t) = more 2 (quoted q t) := by
  rw [quoted]
  intro t' hc ht
  exact h t' hc ht

theorem quoted_plain (hb : b ≠ 0x5C) : quoted q (b :: t) =
    if b = q then (1, true) else if b = Text.newline then (0, false) else more 1 (quoted q t) := by
  rw [quoted]
  · intro h
    exact absurd h hb
  · intro _ h
    exact absurd h hb
  · intro _ _ h
    exact absurd h hb

theorem quoted_le (q : UInt8) {t : Text} (h : t.getLast? ≠ some 0x5C) :
    (quoted q t).1 ≤ t.length := by
  fun_induction quoted q t with
  | case1 => simp
  | case2 => simp at h
  | case3 t ih =>
    have := ih (last_tail (last_tail (last_tail h)))
    simp only [more_fst, List.length_cons]
    omega
  | case4 b t _ ih =>
    have := ih (last_tail (last_tail h))
    simp only [more_fst, List.length_cons]
    omega
  | case5 t => simp
  | case6 t => simp
  | case7 b t _ _ _ _ _ ih =>
    have := ih (last_tail h)
    simp only [more_fst, List.length_cons]
    omega

theorem quoted_closed {n : Nat} (h : quoted q t = (n, true)) :
    ∃ u v, t = u ++ v ∧ u.length = n ∧ ∀ r, quoted q (u ++ r) = (n, true) := by
  fun_induction quoted q t generalizing n with
  | case1 => cases h
  | case2 => cases h
  | case3 t ih =>
    obtain ⟨k, hk, rfl⟩ := more_eq_closed h
    obtain ⟨u, v, rfl, rfl, hu⟩ := ih hk
    refine ⟨0x5C :: 0x0D :: 0x0A :: u, v, rfl, by simp; omega, fun r => ?_⟩
    simp only [List.cons_append, quoted_crlf, hu]
    rfl
  | case4 c t hc ih =>
    obtain ⟨k, hk, rfl⟩ := more_eq_closed h
    obtain ⟨u, v, rfl, rfl, hu⟩ := ih hk
    refine ⟨0x5C :: c :: u, v, rfl, by simp; omega, fun r => ?_⟩
    have hsafe : ∀ t', c = 0x0D → u ++ r ≠ 0x0A :: t' := by
      intro t' hcr he
      cases u with
      | nil =>
        have := hu []
        simp [quoted] at this
      | cons d u =>
        cases he
        exact hc _ hcr rfl
    simp only [List.cons_append, quoted_escape hsafe, hu]
    rfl
  | case5 t h₁ h₂ h₃ =>
    cases h
    exact ⟨[q], t, rfl, rfl, fun r => by simp [quoted_plain (ne_escape h₁ h₃)]⟩
  | case6 => cases h
  | case7 b t h₁ h₂ h₃ hq hn ih =>
    obtain ⟨k, hk, rfl⟩ := more_eq_closed h
    obtain ⟨u, v, rfl, rfl, hu⟩ := ih hk
    have hb := ne_escape h₁ h₃
    refine ⟨b :: u, v, rfl, by simp; omega, fun r => ?_⟩
    simp only [List.cons_append, quoted_plain hb, hq, hn, if_false, hu]
    rfl

end Strings

section Regexps

variable {inClass : Bool} {b c : UInt8} {t : Text}

theorem regexp_escape : regexp inClass (0x5C :: c :: t) = more 2 (regexp inClass t) := by
  rw [regexp]

theorem regexp_plain (hb : b ≠ 0x5C) : regexp inClass (b :: t) =
    if b = Text.newline then (0, false)
    else if b = byte '/' && !inClass then (1, true)
    else if b = byte '[' then more 1 (regexp true t)
    else if b = byte ']' then more 1 (regexp false t)
    else more 1 (regexp inClass t) := by
  rw [regexp]
  · intro h
    exact absurd h hb
  · intro _ _ h
    exact absurd h hb

theorem regexp_le (inClass : Bool) {t : Text} (h : t.getLast? ≠ some 0x5C) :
    (regexp inClass t).1 ≤ t.length := by
  fun_induction regexp inClass t with
  | case1 | case4 | case5 => simp
  | case2 => simp at h
  | case3 inClass c t ih =>
    have := ih (last_tail (last_tail h))
    simp only [more_fst, List.length_cons]
    omega
  | case6 inClass t _ _ _ _ ih | case7 inClass t _ _ _ _ _ ih
  | case8 inClass b t _ _ _ _ _ _ ih =>
    have := ih (last_tail h)
    simp only [more_fst, List.length_cons]
    omega

theorem regexp_closed {n : Nat} (h : regexp inClass t = (n, true)) :
    ∃ u v, t = u ++ v ∧ u.length = n ∧ ∀ r, regexp inClass (u ++ r) = (n, true) := by
  fun_induction regexp inClass t generalizing n with
  | case1 => cases h
  | case2 => cases h
  | case3 inClass c t ih =>
    obtain ⟨k, hk, rfl⟩ := more_eq_closed h
    obtain ⟨u, v, rfl, rfl, hu⟩ := ih hk
    refine ⟨0x5C :: c :: u, v, rfl, by simp; omega, fun r => ?_⟩
    simp only [List.cons_append, regexp_escape, hu]
    rfl
  | case4 => cases h
  | case5 inClass b t h₁ h₂ hn hs =>
    cases h
    refine ⟨[b], t, rfl, rfl, fun r => ?_⟩
    simp only [List.cons_append, List.nil_append, regexp_plain (ne_escape h₁ h₂), hn, if_false, hs,
      if_true]
  | case6 inClass t h₁ h₂ hn hs ih =>
    obtain ⟨k, hk, rfl⟩ := more_eq_closed h
    obtain ⟨u, v, rfl, rfl, hu⟩ := ih hk
    refine ⟨byte '[' :: u, v, rfl, by simp; omega, fun r => ?_⟩
    simp only [List.cons_append, regexp_plain (ne_escape h₁ h₂), hn, if_false, hs, if_true, hu]
    rfl
  | case7 inClass t h₁ h₂ hn hs ho ih =>
    obtain ⟨k, hk, rfl⟩ := more_eq_closed h
    obtain ⟨u, v, rfl, rfl, hu⟩ := ih hk
    refine ⟨byte ']' :: u, v, rfl, by simp; omega, fun r => ?_⟩
    simp only [List.cons_append, regexp_plain (ne_escape h₁ h₂), hn, if_false, hs, ho, if_true, hu]
    rfl
  | case8 inClass b t h₁ h₂ hn hs ho hc ih =>
    obtain ⟨k, hk, rfl⟩ := more_eq_closed h
    obtain ⟨u, v, rfl, rfl, hu⟩ := ih hk
    refine ⟨b :: u, v, rfl, by simp; omega, fun r => ?_⟩
    simp only [List.cons_append, regexp_plain (ne_escape h₁ h₂), hn, if_false, hs, ho, hc, hu]
    rfl

end Regexps

section Frames

variable {fs gs hs : List Frame} {q b c : UInt8} {t u v : Text}

theorem frames_template_escape :
    frames (.template :: fs) (0x5C :: c :: t) = more 2 (frames (.template :: fs) t) := by
  rw [frames]

theorem frames_template_open : frames (.template :: fs) (0x24 :: 0x7B :: t) =
    more 2 (frames (.braces 0 :: .template :: fs) t) := by
  rw [frames]

theorem frames_template_plain (hb : b ≠ 0x5C) (hd : ∀ t', b = 0x24 → t ≠ 0x7B :: t') :
    frames (.template :: fs) (b :: t) =
      if b = byte '\x60' then more 1 (frames fs t) else more 1 (frames (.template :: fs) t) := by
  rw [frames]
  · intro h
    exact absurd h hb
  · intro _ _ h
    exact absurd h hb
  · intro t' h ht
    exact hd t' h ht

theorem frames_string_crlf : frames (.string q :: fs) (0x5C :: 0x0D :: 0x0A :: t) =
    more 3 (frames (.string q :: fs) t) := by
  rw [frames]

theorem frames_string_escape (h : ∀ t', c = 0x0D → t ≠ 0x0A :: t') :
    frames (.string q :: fs) (0x5C :: c :: t) = more 2 (frames (.string q :: fs) t) := by
  rw [frames]
  intro t' hc ht
  exact h t' hc ht

theorem frames_string_plain (hb : b ≠ 0x5C) : frames (.string q :: fs) (b :: t) =
    if b = q then more 1 (frames fs t) else if b = Text.newline then (0, false)
    else more 1 (frames (.string q :: fs) t) := by
  rw [frames]
  · intro h
    exact absurd h hb
  · intro _ h
    exact absurd h hb
  · intro _ _ h
    exact absurd h hb

theorem frames_braces (depth : Nat) : frames (.braces depth :: fs) (b :: t) =
    if b = byte '\'' || b = byte '"' then more 1 (frames (.string b :: .braces depth :: fs) t)
    else if b = byte '\x60' then more 1 (frames (.template :: .braces depth :: fs) t)
    else if b = 0x7B then more 1 (frames (.braces (depth + 1) :: fs) t)
    else if b = 0x7D then
      match depth with
      | 0 => more 1 (frames fs t)
      | depth + 1 => more 1 (frames (.braces depth :: fs) t)
    else more 1 (frames (.braces depth :: fs) t) := by
  cases depth <;> rw [frames]

theorem frames_le {t : Text} (h : t.getLast? ≠ some 0x5C) : (frames fs t).1 ≤ t.length := by
  fun_induction frames fs t with
  | case1 | case2 | case12 => simp
  | case3 | case8 => simp at h
  | case4 fs c t ih | case5 fs t ih | case10 q fs c t _ ih =>
    have := ih (last_tail (last_tail h))
    simp only [more_fst, List.length_cons]
    omega
  | case9 q fs t ih =>
    have := ih (last_tail (last_tail (last_tail h)))
    simp only [more_fst, List.length_cons]
    omega
  | case6 fs t _ _ _ ih | case7 fs b t _ _ _ _ ih | case11 fs b t _ _ _ ih
  | case13 q fs b t _ _ _ _ _ ih | case14 depth fs b t _ ih | case15 depth fs t _ ih
  | case16 depth fs t _ _ ih | case17 fs t _ _ _ ih | case18 fs t depth _ _ _ ih
  | case19 depth fs b t _ _ _ _ ih =>
    have := ih (last_tail h)
    simp only [more_fst, List.length_cons]
    omega

def Passes (fs : List Frame) (u : Text) (gs : List Frame) : Prop :=
  ∀ hs r, frames (fs ++ hs) (u ++ r) = more u.length (frames (gs ++ hs) r)

namespace Passes

theorem nil (fs : List Frame) : Passes fs [] fs := by
  intro hs r
  simp

theorem ne_nil {f : Frame} (h : Passes (f :: fs) u []) : u ≠ [] := by
  rintro rfl
  have := h [] []
  simp [frames] at this

end Passes

theorem Passes.cons (w : Text) (h : Passes gs u hs)
    (hw : ∀ ks r, frames (fs ++ ks) (w ++ (u ++ r)) = more w.length (frames (gs ++ ks) (u ++ r))) :
    Passes fs (w ++ u) hs := by
  intro ks r
  rw [List.append_assoc, hw, h, more_more, List.length_append]

theorem passes_of_closed {n : Nat} (h : frames fs t = (n, true)) :
    ∃ u v, t = u ++ v ∧ u.length = n ∧ Passes fs u [] := by
  -- The byte after a line end or a dollar sign is among those passed over.
  have ahead : ∀ {f : Frame} {fs : List Frame} {b c d : UInt8} {u v : Text},
      (∀ t', b = c → u ++ v = d :: t' → False) → Passes (f :: fs) u [] →
      ∀ r t', b = c → u ++ r ≠ d :: t' := by
    intro f fs b c d u v h hp r t' hb he
    cases u with
    | nil => exact hp.ne_nil rfl
    | cons d u =>
      cases he
      exact h _ hb rfl
  fun_induction frames fs t generalizing n with
  | case1 t =>
    cases h
    exact ⟨[], t, rfl, rfl, .nil _⟩
  | case2 | case3 | case8 | case12 => cases h
  | case4 fs c t ih =>
    obtain ⟨k, hk, rfl⟩ := more_eq_closed h
    obtain ⟨u, v, rfl, rfl, hu⟩ := ih hk
    exact ⟨[0x5C, c] ++ u, v, rfl, by simp; omega, hu.cons _ fun _ _ => frames_template_escape⟩
  | case5 fs t ih =>
    obtain ⟨k, hk, rfl⟩ := more_eq_closed h
    obtain ⟨u, v, rfl, rfl, hu⟩ := ih hk
    exact ⟨[0x24, 0x7B] ++ u, v, rfl, by simp; omega, hu.cons _ fun _ _ => frames_template_open⟩
  | case6 fs t h₁ h₂ h₃ ih =>
    obtain ⟨k, hk, rfl⟩ := more_eq_closed h
    obtain ⟨u, v, rfl, rfl, hu⟩ := ih hk
    refine ⟨[byte '\x60'] ++ u, v, rfl, by simp; omega, hu.cons _ fun _ _ => ?_⟩
    exact (frames_template_plain (by decide) (fun _ hb => absurd hb (by decide))).trans (if_pos rfl)
  | case7 fs b t h₁ h₂ h₃ hb ih =>
    obtain ⟨k, hk, rfl⟩ := more_eq_closed h
    obtain ⟨u, v, rfl, rfl, hu⟩ := ih hk
    refine ⟨[b] ++ u, v, rfl, by simp; omega, hu.cons _ fun _ r => ?_⟩
    exact (frames_template_plain (ne_escape h₁ h₂) (ahead h₃ hu r)).trans (if_neg hb)
  | case9 q fs t ih =>
    obtain ⟨k, hk, rfl⟩ := more_eq_closed h
    obtain ⟨u, v, rfl, rfl, hu⟩ := ih hk
    exact ⟨[0x5C, 0x0D, 0x0A] ++ u, v, rfl, by simp; omega, hu.cons _ fun _ _ => frames_string_crlf⟩
  | case10 q fs c t hc ih =>
    obtain ⟨k, hk, rfl⟩ := more_eq_closed h
    obtain ⟨u, v, rfl, rfl, hu⟩ := ih hk
    exact ⟨[0x5C, c] ++ u, v, rfl, by simp; omega,
      hu.cons _ fun _ r => frames_string_escape (ahead hc hu r)⟩
  | case11 fs b t h₁ h₂ h₃ ih =>
    obtain ⟨k, hk, rfl⟩ := more_eq_closed h
    obtain ⟨u, v, rfl, rfl, hu⟩ := ih hk
    refine ⟨[b] ++ u, v, rfl, by simp; omega, hu.cons _ fun _ r => ?_⟩
    exact (frames_string_plain (ne_escape h₁ h₃)).trans (if_pos rfl)
  | case13 q fs b t h₁ h₂ h₃ hq hn ih =>
    obtain ⟨k, hk, rfl⟩ := more_eq_closed h
    obtain ⟨u, v, rfl, rfl, hu⟩ := ih hk
    refine ⟨[b] ++ u, v, rfl, by simp; omega, hu.cons _ fun _ r => ?_⟩
    exact (frames_string_plain (ne_escape h₁ h₃)).trans ((if_neg hq).trans (if_neg hn))
  | case14 depth fs b t hb ih | case15 depth fs t hb ih | case16 depth fs t hb _ ih
  | case17 fs t _ _ _ ih | case18 fs t depth _ _ _ ih | case19 depth fs b t _ _ _ _ ih =>
    obtain ⟨k, hk, rfl⟩ := more_eq_closed h
    obtain ⟨u, v, rfl, rfl, hu⟩ := ih hk
    refine ⟨[_] ++ u, v, rfl, by simp; omega, hu.cons _ fun _ r => (frames_braces _).trans ?_⟩
    simp_all

end Frames

theorem blockComment_le (t : Text) : (blockComment t).1 ≤ t.length := by
  fun_induction blockComment t with
  | case1 => simp
  | case2 => simp
  | case3 b t _ ih =>
    simp only [more_fst, List.length_cons]
    omega

def Stops (p : UInt8 → Bool) (r : Text) : Prop := ∀ b, r.head? = some b → p b = false

theorem Stops.imp {p q : UInt8 → Bool} {r : Text} (h : Stops q r) (hpq : ∀ b, p b → q b) :
    Stops p r := by
  intro b hb
  have hq := h b hb
  cases hp : p b with
  | false => rfl
  | true => rw [hpq b hp] at hq; cases hq

theorem take_run (p : UInt8 → Bool) (t : Text) : t.take (run p t) = t.takeWhile p :=
  (List.prefix_iff_eq_take.1 (List.takeWhile_prefix p)).symm

theorem run_of_stops {p : UInt8 → Bool} {r : Text} (h : Stops p r) : run p r = 0 := by
  cases r with
  | nil => rfl
  | cons b r => simp [run, h b rfl]

theorem run_append {p : UInt8 → Bool} {u r : Text} (hu : ∀ b ∈ u, p b) (hr : Stops p r) :
    run p (u ++ r) = u.length := by
  rw [run, List.takeWhile_append_of_pos hu, List.length_append]
  have := run_of_stops hr
  rw [run] at this
  rw [this, Nat.add_zero]

section Numbers

def extendsNumber (b : UInt8) : Bool :=
  isIdentPart b || b = byte '.' || b = byte '+' || b = byte '-'

/-- A length that is found inside `u` is found there too when nothing that could go on with a
number follows `u`. -/
def Stable (f : Text → Nat) : Prop :=
  ∀ u r₀ r, f (u ++ r₀) ≤ u.length → Stops extendsNumber r → f (u ++ r) = f (u ++ r₀)

theorem Stable.andThen {f : Text → Nat} {g : Nat → Text → Nat} (hf : Stable f)
    (hg : ∀ n, Stable (g n)) : Stable fun t => f t + g (f t) (t.drop (f t)) := by
  intro u r₀ r hle hr
  dsimp only at hle ⊢
  have hn := hf u r₀ r (by omega) hr
  rw [hn]
  generalize f (u ++ r₀) = n at hle
  have hnu : n ≤ u.length := by omega
  rw [List.drop_append_of_le_length hnu] at hle ⊢
  rw [List.drop_append_of_le_length hnu]
  rw [hg n (u.drop n) r₀ r (by rw [List.length_drop]; omega) hr]

theorem stable_run {p : UInt8 → Bool} (hp : ∀ b, p b → extendsNumber b) : Stable (run p) := by
  intro u r₀ r hle hr
  induction u with
  | nil =>
    have hzero : run p r₀ = 0 := by simpa using hle
    simp [run_of_stops (hr.imp hp), hzero]
  | cons b u ih =>
    simp only [run, List.cons_append, List.takeWhile_cons] at hle ih ⊢
    cases hb : p b with
    | false => simp
    | true =>
      rw [hb] at hle
      simp only [if_true, List.length_cons] at hle ⊢
      rw [ih (by omega)]

theorem extendsNumber_of_ident {b : UInt8} (h : isIdentPart b) : extendsNumber b := by
  simp [extendsNumber, h]

theorem extendsNumber_of_digit {b : UInt8} (h : isDigit b) : extendsNumber b :=
  extendsNumber_of_ident (by simp [isIdentPart, h])

set_option maxRecDepth 20000 in
theorem extendsNumber_of_separator : ∀ b, isDigitOrSeparator b → extendsNumber b :=
  forall_byte (by decide)

set_option maxRecDepth 20000 in
theorem extendsNumber_of_hex : ∀ b, (isHexDigit b || b = byte '_') → extendsNumber b :=
  forall_byte (by decide)

theorem stable_byte (c : Option UInt8 → Prop) [DecidablePred c] (hnone : ¬ c none)
    (hsome : ∀ b, c (some b) → extendsNumber b) : Stable fun t => if c t.head? then 1 else 0 := by
  intro u r₀ r hle hr
  cases u with
  | cons b u => rfl
  | nil =>
    have hr₀ : ¬ c r₀.head? := by
      intro h
      simp [h] at hle
    have hr' : ¬ c r.head? := by
      cases r with
      | nil => exact hnone
      | cons b r =>
        intro h
        exact absurd (hsome b h) (by simp [hr b rfl])
    simp [hr₀, hr']

theorem stable_suffixN : Stable suffixN := by
  apply stable_byte (· = some (byte 'n'))
  · simp
  · intro b hb
    cases hb
    decide

theorem startsWithDigit_of_stops {r : Text} (h : Stops extendsNumber r) :
    startsWithDigit r = false := by
  cases r with
  | nil => rfl
  | cons b r =>
    cases hb : isDigit b with
    | false => simp [startsWithDigit, hb]
    | true => exact absurd (extendsNumber_of_digit hb) (by simp [h b rfl])

theorem run_pos_of_digit {t : Text} (h : startsWithDigit t) : 0 < run isDigitOrSeparator t := by
  cases t with
  | nil => cases h
  | cons b t =>
    have hb : isDigit b = true := by simpa [startsWithDigit] using h
    simp [run, isDigitOrSeparator, hb]

theorem fraction_of_ne {digits : Nat} {t : Text} (h : t.head? ≠ some 0x2E) :
    fraction digits t = 0 := by
  rw [fraction]
  intro t' ht
  rw [ht] at h
  exact h rfl

theorem stable_fraction (digits : Nat) : Stable (fraction digits) := by
  intro u r₀ r hle hr
  cases u with
  | nil =>
    have hr₀ : fraction digits r₀ = 0 := by simpa using hle
    have hdot : r.head? ≠ some 0x2E := by
      intro h
      exact absurd (hr _ h) (by decide)
    rw [List.nil_append, List.nil_append, hr₀, fraction_of_ne hdot]
  | cons b u =>
    by_cases hb : b = 0x2E
    · subst hb
      simp only [List.cons_append, fraction, List.length_cons] at hle ⊢
      have hrun := stable_run (p := isDigitOrSeparator) extendsNumber_of_separator u r₀ r
      have hstart : startsWithDigit (u ++ r) = startsWithDigit (u ++ r₀) := by
        cases u with
        | cons c u => rfl
        | nil =>
          simp only [List.nil_append, startsWithDigit_of_stops hr]
          cases hd : startsWithDigit r₀ with
          | false => rfl
          | true =>
            have := run_pos_of_digit hd
            simp [hd] at hle
            omega
      rw [hstart]
      split at hle
      · next hc => rw [if_pos hc, if_pos hc, hrun (by omega) hr]
      · next hc => rw [if_neg hc, if_neg hc]
    · rw [List.cons_append, List.cons_append, fraction_of_ne (by simpa using hb),
        fraction_of_ne (by simpa using hb)]

theorem stable_exponent : Stable exponent := by
  have hsign := stable_byte (fun o => (o = some (byte '+') || o = some (byte '-')) = true)
    (by decide) (by
      intro b hb
      simp only [Option.some.injEq, Bool.or_eq_true, decide_eq_true_eq] at hb
      rcases hb with rfl | rfl <;> decide)
  have hdigits := hsign.andThen fun _ =>
    stable_run (p := isDigit) fun _ => extendsNumber_of_digit
  intro u r₀ r hle hr
  cases u with
  | nil =>
    have hr₀ : exponent r₀ = 0 := by simpa using hle
    have hmark : ∀ b, (b = byte 'e' ∨ b = byte 'E') → r.head? ≠ some b := by
      intro b hb h
      have := hr b h
      rcases hb with rfl | rfl <;> exact absurd this (by decide)
    rw [List.nil_append, List.nil_append, hr₀, exponent]
    simp [hmark]
  | cons b u =>
    have hcons : ∀ t, exponent (b :: t) =
        if some b = some (byte 'e') || some b = some (byte 'E') then
          1 + ((if t.head? = some (byte '+') || t.head? = some (byte '-') then 1 else 0) +
          run isDigit (t.drop
            (if t.head? = some (byte '+') || t.head? = some (byte '-') then 1 else 0)))
        else 0 := by
      intro t
      simp only [exponent, List.head?_cons, List.tail_cons, Nat.add_assoc]
      rfl
    rw [List.cons_append, List.cons_append, hcons, hcons]
    rw [List.cons_append, hcons] at hle
    by_cases hb : (some b = some (byte 'e') || some b = some (byte 'E')) = true
    · rw [if_pos hb, List.length_cons] at hle
      rw [if_pos hb, if_pos hb]
      exact congrArg (1 + ·) (hdigits u r₀ r (by dsimp only; omega) hr)
    · rw [if_neg hb, if_neg hb]

theorem stable_decimal : Stable decimal :=
  (((stable_run extendsNumber_of_separator).andThen stable_fraction).andThen
    fun _ => stable_exponent).andThen fun _ => stable_suffixN

theorem stable_prefixed : Stable prefixed := by
  have htwo : Stable fun _ => 2 := fun _ _ _ _ _ => rfl
  exact (htwo.andThen fun _ => stable_run extendsNumber_of_hex).andThen
    fun _ => stable_suffixN

def marked : Text → Bool
  | 0x30 :: r :: _ => isRadix r
  | _ => false

theorem number_eq (t : Text) : number t = if marked t then prefixed t else decimal t := by
  unfold number marked
  split
  · rfl
  · next h =>
    split
    · simp_all
    · rfl

set_option maxRecDepth 20000 in
theorem extendsNumber_of_radix : ∀ b, isRadix b → extendsNumber b :=
  forall_byte (by decide)

theorem marked_append_of_stops {u r : Text} (hu : u.length < 2) (hr : Stops extendsNumber r) :
    marked (u ++ r) = false := by
  match u, hu with
  | [], _ =>
    cases r with
    | nil => rfl
    | cons b r =>
      have hb : b ≠ 0x30 := by
        rintro rfl
        exact absurd (hr _ rfl) (by decide)
      rw [List.nil_append, marked]
      intro r' t' h
      cases h
      exact absurd rfl hb
  | [b], _ =>
    cases r with
    | nil => simp [marked]
    | cons c r =>
      rw [List.cons_append, List.nil_append]
      unfold marked
      split
      · next h =>
        cases h
        cases hc : isRadix c with
        | false => rfl
        | true => exact absurd (extendsNumber_of_radix c hc) (by simp [hr c rfl])
      · rfl

theorem stable_number : Stable number := by
  intro u r₀ r hle hr
  rw [number_eq] at hle
  have hmarked : marked (u ++ r) = marked (u ++ r₀) := by
    by_cases hu : u.length < 2
    · rw [marked_append_of_stops hu hr]
      cases hm : marked (u ++ r₀) with
      | false => rfl
      | true =>
        simp only [hm, if_true, prefixed] at hle
        omega
    · match u, hu with
      | [], hu => simp at hu
      | [b], hu => simp at hu
      | b :: c :: u, _ =>
        simp only [List.cons_append]
        unfold marked
        split <;> split <;> simp_all
  rw [number_eq, number_eq, hmarked]
  cases hm : marked (u ++ r₀) with
  | true =>
    simp only [hm, if_true] at hle ⊢
    exact stable_prefixed u r₀ r hle hr
  | false =>
    simp only [hm, Bool.false_eq_true, if_false] at hle ⊢
    exact stable_decimal u r₀ r hle hr

theorem run_le (p : UInt8 → Bool) (t : Text) : run p t ≤ t.length :=
  (List.takeWhile_sublist p).length_le

theorem run_pos {p : UInt8 → Bool} {b : UInt8} (h : p b) (t : Text) : 0 < run p (b :: t) := by
  simp [run, h]

theorem suffixN_le (t : Text) : suffixN t ≤ t.length := by
  cases t with
  | nil => simp [suffixN]
  | cons b t =>
    rw [suffixN, List.length_cons]
    split <;> omega

theorem fraction_le (digits : Nat) (t : Text) : fraction digits t ≤ t.length := by
  unfold fraction
  split
  · next t =>
    have := run_le isDigitOrSeparator t
    rw [List.length_cons]
    split <;> omega
  · exact Nat.zero_le _

theorem exponent_le (t : Text) : exponent t ≤ t.length := by
  match t with
  | [] => simp [exponent]
  | [b] =>
    simp only [exponent, List.tail_cons, List.head?_nil, List.drop_nil, run, List.takeWhile_nil]
    split <;> simp
  | b :: c :: t =>
    simp only [exponent, List.tail_cons, List.length_cons]
    have h₀ := run_le isDigit (c :: t)
    have h₁ := run_le isDigit t
    rw [List.length_cons] at h₀
    have hsign : ∀ n, n = 0 ∨ n = 1 → 1 + n + run isDigit ((c :: t).drop n) ≤ t.length + 1 + 1 := by
      rintro n (rfl | rfl)
      · rw [List.drop_zero]
        omega
      · rw [List.drop_succ_cons, List.drop_zero]
        omega
    split
    · apply hsign
      by_cases h : ((c :: t).head? = some (byte '+') || (c :: t).head? = some (byte '-')) = true
      · exact .inr (if_pos h)
      · exact .inl (if_neg h)
    · omega

theorem decimal_le (t : Text) : decimal t ≤ t.length := by
  simp only [decimal]
  have h₁ := run_le isDigitOrSeparator t
  generalize run isDigitOrSeparator t = n₁ at *
  have h₂ := fraction_le n₁ (t.drop n₁)
  generalize fraction n₁ (t.drop n₁) = n₂ at *
  rw [List.length_drop] at h₂
  have h₃ := exponent_le (t.drop (n₁ + n₂))
  generalize exponent (t.drop (n₁ + n₂)) = n₃ at *
  rw [List.length_drop] at h₃
  have h₄ := suffixN_le (t.drop (n₁ + n₂ + n₃))
  rw [List.length_drop] at h₄
  omega

theorem prefixed_le {t : Text} (h : 2 ≤ t.length) : prefixed t ≤ t.length := by
  simp only [prefixed]
  have h₁ := run_le (fun b => isHexDigit b || b = byte '_') (t.drop 2)
  generalize run (fun b => isHexDigit b || b = byte '_') (t.drop 2) = n₁ at *
  have h₂ := suffixN_le (t.drop (2 + n₁))
  rw [List.length_drop] at h₁ h₂
  omega

theorem number_le (t : Text) : number t ≤ t.length := by
  rw [number_eq]
  split
  · next h =>
    apply prefixed_le
    match t, h with
    | [], h => simp [marked] at h
    | [_], h => simp [marked] at h
    | _ :: _ :: t, _ => simp
  · exact decimal_le t

theorem number_pos {b : UInt8} {t : Text}
    (h : isDigit b || (b = byte '.' && startsWithDigit t)) : 0 < number (b :: t) := by
  rw [number_eq]
  split
  · simp only [prefixed]
    omega
  · simp only [Bool.or_eq_true, Bool.and_eq_true, decide_eq_true_eq] at h
    rcases h with h | ⟨rfl, h⟩
    · have := run_pos (p := isDigitOrSeparator) (b := b) (by simp [isDigitOrSeparator, h]) t
      simp only [decimal]
      omega
    · have hrun : run isDigitOrSeparator (byte '.' :: t) = 0 := rfl
      have hfrac : fraction 0 (byte '.' :: t) = 1 + run isDigitOrSeparator t := by
        rw [show byte '.' = 0x2E from rfl, fraction]
        simp
      simp only [decimal, hrun, List.drop_zero, hfrac]
      omega

end Numbers

section Punctuators

open Token (Kind)

theorem punctuatorOf_eq_some {t : Text} {n : Nat} {k : Kind} (h : punctuatorOf t n = some k) :
    n ≤ t.length ∧ k ∈ Kind.punctuators ∧ k.text = t.take n ∧ fits t k := by
  unfold punctuatorOf at h
  split at h
  · cases h
  · next hn =>
    have hfound := List.find?_some h
    simp only [Bool.and_eq_true, beq_iff_eq] at hfound
    exact ⟨by omega, List.mem_of_find?_eq_some h, hfound⟩

theorem punctuator_eq_some {t : Text} {k : Kind} {n : Nat} (h : punctuator t = some (k, n)) :
    n ≠ 0 ∧ n ≤ t.length ∧ k ∈ Kind.punctuators ∧ k.text = t.take n ∧ fits t k := by
  obtain ⟨m, hm, hfound⟩ := List.exists_of_findSome?_eq_some h
  obtain ⟨k', hk, hpair⟩ := Option.map_eq_some_iff.1 hfound
  cases hpair
  have hpos : n ≠ 0 := by
    rintro rfl
    simp at hm
  exact ⟨hpos, punctuatorOf_eq_some hk⟩

def joins (k : Kind) (b : UInt8) : Bool :=
  Kind.punctuators.any fun k' => (k.text ++ [b]).isPrefixOf k'.text

set_option maxRecDepth 4000 in
theorem punctuator_text_inj : ∀ k ∈ Kind.punctuators, ∀ k' ∈ Kind.punctuators,
    k.text = k'.text → k = k' := by
  decide

theorem punctuator_text_length : ∀ k ∈ Kind.punctuators, k.text.length ∈ [4, 3, 2, 1] := by
  decide

theorem punctuator_append {k : Kind} (hk : k ∈ Kind.punctuators) {r : Text}
    (hr : Stops (joins k) r) (hfits : fits (k.text ++ r) k) :
    punctuator (k.text ++ r) = some (k, k.text.length) := by
  have hlong : ∀ n, k.text.length < n → punctuatorOf (k.text ++ r) n = none := by
    intro n hn
    cases hfound : punctuatorOf (k.text ++ r) n with
    | none => rfl
    | some k' =>
      obtain ⟨hle, hk', htext, _⟩ := punctuatorOf_eq_some hfound
      rw [List.length_append] at hle
      cases r with
      | nil => exact absurd hle (by simp only [List.length_nil]; omega)
      | cons b r =>
        have hjoin : joins k b = true := by
          rw [joins, List.any_eq_true]
          refine ⟨k', hk', ?_⟩
          rw [List.isPrefixOf_iff_prefix, htext, List.prefix_take_iff]
          constructor
          · exact (List.prefix_append_right_inj _).2 ⟨r, rfl⟩
          · rw [List.length_append, List.length_singleton]
            omega
        rw [hr b rfl] at hjoin
        cases hjoin
  have hself : punctuatorOf (k.text ++ r) k.text.length = some k := by
    rw [punctuatorOf, if_neg (by rw [List.length_append]; omega), List.take_left]
    cases hfound : Kind.punctuators.find? fun k' => k'.text == k.text && fits (k.text ++ r) k' with
    | none =>
      have hnot := List.find?_eq_none.1 hfound k hk
      simp [hfits] at hnot
    | some k' =>
      have htext := List.find?_some hfound
      simp only [Bool.and_eq_true, beq_iff_eq] at htext
      rw [punctuator_text_inj k' (List.mem_of_find?_eq_some hfound) k hk htext.1]
  have hlength := punctuator_text_length k hk
  simp only [List.mem_cons, List.not_mem_nil, or_false] at hlength
  rcases hlength with h | h | h | h <;> rw [h] at hself hlong ⊢ <;>
    simp [punctuator, hself, hlong]

end Punctuators

end LabelHooks.Lexeme
