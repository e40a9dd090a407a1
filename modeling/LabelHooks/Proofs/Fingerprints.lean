import LabelHooks.Build.Compiler
import LabelHooks.Proofs.Paths

/-!
What a cache key stands for. A fingerprint spells the options of the pass between quotes and holds
no zero byte, so that settings and content can be told apart in the text that is digested.
-/

namespace LabelHooks
set_option autoImplicit true

open List

namespace Text

theorem append_cons_inj {x : UInt8} {a b u v : Text} (ha : x ∉ a) (hb : x ∉ b)
    (h : a ++ x :: u = b ++ x :: v) : a = b ∧ u = v := by
  induction a generalizing b with
  | nil =>
    cases b with
    | nil => exact ⟨rfl, (cons.inj h).2⟩
    | cons c b =>
      obtain ⟨rfl, -⟩ := cons.inj h
      exact absurd mem_cons_self hb
  | cons c a ih =>
    cases b with
    | nil =>
      obtain ⟨rfl, -⟩ := cons.inj h
      exact absurd mem_cons_self ha
    | cons d b =>
      obtain ⟨rfl, hrest⟩ := cons.inj h
      obtain ⟨rfl, rfl⟩ := ih (fun hx => ha (.tail _ hx)) (fun hx => hb (.tail _ hx)) hrest
      exact ⟨rfl, rfl⟩

theorem notMem_join (hsep : x ∉ sep) (h : ∀ t ∈ ts, x ∉ t) : x ∉ join sep ts := by
  induction ts with
  | nil => exact not_mem_nil
  | cons t ts ih =>
    rw [forall_mem_cons] at h
    cases ts with
    | nil => exact h.1
    | cons t' ts =>
      rw [join]
      simp only [mem_append, h.1, hsep, ih h.2, or_self, not_false_eq_true]
      exact fun hts => nomatch hts

theorem zero_notMem_ofCode (h : 0x20 ≤ n) : 0 ∉ ofCode n := by
  have hbyte : ∀ k : Nat, 0 < k % 256 → (0 : UInt8) ≠ k.toUInt8 := by
    intro k hk hzero
    have hmod := congrArg UInt8.toNat hzero
    simp only [UInt8.toNat_zero, Nat.toUInt8, UInt8.toNat_ofNat'] at hmod
    omega
  rw [ofCode]
  split
  · simp only [mem_singleton]
    exact hbyte n (by omega)
  split
  · simp only [mem_cons, not_mem_nil, or_false, not_or]
    exact ⟨hbyte _ (by omega), hbyte _ (by omega)⟩
  split
  · decide
  next hn =>
  simp only [Bool.or_eq_true, decide_eq_true_eq, not_or, gt_iff_lt, Nat.not_lt] at hn
  split
  · simp only [mem_cons, not_mem_nil, or_false, not_or]
    exact ⟨hbyte _ (by omega), hbyte _ (by omega), hbyte _ (by omega)⟩
  · simp only [mem_cons, not_mem_nil, or_false, not_or]
    exact ⟨hbyte _ (by omega), hbyte _ (by omega), hbyte _ (by omega), hbyte _ (by omega)⟩

end Text

namespace Json

def escapedCodes : List Nat := [0x22, 0x5C, 0x3C, 0x3E, 0x26, 0x2028, 0x2029]

theorem zero_notMem_escapedCode (n : Nat) : 0 ∉ escapedCode n := by
  have hcontrol : ∀ k < 0x20, (0 : UInt8) ∉ escapedCode k := by decide
  have hescaped : ∀ k ∈ escapedCodes, (0 : UInt8) ∉ escapedCode k := by decide
  by_cases hn : n < 0x20
  · exact hcontrol n hn
  by_cases hmem : n ∈ escapedCodes
  · exact hescaped n hmem
  have hcode : escapedCode n = Text.ofCode n := by
    simp only [escapedCodes, mem_cons, not_mem_nil, or_false, not_or] at hmem
    simp only [escapedCode]
    grind
  rw [hcode]
  exact Text.zero_notMem_ofCode (by omega)

theorem zero_notMem_quoted (t : Text) : 0 ∉ quoted t := by
  have hrune : ∀ r : Rune, 0 ∉ escapedRune r := by
    intro r
    rw [escapedRune]
    split
    · decide
    · exact zero_notMem_escapedCode _
  rw [quoted]
  simp only [cons_append, mem_cons, mem_append, mem_flatMap, not_mem_nil,
    or_false, not_or, not_exists, not_and]
  exact ⟨by decide, fun r _ => hrune r, by decide⟩

theorem compact_string (t : Text) : compact (.string t) = quoted t := by rw [compact]

theorem compact_object (members : List (Text × Json)) : compact (.object members) =
    ("\x7b" : Text) ++ Text.join "," (compactMembers members) ++ ("\x7d" : Text) := by rw [compact]

theorem zero_notMem_object (h : ∀ m ∈ members, 0 ∉ compact m.2) :
    0 ∉ compact (.object members) := by
  have hmembers : ∀ t ∈ compactMembers members, (0 : UInt8) ∉ t := by
    induction members with
    | nil => exact fun t ht => absurd ht not_mem_nil
    | cons m members ih =>
      obtain ⟨k, v⟩ := m
      rw [forall_mem_cons] at h
      rw [compactMembers, forall_mem_cons]
      refine ⟨?_, ih h.2⟩
      simp only [mem_append, zero_notMem_quoted, false_or, not_or]
      exact ⟨by decide, h.1⟩
  have hsep : (0 : UInt8) ∉ ("," : Text) := by decide
  have hjoin := Text.notMem_join hsep hmembers
  simp only [compact_object, mem_append, hjoin, or_false, not_or]
  decide

def isVerbatim (b : UInt8) : Bool := Options.isNameStart b || Text.isDigit b || b = byte '.'

theorem verbatim (h : isVerbatim b = true) :
    escapedRune ⟨b.toNat, 1⟩ = [b] ∧ b < 0x80 ∧ b ≠ byte '"' := by
  have hall : ∀ n < 256, isVerbatim (.ofNat n) = true →
      escapedRune ⟨(UInt8.ofNat n).toNat, 1⟩ = [.ofNat n] ∧ UInt8.ofNat n < 0x80 ∧
        UInt8.ofNat n ≠ byte '"' := by decide +kernel
  have hb := hall b.toNat b.toNat_lt
  rw [UInt8.ofNat_toNat] at hb
  exact hb h

theorem quoted_of_verbatim (h : ∀ b ∈ t, isVerbatim b = true) :
    quoted t = byte '"' :: t ++ [byte '"'] := by
  have hrunes : (Text.runes t).flatMap escapedRune = t := by
    induction t with
    | nil => rfl
    | cons b t ih =>
      obtain ⟨hescaped, hlt, -⟩ := verbatim (h b mem_cons_self)
      have hrune : Text.rune (b :: t) = ⟨b.toNat, 1⟩ := by simp only [Text.rune, if_pos hlt]
      have hcons : Text.runes (b :: t) = ⟨b.toNat, 1⟩ :: Text.runes t := by
        rw [Text.runes, Text.runesFrom, hrune]
        rfl
      rw [hcons, flatMap_cons, hescaped, ih fun c hc => h c (.tail _ hc)]
      rfl
  rw [quoted, hrunes]

theorem quote_notMem_of_verbatim {t : Text} (h : ∀ b ∈ t, isVerbatim b = true) : byte '"' ∉ t :=
  fun hmem => (verbatim (h _ hmem)).2.2 rfl

end Json

namespace Options

open Json (isVerbatim)

theorem verbatim_of_isWord (h : isWord t = true) : ∀ b ∈ t, isVerbatim b = true := by
  cases t with
  | nil => cases h
  | cons c t =>
    simp only [isWord, Bool.and_eq_true, all_eq_true] at h
    intro b hb
    obtain rfl | hb := mem_cons.1 hb
    · simp [isVerbatim, h.1]
    · rw [isVerbatim, h.2 b hb, Bool.true_or]

theorem verbatim_of_isPath (h : isPath t = true) : ∀ b ∈ t, isVerbatim b = true := by
  intro b hb
  obtain rfl | ⟨piece, hpiece, hb⟩ := Text.mem_splitOn (byte '.') hb
  · decide
  · exact verbatim_of_isWord (all_eq_true.1 h piece hpiece) b hb

def texts (o : Options) : List Text :=
  [o.stateLabel, o.watchLabel, o.stateFactory, o.effectFactory, o.memoFactory]

theorem texts_of_validate {o : Options} (h : o.validate = .ok ()) :
    ∀ t ∈ o.texts, ∀ b ∈ t, isVerbatim b = true := by
  obtain ⟨⟨hs, hw⟩, hf, he, hm⟩ := words_of_validate h
  simp only [texts, forall_mem_cons]
  exact ⟨verbatim_of_isWord hs, verbatim_of_isWord hw, verbatim_of_isPath hf,
    verbatim_of_isPath he, verbatim_of_isPath hm, fun _ ht => absurd ht not_mem_nil⟩

end Options

namespace Compiler

variable {c c' : Compiler} {u u' : Text}

def keyText (c : Compiler) (content : Text) : Text := c.fingerprint ++ ([0] : Text) ++ content

theorem zero_notMem_fingerprint (c : Compiler) : 0 ∉ c.fingerprint := by
  have hbool : ∀ b, 0 ∉ Json.compact (.bool b) := by decide
  have hstring : ∀ t, 0 ∉ Json.compact (.string t) := Json.zero_notMem_quoted
  have hoptions : 0 ∉ Json.compact (optionsJson c.options) := by
    apply Json.zero_notMem_object
    simp only [forall_mem_cons]
    exact ⟨hstring _, hstring _, hstring _, hstring _, hstring _, hbool _, fun _ h => nomatch h⟩
  apply Json.zero_notMem_object
  simp only [forall_mem_cons]
  exact ⟨by decide, hoptions, hstring _, hstring _, hstring _, hbool _, fun _ h => nomatch h⟩

theorem options_of_fingerprint (hc : c.options.validate = .ok ())
    (hc' : c'.options.validate = .ok ()) (h : c.fingerprint = c'.fingerprint) :
    c.options = c'.options := by
  have ht := Options.texts_of_validate hc
  have ht' := Options.texts_of_validate hc'
  cases c with
  | mk o b clk =>
  cases c' with
  | mk o' b' clk' =>
  cases o with
  | mk s w f e m i =>
  cases o' with
  | mk s' w' f' e' m' i' =>
  have hquote : ∀ {t t' u u' : Text}, (∀ b ∈ t, Json.isVerbatim b = true) →
      (∀ b ∈ t', Json.isVerbatim b = true) → t ++ byte '"' :: u = t' ++ byte '"' :: u' →
      t = t' ∧ u = u' := fun ht ht' =>
    Text.append_cons_inj (Json.quote_notMem_of_verbatim ht) (Json.quote_notMem_of_verbatim ht')
  simp only [Options.texts, forall_mem_cons] at ht ht'
  obtain ⟨hs, hw, hf, he, hm, -⟩ := ht
  obtain ⟨hs', hw', hf', he', hm', -⟩ := ht'
  simp only [fingerprint, optionsJson, Json.compact_object, Json.compact_string,
    Json.compactMembers, Text.join, Json.quoted_of_verbatim hs, Json.quoted_of_verbatim hs',
    Json.quoted_of_verbatim hw, Json.quoted_of_verbatim hw', Json.quoted_of_verbatim hf,
    Json.quoted_of_verbatim hf', Json.quoted_of_verbatim he, Json.quoted_of_verbatim he',
    Json.quoted_of_verbatim hm, Json.quoted_of_verbatim hm', append_assoc, cons_append,
    append_cancel_left_eq, cons.injEq, true_and, nil_append] at h
  obtain ⟨rfl, h⟩ := hquote hs hs' h
  simp only [append_cancel_left_eq, cons.injEq, true_and] at h
  obtain ⟨rfl, h⟩ := hquote hw hw' h
  simp only [append_cancel_left_eq, cons.injEq, true_and] at h
  obtain ⟨rfl, h⟩ := hquote hf hf' h
  simp only [append_cancel_left_eq, cons.injEq, true_and] at h
  obtain ⟨rfl, h⟩ := hquote he he' h
  simp only [append_cancel_left_eq, cons.injEq, true_and] at h
  obtain ⟨rfl, h⟩ := hquote hm hm' h
  simp only [append_cancel_left_eq] at h
  cases i <;> cases i'
  · rfl
  · cases h
  · cases h
  · rfl

theorem keyText_inj (hc : c.options.validate = .ok ()) (hc' : c'.options.validate = .ok ())
    (h : c.keyText content = c'.keyText content') :
    c.options = c'.options ∧ content = content' := by
  simp only [keyText, append_assoc, cons_append, nil_append] at h
  obtain ⟨hprint, rfl⟩ := Text.append_cons_inj (zero_notMem_fingerprint c)
    (zero_notMem_fingerprint c') h
  exact ⟨options_of_fingerprint hc hc' hprint, rfl⟩

end Compiler

end LabelHooks
