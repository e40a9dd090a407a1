import LabelHooks.Proofs.Freshness
import LabelHooks.Proofs.Openings

/-!
Allocating the name of a modifier: the first of its candidates that nothing uses. It is an
identifier if the name of the state is one, and only its own entries are added to the table.
-/

namespace LabelHooks
set_option autoImplicit true

open Token (Kind)
open Lexeme (isIdentPart isIdentStart)

namespace CaseShift

/-- Where the runs start and end, the first one being counted from `o`. -/
def bounds (stride : Nat) : List (Nat × Nat) → Nat → List (Nat × Nat)
  | [], _ => []
  | (skip, size) :: runs, o =>
    (o + skip, o + skip + stride * size) :: bounds stride runs (o + skip + stride * size)

theorem bounds_of_covered (stride : Nat) (runs : List (Nat × Nat)) (n o : Nat)
    (h : coveredBy stride runs n = true) :
    ∃ b : Nat × Nat, b ∈ bounds stride runs o ∧ b.1 ≤ o + n ∧ o + n < b.2 := by
  induction runs generalizing n o with
  | nil => cases h
  | cons run runs ih =>
    obtain ⟨skip, size⟩ := run
    rw [coveredBy, Bool.and_eq_true, decide_eq_true_eq] at h
    obtain ⟨hskip, h⟩ := h
    split at h
    · exact ⟨_, List.mem_cons_self, by omega, by omega⟩
    · obtain ⟨b, hb, hlo, hhi⟩ := ih (n - skip - stride * size) (o + skip + stride * size) h
      exact ⟨b, List.mem_cons_of_mem _ hb, by omega, by omega⟩

/-- In ASCII only the lower-case letters move, and nothing moves there from outside, but for single
code points that become letters. -/
def keepsAscii (s : CaseShift) : Bool :=
  (bounds s.stride s.runs 0).all fun b =>
    (b = (97, 123) && s.shift = -32) ||
      (0x80 ≤ b.1 && (0x80 ≤ (b.1 : Int) + s.shift ||
        (b.2 = b.1 + 1 && 65 ≤ (b.1 : Int) + s.shift && (b.1 : Int) + s.shift ≤ 90)))

end CaseShift

namespace Text

/-- A letter, as a code point. -/
def isUpperCode (n : Nat) : Prop := 65 ≤ n ∧ n ≤ 90

theorem upperCode_ascii (n : Nat) :
    upperCode n = n ∨ isUpperCode (upperCode n) ∨ 0x80 ≤ n ∧ 0x80 ≤ upperCode n := by
  rw [upperCode, CaseShift.map]
  cases hfind : CaseShift.upper.find? fun s => CaseShift.coveredBy s.stride s.runs n with
  | none => exact .inl rfl
  | some s =>
    have hkeeps : CaseShift.upper.all CaseShift.keepsAscii = true := by decide +kernel
    have hs := List.all_eq_true.1 hkeeps s (List.mem_of_find?_eq_some hfind)
    have hcovered : CaseShift.coveredBy s.stride s.runs n = true := by
      simpa using List.find?_some hfind
    obtain ⟨b, hb, hlo, hhi⟩ := CaseShift.bounds_of_covered _ _ n 0 hcovered
    have hb := List.all_eq_true.1 hs b hb
    simp only [Bool.or_eq_true, Bool.and_eq_true, decide_eq_true_eq] at hb
    dsimp only [isUpperCode]
    obtain ⟨rfl, hshift⟩ | ⟨hout, hb | hb⟩ := hb
    · simp only [Nat.zero_add] at hlo hhi
      omega
    · omega
    · omega

theorem le_code_rune (ha : ¬ a < 0x80) (t : Text) : 0x80 ≤ (rune (a :: t)).code := by
  rw [rune.eq_def]
  dsimp only
  rw [if_neg ha]
  split
  · decide
  · next b t =>
    split
    · decide
    · next hb =>
      have hb : b ≤ 0xBF := by
        have : ¬ (!(decide (0x80 ≤ b) && decide (b ≤ 0xBF))) = true := hb
        simp only [Bool.not_eq_true', Bool.not_eq_false, Bool.and_eq_true,
          decide_eq_true_eq] at this
        exact this.2
      simp only [UInt8.le_iff_toNat_le, bne_iff_ne, ne_eq, ← UInt8.toNat_inj,
        Bool.and_eq_true, Bool.or_eq_true, decide_eq_true_eq, UInt8.reduceToNat] at hb ⊢
      split
      · change 0x80 ≤ a.toNat % 32 * 64 + b.toNat % 64
        omega
      · split
        · decide
        · next c t =>
          split
          · decide
          · split
            · change 0x80 ≤ a.toNat % 16 * 4096 + b.toNat % 64 * 64 + c.toNat % 64
              omega
            · split
              · decide
              · next d t =>
                split
                · change 0x80 ≤ a.toNat % 8 * 262144 + b.toNat % 64 * 4096 + c.toNat % 64 * 64 +
                    d.toNat % 64
                  omega
                · decide

theorem isIdentPart_outside (h : 0x80 ≤ n) (hn : n < 0x100) : isIdentPart n.toUInt8 = true := by
  have hle : (0x80 : UInt8) ≤ n.toUInt8 := by
    rw [UInt8.le_iff_toNat_le, Nat.toUInt8, UInt8.toNat_ofNat']
    change 128 ≤ n % 256
    omega
  simp [isIdentPart, isIdentStart, hle]

theorem isIdentPart_upper (h : isUpperCode n) :
    ofCode n = [n.toUInt8] ∧ isIdentPart n.toUInt8 = true := by
  have hall : ∀ n < 91, 65 ≤ n → isIdentPart n.toUInt8 = true := by decide
  exact ⟨if_pos (by have := h.2; omega), hall n (Nat.lt_succ_of_le h.2) h.1⟩

set_option maxRecDepth 4000 in
theorem isIdentPart_ofCode (h : 0x80 ≤ n) : ∀ b ∈ ofCode n, isIdentPart b = true := by
  rw [ofCode, if_neg (by omega)]
  split
  · simp only [List.mem_cons, List.not_mem_nil, or_false, forall_eq_or_imp, forall_eq]
    exact ⟨isIdentPart_outside (by omega) (by omega), isIdentPart_outside (by omega) (by omega)⟩
  · split
    · decide
    · next hn =>
      simp only [gt_iff_lt, Bool.or_eq_true, decide_eq_true_eq, not_or] at hn
      split
      · simp only [List.mem_cons, List.not_mem_nil, or_false, forall_eq_or_imp, forall_eq]
        exact ⟨isIdentPart_outside (by omega) (by omega), isIdentPart_outside (by omega) (by omega),
          isIdentPart_outside (by omega) (by omega)⟩
      · simp only [List.mem_cons, List.not_mem_nil, or_false, forall_eq_or_imp, forall_eq]
        exact ⟨isIdentPart_outside (by omega) (by omega), isIdentPart_outside (by omega) (by omega),
          isIdentPart_outside (by omega) (by omega), isIdentPart_outside (by omega) (by omega)⟩

/-- Whatever the first code point of an identifier becomes, it can stand in one. -/
theorem isIdentPart_capitalize (h : ∀ b ∈ t, isIdentPart b = true) :
    ∀ b ∈ capitalize t, isIdentPart b = true := by
  unfold capitalize
  dsimp only
  split
  · exact h
  · intro b hb
    rcases List.mem_append.1 hb with hb | hb
    · cases t with
      | nil => exact absurd rfl ‹_›
      | cons a t =>
        rcases upperCode_ascii (rune (a :: t)).code with hcode | hcode | ⟨-, hcode⟩
        · rw [hcode] at hb
          by_cases ha : a < 0x80
          · have hrune : rune (a :: t) = ⟨a.toNat, 1⟩ := by rw [rune.eq_def]; simp [ha]
            have hlt : a.toNat < 0x80 := UInt8.lt_iff_toNat_lt.1 ha
            rw [hrune, ofCode, if_pos hlt] at hb
            rw [List.mem_singleton.1 hb]
            simpa using h a List.mem_cons_self
          · exact isIdentPart_ofCode (le_code_rune ha t) b hb
        · obtain ⟨hcode, hpart⟩ := isIdentPart_upper hcode
          rw [hcode] at hb
          rwa [List.mem_singleton.1 hb]
        · exact isIdentPart_ofCode hcode b hb
    · exact h b (List.mem_of_mem_drop hb)

end Text

namespace Lexer

/-- The text is a single token of this kind. -/
def IsOne (t : Text) (k : Kind) : Prop :=
  ∃ ts l, all t = .ok (ts, l) ∧ l.faults = [] ∧
    ts.map Token.word = [⟨k, t, false⟩, ⟨.eof, [], false⟩]

theorem IsOne.isIdentPart (h : IsOne t .ident) : ∀ b ∈ t, isIdentPart b = true := by
  have hnot : Kind.ident ∉ Kind.punctuators := by decide
  have hpart : ∀ b, isIdentStart b = true → Lexeme.isIdentPart b = true := by
    intro b hb
    rw [Lexeme.isIdentPart, hb, Bool.true_or]
  obtain ⟨ts, l, hall, hfaults, hts⟩ := h
  cases ts with
  | nil => cases hts
  | cons x ts =>
    obtain ⟨hx, -⟩ := List.cons.inj hts
    obtain ⟨hkind, hliteral, -⟩ := Word.mk.inj hx
    have hoccurs : Token.Occurs .ident t := ⟨t, x :: ts, l, x, hall, hfaults, List.mem_cons_self,
      hkind, hliteral⟩
    obtain ⟨prev, r, -, hlex⟩ := hoccurs.isLexeme (by decide)
    generalize hk : Kind.ident = k at hlex
    cases hlex with
    | word hb hu => exact List.forall_mem_cons.2 ⟨hpart _ hb, hu⟩
    | punctuator hk' => exact absurd (hk ▸ hk') hnot
    | _ => cases hk

/-- No keyword starts with an underscore. -/
theorem isOne_ident (hu : ∀ b ∈ u, Lexeme.isIdentPart b = true) : IsOne (byte '_' :: u) .ident := by
  have hword : Kind.ofWord (byte '_' :: u) = .ident := by
    rcases Lexeme.ofWord_eq (w := byte '_' :: u) rfl with h | ⟨hk, htext⟩
    · exact h
    · have hnone : ∀ k ∈ Kind.keywords, k.text.head? ≠ some (byte '_') := by decide
      exact absurd (congrArg List.head? htext) (hnone _ hk)
  have hlex : Lexeme.IsLexeme .eof .ident (byte '_' :: u) [] := by
    rw [← hword]
    exact .word (by decide) hu (fun _ h => by cases h)
  have hspells : Spells .eof (byte '_' :: u)
      [⟨.ident, byte '_' :: u, false⟩, ⟨.eof, [], false⟩] := by
    have hsettled : Settled ((byte '_' :: u) ++ []) := ⟨by decide, fun h => absurd h (by decide)⟩
    have h := Spells.word (g := []) (by simp) hsettled hlex (.done (g := []) (by simp))
    simpa using h
  obtain ⟨ts, l, hall, hfaults, hts⟩ := allFrom_of_spells ((byte '_' :: u).length + 1)
    (l := .ofText (byte '_' :: u)) rfl hspells
    (fun _ => ⟨fun h => absurd (List.cons_prefix_cons.1 h).1 (by decide),
      fun h => absurd (List.cons_prefix_cons.1 h).1 (by decide)⟩) (Int.le_refl _)
    (Nat.lt_succ_self _)
  exact ⟨ts, l, hall, hfaults, hts⟩

end Lexer

namespace Modifier

theorem isIdentPart_stem (h : ∀ b ∈ t, isIdentPart b = true) :
    ∀ b ∈ stem t, isIdentPart b = true := by
  intro b hb
  rw [stem, Text.trimRight, List.mem_reverse] at hb
  have hb := List.mem_reverse.1 ((List.dropWhile_sublist _).subset hb)
  exact h b ((List.dropWhile_sublist _).subset hb)

set_option maxRecDepth 8000 in
theorem isIdentPart_ofNat (n : Nat) : ∀ b ∈ Text.ofNat n, isIdentPart b = true := by
  intro b hb
  obtain ⟨c, hc, rfl⟩ := List.mem_map.1 hb
  have hdigit := Nat.isDigit_of_mem_toDigits (by decide) (by decide) hc
  simp only [Char.isDigit, Bool.and_eq_true, decide_eq_true_eq, UInt32.le_iff_toNat_le] at hdigit
  have hall : ∀ n < 58, 48 ≤ n → isIdentPart n.toUInt8 = true := by decide
  exact hall c.toNat (Nat.lt_succ_of_le hdigit.2) hdigit.1

set_option maxRecDepth 8000 in
/-- A candidate for the modifier of an identifier is an identifier. -/
theorem isOne_candidate (h : Lexer.IsOne name .ident) (i : Nat) :
    Lexer.IsOne (candidate (stemFor name) i) .ident := by
  refine Lexer.isOne_ident fun b hb => ?_
  have hset : ∀ b ∈ ("set" : Text), isIdentPart b = true := by decide
  rcases List.mem_append.1 hb with hb | hb
  · refine isIdentPart_stem (fun b hb => ?_) b hb
    rcases List.mem_append.1 hb with hb | hb
    · exact hset b hb
    · exact Text.isIdentPart_capitalize h.isIdentPart b hb
  · split at hb
    · exact isIdentPart_ofNat i b hb
    · cases hb

/-- Nothing is declared anew: the name is appended to the names of its scope and of the table. -/
theorem declare_fresh {t : Table} (hown : ∀ c ∈ t.chain s, t.own? c x = none) (hx : x ∉ t.declared)
    (k : BindingKind) (i : Option Ident) : t.declare s x k i = { t with
      scopes := t.scopes.modify s fun sc => { sc with declared := sc.declared ++ [⟨x, k, i⟩] }
      declared := t.declared ++ [x] } := by
  have hscopes : t.scopes.modify s (·.declare ⟨x, k, i⟩) =
      t.scopes.modify s fun sc => { sc with declared := sc.declared ++ [⟨x, k, i⟩] } := by
    apply List.ext_getElem?
    intro n
    rw [List.getElem?_modify, List.getElem?_modify]
    cases hsc : t.scopes[n]? with
    | none => rfl
    | some sc =>
      by_cases hn : s = n
      · subst hn
        have hmem : s ∈ t.chain s := by
          have hlt := (List.getElem?_eq_some_iff.1 hsc).1
          obtain ⟨m, hm⟩ : ∃ m, t.scopes.length = m + 1 := ⟨t.scopes.length - 1, by omega⟩
          rw [Table.chain, hm]
          exact List.mem_cons_self
        have hnone := hown s hmem
        rw [Table.own?, hsc, Option.bind_some, Scope.own?, List.find?_eq_none] at hnone
        have hfilter : sc.declared.filter (·.name ≠ x) = sc.declared :=
          List.filter_eq_self.2 fun d hd => by simpa using hnone d hd
        simp only [Scope.declare, if_true, Option.map_eq_map, Option.map_some, hfilter]
      · simp [hn]
  simp only [Table.declare, Table.update, hscopes, Table.put, List.contains_iff_mem, if_neg hx]

theorem chain_fresh (taken : List Text) (t : Table) (s : ScopeId) (name : Text) :
    ∀ c ∈ t.chain s, t.own? c (fresh taken t s name) = none := by
  have h := isUsed_fresh taken t s name
  simp only [isUsed, Bool.or_eq_false_iff, Table.hasBinding, Option.isSome_eq_false_iff,
    Option.isNone_iff_eq_none, Table.lookup?, List.findSome?_eq_none_iff,
    Option.map_eq_none_iff] at h
  exact h.1.1.1.2

/-- The name that is allocated is the first of its candidates that is free, and an identifier if the
name of the state is one. From then on it is used everywhere. Nothing else is changed. -/
theorem allocate_first_free (taken : List Text) (t : Table) (s : ScopeId) (name : Text)
    (span : Span) :
    let a := allocate taken t s name span
    (∃ i, 1 ≤ i ∧ a.ident.name = candidate (stemFor name) i ∧
      ∀ j, 1 ≤ j → j < i → isUsed taken t s (candidate (stemFor name) j) = true) ∧
    (a.ident.name ∉ taken ∧ (∀ c ∈ t.chain s, t.own? c a.ident.name = none) ∧
      ¬ t.Knows a.ident.name) ∧
    (∀ c, isUsed a.taken a.table c a.ident.name = true) ∧
    (Lexer.IsOne name .ident → Lexer.IsOne a.ident.name .ident) ∧
    a.taken = taken ++ [a.ident.name] ∧
    a.table = { t with
      scopes := t.scopes.modify s fun sc =>
        { sc with declared := sc.declared ++ [⟨a.ident.name, .generated, some a.ident⟩] }
      declared := t.declared ++ [a.ident.name] } := by
  intro a
  have hname : a.ident.name = fresh taken t s name := rfl
  obtain ⟨i, hi, hfirst, -, hbefore⟩ := fresh_first taken t s name
  obtain ⟨htaken, hknows⟩ := fresh_unknown taken t s name
  have hchain := chain_fresh taken t s name
  refine ⟨⟨i, hi, hfirst, hbefore⟩, ⟨htaken, hchain, hknows⟩, fun c => ?_, fun hone => ?_, rfl, ?_⟩
  · have hmem : a.taken.contains a.ident.name = true :=
      List.contains_iff_mem.2 (List.mem_append_right _ List.mem_cons_self)
    simp only [isUsed, hmem, Bool.true_or]
  · rw [hname, hfirst]
    exact isOne_candidate hone i
  · exact declare_fresh hchain (fun h => hknows (.inr (.inr h))) _ _

/-- The first candidate is taken and the second is referred to somewhere. -/
theorem allocate_first_free_third :
    let t : Table := ⟨[⟨.program, none, none, []⟩], [], ["_setX2"], [], []⟩
    let a := allocate ["_setX"] t 0 "x" .none
    Lexer.IsOne "x" .ident ∧ a.ident.name = "_setX3" ∧ Lexer.IsOne a.ident.name .ident ∧
      isUsed a.taken a.table 0 a.ident.name = true := by
  intro t a
  have hone : Lexer.IsOne "x" .ident := ⟨_, _, rfl, rfl, rfl⟩
  have h := allocate_first_free ["_setX"] t 0 "x" .none
  exact ⟨hone, rfl, h.2.2.2.1 hone, h.2.2.1 0⟩

end Modifier
end LabelHooks
