import LabelHooks.SourceMap.Vlq
import Mathlib.Data.List.GetD
import Mathlib.Tactic.Ring

/-!
Variable-length quantities: what is written for a list of numbers is read back, the texts that
cannot be read are those with a foreign byte or an unfinished number, and texts that can be read are
read one after the other.
-/

namespace LabelHooks.Vlq
set_option autoImplicit true

def digit (d : Nat) : UInt8 := digits.getD d 0

/-- Five bits a digit, low digits first; all digits but the last have the sixth bit. -/
def encodeNat (n : Nat) : Text :=
  if n < 32 then [digit n] else digit (n % 32 + 32) :: encodeNat (n / 32)

/-- The lowest bit is the sign. -/
def encode (i : Int) : Text := encodeNat (2 * i.natAbs + if i < 0 then 1 else 0)

def encodeAll (is : List Int) : Text := is.flatMap encode

theorem idxOf?_digit : ∀ d < 64, digits.idxOf? (digit d) = some d := by decide +kernel

variable {seg : Text} {w : Word} {s d : Nat}

theorem decodeFrom_foreign (h : digits.idxOf? b = none) (t : Text) :
    decodeFrom seg w s (b :: t) = .error (.invalidDigit b) := by rw [decodeFrom, h]

theorem decodeFrom_more (h : digits.idxOf? b = some d) (hd : 32 ≤ d) (t : Text) :
    decodeFrom seg w s (b :: t) =
      decodeFrom seg (w ||| BitVec.ofNat 64 (d % 32) <<< s) (s + 5) t := by
  rw [decodeFrom, h]
  exact if_pos hd

theorem decodeFrom_last (h : digits.idxOf? b = some d) (hd : ¬ 32 ≤ d) (t : Text) :
    decodeFrom seg w s (b :: t) =
      (decodeFrom seg 0 0 t).map (signed (w ||| BitVec.ofNat 64 (d % 32) <<< s) :: ·) := by
  rw [decodeFrom, h]
  exact if_neg hd

theorem or_shiftLeft (k : Nat) (h : m < 2 ^ s) :
    BitVec.ofNat 64 m ||| BitVec.ofNat 64 k <<< s = BitVec.ofNat 64 (m + k * 2 ^ s) := by
  apply BitVec.eq_of_toNat_eq
  have hor : m + k * 2 ^ s = m ||| k <<< s := by
    rw [Nat.or_comm, ← Nat.shiftLeft_add_eq_or_of_lt h, Nat.shiftLeft_eq, Nat.add_comm]
  simp only [BitVec.toNat_or, BitVec.toNat_shiftLeft, BitVec.toNat_ofNat]
  rw [hor, Nat.or_mod_two_pow, Nat.shiftLeft_eq, Nat.shiftLeft_eq, Nat.mod_mul_mod]

theorem signed_ofNat (h : i.natAbs < 2 ^ 62) :
    signed (BitVec.ofNat 64 (2 * i.natAbs + if i < 0 then 1 else 0)) = BitVec.ofInt 64 i := by
  have hhalf : ∀ k ≤ 1, (BitVec.ofNat 64 (2 * i.natAbs + k)).sshiftRight 1 =
      BitVec.ofInt 64 i.natAbs := by
    intro k hk
    have hint : (BitVec.ofNat 64 (2 * i.natAbs + k)).toInt = 2 * i.natAbs + k := by
      rw [BitVec.toInt_ofNat', Int.bmod_eq_of_le (by omega) (by omega)]
      simp
    rw [BitVec.sshiftRight, hint, Int.shiftRight_eq_div_pow]
    congr 1
    omega
  by_cases hi : i < 0
  · have hodd : (2 * i.natAbs + 1).testBit 0 = true := by simp
    rw [if_pos hi, signed, hhalf 1 (Nat.le_refl _), BitVec.getLsbD_ofNat, hodd, ← BitVec.ofInt_neg]
    simp [Int.ofNat_natAbs_of_nonpos (Int.le_of_lt hi)]
  · have heven : (2 * i.natAbs).testBit 0 = false := by simp
    rw [if_neg hi, signed, hhalf 0 (Nat.zero_le _), Nat.add_zero, BitVec.getLsbD_ofNat, heven]
    simp [Int.natAbs_of_nonneg (Int.not_lt.1 hi)]

/-- A number is read to its end, whatever has been read of its low digits. -/
theorem decodeFrom_encodeNat (seg rest : Text) (n m s : Nat) (h : m < 2 ^ s) :
    decodeFrom seg (BitVec.ofNat 64 m) s (encodeNat n ++ rest) =
      (decodeFrom seg 0 0 rest).map (signed (BitVec.ofNat 64 (m + n * 2 ^ s)) :: ·) := by
  induction n using encodeNat.induct generalizing m s with
  | case1 n hn =>
    rw [encodeNat, if_pos hn, List.singleton_append,
      decodeFrom_last (idxOf?_digit n (by omega)) (by omega), or_shiftLeft _ h,
      Nat.mod_eq_of_lt hn]
  | case2 n hn ih =>
    have hlt : m + n % 32 * 2 ^ s < 2 ^ (s + 5) := by
      have : n % 32 * 2 ^ s ≤ 31 * 2 ^ s := Nat.mul_le_mul_right _ (by omega)
      rw [Nat.pow_add]
      omega
    have hsum : m + n % 32 * 2 ^ s + n / 32 * 2 ^ (s + 5) = m + n * 2 ^ s := by
      conv_rhs => rw [← Nat.div_add_mod' n 32]
      ring
    rw [encodeNat, if_neg hn, List.cons_append,
      decodeFrom_more (idxOf?_digit _ (by omega)) (by omega), or_shiftLeft _ h,
      Nat.add_mod_right, Nat.mod_mod, ih _ _ hlt, hsum]

theorem decodeFrom_encodeAll (is : List Int) (h : ∀ i ∈ is, i.natAbs < 2 ^ 62) :
    decodeFrom seg 0 0 (encodeAll is) = .ok (is.map (BitVec.ofInt 64)) := by
  induction is with
  | nil => rfl
  | cons i is ih =>
    rw [List.forall_mem_cons] at h
    have hnumber := decodeFrom_encodeNat seg (encodeAll is)
      (2 * i.natAbs + if i < 0 then 1 else 0) 0 0 Nat.one_pos
    rw [Nat.zero_add, Nat.pow_zero, Nat.mul_one, signed_ofNat h.1, ih h.2] at hnumber
    exact hnumber

/-- Where a text has been read, what follows is read as if it were the first. -/
theorem decodeFrom_append (h : decodeFrom seg w s a = .ok xs) (hw : s = 0 → w = 0) (seg' b : Text) :
    decodeFrom seg' w s (a ++ b) = (decodeFrom seg' 0 0 b).map (xs ++ ·) := by
  induction a generalizing w s xs with
  | nil =>
    by_cases hs : s = 0
    · rw [decodeFrom, if_pos hs] at h
      cases h
      rw [hw hs, hs]
      exact congrFun Except.map_id.symm _
    · rw [decodeFrom, if_neg hs] at h
      cases h
  | cons c a ih =>
    cases hc : digits.idxOf? c with
    | none =>
      rw [decodeFrom_foreign hc] at h
      cases h
    | some d =>
      by_cases hd : 32 ≤ d
      · rw [decodeFrom_more hc hd] at h
        rw [List.cons_append, decodeFrom_more hc hd]
        exact ih h fun hs => absurd hs (by omega)
      · rw [decodeFrom_last hc hd] at h
        cases hrest : decodeFrom seg 0 0 a with
        | error e =>
          rw [hrest] at h
          cases h
        | ok ys =>
          rw [hrest] at h
          cases h
          rw [List.cons_append, decodeFrom_last hc hd, ih hrest fun _ => rfl]
          cases decodeFrom seg' 0 0 b <;> rfl

theorem decodeFrom_congr (h : decodeFrom seg 0 0 a = .ok xs) (seg' : Text) :
    decodeFrom seg' 0 0 a = .ok xs := by
  have happend := decodeFrom_append h (fun _ => rfl) seg' []
  rw [List.append_nil] at happend
  rw [happend]
  exact congrArg Except.ok (List.append_nil xs)

theorem of_idxOf? (h : digits.idxOf? b = some d) :
    b ∈ digits ∧ (b ∈ digits.drop 32 ↔ 32 ≤ d) := by
  have hmore : ∀ d < 64, digit d ∈ digits.drop 32 ↔ 32 ≤ d := by decide +kernel
  obtain ⟨hlt, hb, _⟩ := List.findIdx?_eq_some_iff_getElem.1 h
  obtain rfl := eq_of_beq hb
  have hdigit : digit d = digits[d] := List.getD_eq_getElem _ _ hlt
  exact ⟨List.getElem_mem hlt, hdigit ▸ hmore d hlt⟩

/-- The last digit has the sixth bit iff a number is left unfinished. -/
theorem decodeFrom_error_iff (t : Text) : (∃ e, decodeFrom seg w s t = .error e) ↔
    (∃ b ∈ t, b ∉ digits) ∨ (t = [] ∧ s ≠ 0) ∨ ∃ b ∈ t.getLast?, b ∈ digits.drop 32 := by
  induction t generalizing w s with
  | nil => by_cases h : s = 0 <;> simp [decodeFrom, h]
  | cons b t ih =>
    cases hb : digits.idxOf? b with
    | none =>
      have : b ∉ digits := by simpa using hb
      simp [decodeFrom_foreign hb, this]
    | some d =>
      obtain ⟨hmem, hmore⟩ := of_idxOf? hb
      by_cases hd : 32 ≤ d
      · rw [decodeFrom_more hb hd, ih]
        cases t with
        | nil => simp [hmem, hmore, hd]
        | cons c t => simp [hmem]
      · rw [decodeFrom_last hb hd]
        have hmap : ∀ (x : Except VlqError (List Word)) (f : List Word → List Word),
            (∃ e, x.map f = .error e) ↔ ∃ e, x = .error e := by
          intro x f
          cases x <;> simp [Except.map]
        rw [hmap, ih]
        cases t with
        | nil => simp [hmem, hmore, hd]
        | cons c t => simp [hmem]

/-- Reading inverts writing, in words of 64 bits; it fails on foreign bytes and on an unfinished
number only; and what follows a text that can be read is read on its own. -/
theorem decode_inverts :
    (∀ is : List Int, (∀ i ∈ is, i.natAbs < 2 ^ 62) →
      decode (encodeAll is) = .ok (is.map (BitVec.ofInt 64))) ∧
    (∀ t : Text, (∃ e, decode t = .error e) ↔
      (∃ b ∈ t, b ∉ digits) ∨ ∃ b ∈ t.getLast?, b ∈ digits.drop 32) ∧
    ∀ (a b : Text) (xs : List Word), decode a = .ok xs →
      (∀ ys, decode b = .ok ys → decode (a ++ b) = .ok (xs ++ ys)) ∧
      ((∃ e, decode (a ++ b) = .error e) ↔ ∃ e, decode b = .error e) := by
  refine ⟨fun is h => decodeFrom_encodeAll is h, fun t => ?_, fun a b xs ha => ?_⟩
  · rw [decode, decodeFrom_error_iff]
    simp
  · have happend := decodeFrom_append ha (fun _ => rfl) (a ++ b) b
    refine ⟨fun ys hb => ?_, ?_⟩
    · rw [decode, happend, decodeFrom_congr hb]
      rfl
    · rw [decode, happend]
      constructor
      · rintro ⟨e, he⟩
        cases hb : decode b with
        | error e => exact ⟨e, rfl⟩
        | ok ys =>
          rw [decodeFrom_congr hb] at he
          cases he
      · rintro ⟨e, he⟩
        cases hb : decodeFrom (a ++ b) 0 0 b with
        | error e => exact ⟨e, rfl⟩
        | ok ys =>
          rw [decode, decodeFrom_congr hb] at he
          cases he

/-- Zero, a negative number and one of two digits. -/
theorem decode_inverts_signs : decode "ADgB" = .ok [0, -1, 16] ∧
    decode ("ADgB" ++ "C") = .ok [0, -1, 16, 1] ∧ ∃ e, decode "ADg" = .error e := by
  have hfirst : decode (encodeAll [0, -1, 16]) = .ok ([0, -1, 16].map (BitVec.ofInt 64)) :=
    decode_inverts.1 [0, -1, 16] (by decide)
  rw [show encodeAll [0, -1, 16] = ("ADgB" : Text) by decide +kernel] at hfirst
  refine ⟨hfirst, (decode_inverts.2.2 "ADgB" "C" _ hfirst).1 [1] (by decide +kernel), ?_⟩
  exact (decode_inverts.2.1 "ADg").2 (.inr ⟨103, by decide +kernel, by decide +kernel⟩)

end LabelHooks.Vlq
