import LabelHooks.Proofs.Quantities
import LabelHooks.SourceMap.Mappings
import Mathlib.Data.List.Infix

/-!
The names in a source map are recovered: the segments of the map, written as quantities, give each
name back at the byte where its identifier starts.
-/

namespace LabelHooks
set_option autoImplicit true

open List

namespace Text

theorem splitOn_piece (h : sep ∉ piece) : splitOn sep piece = [piece] := by
  induction piece with
  | nil => rfl
  | cons b piece ih =>
    rw [mem_cons, not_or] at h
    rw [splitOn, if_neg (Ne.symm h.1), ih h.2]

theorem splitOn_append (h : sep ∉ piece) (t : Text) :
    splitOn sep (piece ++ sep :: t) = piece :: splitOn sep t := by
  induction piece with
  | nil => exact if_pos rfl
  | cons b piece ih =>
    rw [mem_cons, not_or] at h
    rw [cons_append, splitOn, if_neg (Ne.symm h.1), ih h.2]

/-- Pieces without the separator come back as they were joined. -/
theorem splitOn_join (hne : pieces ≠ []) (h : ∀ piece ∈ pieces, sep ∉ piece) :
    splitOn sep (join [sep] pieces) = pieces := by
  induction pieces with
  | nil => exact absurd rfl hne
  | cons piece pieces ih =>
    rw [forall_mem_cons] at h
    cases pieces with
    | nil => exact splitOn_piece h.1
    | cons next pieces =>
      rw [join, append_assoc, singleton_append, splitOn_append h.1,
        ih (cons_ne_nil _ _) h.2]
      exact cons_ne_nil _ _

theorem mem_join (h : b ∈ join [sep] pieces) : b = sep ∨ ∃ piece ∈ pieces, b ∈ piece := by
  induction pieces with
  | nil => cases h
  | cons piece pieces ih =>
    cases pieces with
    | nil => exact .inr ⟨piece, mem_singleton_self _, h⟩
    | cons next pieces =>
      rw [join, append_assoc, mem_append, singleton_append, mem_cons] at h
      · obtain h | h | h := h
        · exact .inr ⟨piece, mem_cons_self, h⟩
        · exact .inl h
        · obtain h | ⟨piece, hmem, h⟩ := ih h
          · exact .inl h
          · exact .inr ⟨piece, .tail _ hmem, h⟩
      · exact cons_ne_nil _ _

theorem runesFrom_eq_drop (n : Nat) (t : Text) : runesFrom n t = runes (t.drop n) := by
  induction n generalizing t with
  | zero => rfl
  | succ n ih =>
    cases t with
    | nil => rfl
    | cons b t => exact ih t

theorem rune_size_pos (b : UInt8) (t : Text) : 0 < (rune (b :: t)).size := by
  obtain _ | ⟨c, _ | ⟨d, _ | ⟨e, t⟩⟩⟩ := t
  all_goals
    simp only [rune]
    repeat' split
    all_goals exact Nat.succ_pos _

theorem runes_cons (b : UInt8) (t : Text) :
    runes (b :: t) = rune (b :: t) :: runes ((b :: t).drop (rune (b :: t)).size) := by
  have hsize := rune_size_pos b t
  rw [runes, runesFrom, runesFrom_eq_drop]
  obtain ⟨n, hn⟩ := Nat.exists_eq_succ_of_ne_zero (Nat.ne_of_gt hsize)
  rw [hn]
  rfl

end Text

namespace Columns

/-- Code points past the basic plane take two units. -/
def unitsOf (rs : List Rune) : Nat := (rs.map fun r => if r.code ≥ 0x10000 then 2 else 1).sum

def bytesOf (rs : List Rune) : Nat := (rs.map (·.size)).sum

/-- The shortest prefix of the runes with `column` units or more, or all of them. -/
def reach (column : Int) (rs : List Rune) : List Rune :=
  (rs.inits.find? fun p => column ≤ unitsOf p).getD rs

def bytesTo (line : Text) (column : Int) : Nat := bytesOf (reach column line.runes)

theorem reach_of_nonpos (h : column ≤ 0) (rs : List Rune) : reach column rs = [] := by
  cases rs <;> simp [reach, unitsOf, h]

theorem reach_nil (column : Int) : reach column [] = [] := by
  by_cases h : column ≤ 0 <;> simp [reach, unitsOf, h]

theorem reach_cons (h : 0 < column) (r : Rune) (rs : List Rune) :
    reach column (r :: rs) = r :: reach (column - unitsOf [r]) rs := by
  have hzero : ¬ column ≤ 0 := by omega
  have hfun : ((fun p => decide (column ≤ unitsOf p)) ∘ fun t => r :: t) =
      fun p => decide (column - unitsOf [r] ≤ unitsOf p) := by
    funext p
    simp [unitsOf]
    omega
  simp only [reach, inits_cons, find?_cons, find?_map, hfun]
  cases find? (fun p => decide (column - unitsOf [r] ≤ unitsOf p)) rs.inits
  all_goals simp [unitsOf, hzero]

/-- The cursor that has gone to a column of its line. -/
def reached (line : Text) (column : Int) : Columns :=
  ⟨line.drop (bytesTo line column), unitsOf (reach column line.runes), bytesTo line column⟩

theorem advanceFrom_eq (fuel : Nat) (c : Columns) (column : Int) (h : c.rest.length ≤ fuel) :
    advanceFrom fuel c column = ⟨c.rest.drop (bytesTo c.rest (column - c.units)),
      c.units + unitsOf (reach (column - c.units) c.rest.runes),
      c.bytes + bytesTo c.rest (column - c.units)⟩ := by
  obtain ⟨rest, u, n⟩ := c
  induction fuel generalizing rest u n with
  | zero =>
    obtain rfl := length_eq_zero_iff.1 (Nat.le_zero.1 h)
    simp [advanceFrom, bytesTo, Text.runes, Text.runesFrom, reach_nil, bytesOf, unitsOf]
  | succ fuel ih =>
    rw [advanceFrom]
    cases rest with
    | nil => simp [bytesTo, Text.runes, Text.runesFrom, reach_nil, bytesOf, unitsOf]
    | cons b rest =>
      by_cases hcol : column ≤ u
      · simp [hcol, bytesTo, reach_of_nonpos (Int.sub_nonpos_of_le hcol), bytesOf, unitsOf]
      · have hsize := Text.rune_size_pos b rest
        have hpos : 0 < column - u := by omega
        simp only [isEmpty_cons, Bool.false_or, decide_eq_true_eq, if_neg hcol]
        rw [ih _ _ _ (by simp at h ⊢; omega)]
        have hunits : column - ↑(u + unitsOf [Text.rune (b :: rest)]) =
            column - u - unitsOf [Text.rune (b :: rest)] := by omega
        have hsum : (if (Text.rune (b :: rest)).code ≥ 0x10000 then 2 else 1) =
            unitsOf [Text.rune (b :: rest)] := by simp [unitsOf]
        simp only [hsum, hunits, bytesTo, Text.runes_cons, reach_cons hpos]
        simp [bytesOf, unitsOf, drop_drop, Nat.add_assoc]

theorem reach_append (h : c₁ ≤ c₂) (line : Text) : reach c₂ line.runes = reach c₁ line.runes ++
      reach (c₂ - unitsOf (reach c₁ line.runes)) (Text.runes (line.drop (bytesTo line c₁))) := by
  induction hn : line.length using Nat.strong_induction_on generalizing line c₁ c₂ with
  | _ n ih =>
    by_cases hpos : c₁ ≤ 0
    · simp [bytesTo, reach_of_nonpos hpos, bytesOf, unitsOf]
    · cases line with
      | nil => simp [bytesTo, Text.runes, Text.runesFrom, reach_nil]
      | cons b line =>
        have hsize := Text.rune_size_pos b line
        have hrest := ih ((b :: line).drop (Text.rune (b :: line)).size).length
          (by simp at hn ⊢; omega) (Int.sub_le_sub_right h (unitsOf [Text.rune (b :: line)])) _ rfl
        simp only [bytesTo, Text.runes_cons, reach_cons (Int.not_le.1 hpos),
          reach_cons (Int.lt_of_lt_of_le (Int.not_le.1 hpos) h)]
        rw [hrest]
        simp [bytesTo, bytesOf, unitsOf, drop_drop, Int.sub_sub]

/-- From one column the cursor goes on to any later one. -/
theorem advance_reached (h : c₁ ≤ c₂) (line : Text) :
    (reached line c₁).advance c₂ = reached line c₂ := by
  rw [advance, advanceFrom_eq _ _ _ (Nat.le_refl _)]
  have happend := reach_append h line
  simp only [reached, bytesTo] at *
  rw [happend]
  simp [bytesOf, unitsOf, drop_drop]

theorem reached_zero (line : Text) : reached line 0 = .ofLine line := by
  simp [reached, ofLine, bytesTo, reach_of_nonpos, bytesOf, unitsOf]

end Columns

namespace Renames

theorem find?_cons (entry : Int × Text) (r : Renames) (o : Int) :
    find? (entry :: r) o = if o = entry.1 then some entry.2 else find? r o := by
  rw [find?, lookup_cons]
  by_cases h : o = entry.1
  · simp [h]
  · rw [beq_eq_false_iff_ne.2 h, if_neg h]
    rfl

theorem find?_insert (r : Renames) (offset : Int) (name : Text) (o : Int) :
    (r.insert offset name).find? o = if o = offset then some name else r.find? o := by
  induction r with
  | nil => exact find?_cons _ _ _
  | cons entry r ih =>
    simp only [insert, find?_cons]
    split
    · simp only [find?_cons]
    · split
      · next heq =>
        simp only [find?_cons, heq]
        split <;> rfl
      · next hne =>
        simp only [find?_cons, ih]
        grind

def insertAll (r : Renames) (entries : List (Int × Text)) : Renames :=
  entries.foldl (fun r entry => r.insert entry.1 entry.2) r

/-- The last of the entries at an offset counts. -/
theorem find?_insertAll (entries : List (Int × Text)) (r : Renames) (o : Int) :
    (r.insertAll entries).find? o = find? (entries.reverse ++ r) o := by
  induction entries generalizing r with
  | nil => rfl
  | cons entry entries ih =>
    refine (ih _).trans ?_
    rw [reverse_cons, append_assoc, singleton_append]
    induction entries.reverse with
    | nil => rw [nil_append, nil_append, find?_insert, find?_cons]
    | cons last entries ih => rw [cons_append, cons_append, find?_cons, find?_cons, ih]

end Renames

namespace Vlq

theorem encodeNat_mem (n : Nat) (h : b ∈ encodeNat n) : b ∈ digits := by
  have hdigit : ∀ d < 64, digit d ∈ digits := by decide +kernel
  induction n using encodeNat.induct with
  | case1 n hn =>
    rw [encodeNat, if_pos hn, mem_singleton] at h
    exact h ▸ hdigit n (by omega)
  | case2 n hn ih =>
    rw [encodeNat, if_neg hn, mem_cons] at h
    obtain rfl | h := h
    · exact hdigit _ (by omega)
    · exact ih h

theorem encodeAll_mem (h : b ∈ encodeAll is) : b ∈ digits := by
  obtain ⟨i, -, h⟩ := mem_flatMap.1 h
  exact encodeNat_mem _ h

theorem encodeAll_ne_nil (h : is ≠ []) : encodeAll is ≠ [] := by
  obtain ⟨i, is, rfl⟩ := exists_cons_of_ne_nil h
  have hone : ∀ n, encodeNat n ≠ [] := by
    intro n
    rw [encodeNat]
    split <;> exact cons_ne_nil _ _
  intro hnil
  exact hone _ (append_eq_nil_iff.1 hnil).1

end Vlq

namespace SourceMap

/-- The fields of a segment, each as the difference to the one before. -/
abbrev Segment := List Int

def columnAfter (done : List Segment) : Int := (done.map (·.headD 0)).sum

def nameAfter (done : List Segment) : Int := (done.map (·.getD 4 0)).sum

def encodeLine (line : List Segment) : Text := Text.join [byte ','] (line.map Vlq.encodeAll)

def encodeLines (lines : List (List Segment)) : Text :=
  Text.join [byte ';'] (lines.map encodeLine)

/-- The names on a line that starts at `start`, after the segments `before` of earlier lines and
`done` of its own. -/
def lineEntries (names : List Text) (start : Nat) (text : Text) (before done : List Segment) :
    List Segment → List (Int × Text)
  | [] => []
  | s :: line =>
    (if s.length = 5 then
      [(((start + Columns.bytesTo text (columnAfter (done ++ [s])) : Nat) : Int),
        names.getD (nameAfter (before ++ done ++ [s])).toNat [])]
    else []) ++ lineEntries names start text before (done ++ [s]) line

def entries (names : List Text) (start : Nat) (before : List Segment) :
    List (List Segment) → List Text → List (Int × Text)
  | line :: lines, text :: texts =>
    lineEntries names start text before [] line ++
      entries names (start + text.length + 1) (before ++ line) lines texts
  | _, _ => []

/-- Columns do not go back within a line, and names are in range over all lines. -/
structure Admissible (names : List Text) (code : Text) (lines : List (List Segment)) : Prop where
  fits : lines.length ≤ (Text.splitOn Text.newline code).length
  counts : ∀ line ∈ lines, ∀ s ∈ line, s.length = 1 ∨ s.length = 4 ∨ s.length = 5
  small : ∀ line ∈ lines, ∀ s ∈ line, ∀ i ∈ s, i.natAbs < 2 ^ 62
  columns : ∀ line ∈ lines, ∀ done ∈ line.inits, columnAfter done < 2 ^ 62 ∧
    ∀ earlier ∈ done.inits, columnAfter earlier ≤ columnAfter done
  inNames : ∀ done ∈ lines.flatten.inits, 0 ≤ nameAfter done ∧ nameAfter done < names.length

variable {names : List Text} {start : Nat} {text : Text} {before done : List Segment}

def progress (r : Renames) (text : Text) (before done : List Segment) (column : Int) : Progress :=
  ⟨r, .ofInt 64 (nameAfter (before ++ done)), .ofInt 64 (columnAfter done), .reached text column⟩

theorem toInt_ofInt (h : 0 ≤ i) (hlt : i < 2 ^ 63) : (BitVec.ofInt 64 i).toInt = i :=
  BitVec.toInt_ofInt_eq_self (by decide) (by omega) (by omega)

/-- One segment: the sums go on, and a name is put where its column is. -/
theorem segment_encodeAll (r : Renames) (hcount : s.length = 1 ∨ s.length = 4 ∨ s.length = 5)
    (hsmall : ∀ i ∈ s, i.natAbs < 2 ^ 62) (hmono : columnAfter done ≤ columnAfter (done ++ [s]))
    (hcolumn : 0 ≤ columnAfter (done ++ [s]) ∧ columnAfter (done ++ [s]) < 2 ^ 62)
    (hname : 0 ≤ nameAfter (before ++ done ++ [s]) ∧
      nameAfter (before ++ done ++ [s]) < names.length) (hnames : names.length < 2 ^ 63)
    (hc : c ≤ columnAfter done) : ∃ c' ≤ columnAfter (done ++ [s]),
      segment names start (progress r text before done c) (Vlq.encodeAll s) =
        .ok (progress (r.insertAll (lineEntries names start text before done [s])) text before
          (done ++ [s]) c') := by
  have hne : (Vlq.encodeAll s).isEmpty = false := by
    rw [isEmpty_eq_false_iff]
    exact Vlq.encodeAll_ne_nil (by rintro rfl; simp at hcount)
  have hdecode : Vlq.decode (Vlq.encodeAll s) = .ok (s.map (BitVec.ofInt 64)) :=
    Vlq.decodeFrom_encodeAll s hsmall
  have hcol : BitVec.ofInt 64 (columnAfter done) + BitVec.ofInt 64 (s.headD 0) =
      BitVec.ofInt 64 (columnAfter (done ++ [s])) := by
    simp [columnAfter, BitVec.ofInt_add]
  have hidx : BitVec.ofInt 64 (nameAfter (before ++ done)) + BitVec.ofInt 64 (s.getD 4 0) =
      BitVec.ofInt 64 (nameAfter (before ++ done ++ [s])) := by
    rw [← BitVec.ofInt_add]
    simp [nameAfter, Int.add_assoc]
  rw [segment, hne, hdecode]
  obtain hlen | hlen | hlen := hcount
  · obtain ⟨x, rfl⟩ := length_eq_one_iff.1 hlen
    refine ⟨c, hc.trans hmono, ?_⟩
    simp [progress, lineEntries, Renames.insertAll, ← hcol, ← hidx, ← append_assoc]
  · obtain ⟨x, y, z, w, rfl⟩ := length_eq_four.1 hlen
    refine ⟨c, hc.trans hmono, ?_⟩
    simp [progress, lineEntries, Renames.insertAll, ← hcol, ← hidx, ← append_assoc]
  · obtain ⟨x, s, rfl⟩ := exists_cons_of_length_eq_add_one hlen
    obtain ⟨y, z, w, n, rfl⟩ := length_eq_four.1 (Nat.succ.inj hlen)
    refine ⟨columnAfter (done ++ [[x, y, z, w, n]]), Int.le_refl _, ?_⟩
    have hword := toInt_ofInt hname.1 (by omega)
    have hget : names[(nameAfter (before ++ done ++ [[x, y, z, w, n]])).toNat]? =
        some (names.getD (nameAfter (before ++ done ++ [[x, y, z, w, n]])).toNat []) := by
      rw [getD_eq_getElem _ _ (by omega), getElem?_eq_getElem]
    simp only [map_cons, map_nil, progress, Bool.false_eq_true, if_false] at hcol hidx ⊢
    simp only [headD_cons, getD_cons_succ, getD_cons_zero] at hcol hidx
    simp only [hcol, hidx, hword, if_neg (Int.not_lt.2 hname.1), hget,
      toInt_ofInt hcolumn.1 (Int.lt_trans hcolumn.2 (by decide)),
      Columns.advance_reached (hc.trans hmono)]
    simp [lineEntries, Renames.insertAll, Columns.reached]

/-- What is left of a line puts the rest of its names. -/
theorem foldlM_segment (start : Nat) (text : Text) (done : List Segment)
    (hnames : names.length < 2 ^ 63) (line : List Segment) (r : Renames)
    (hcounts : ∀ s ∈ line, s.length = 1 ∨ s.length = 4 ∨ s.length = 5)
    (hsmall : ∀ s ∈ line, ∀ i ∈ s, i.natAbs < 2 ^ 62)
    (hcolumns : ∀ a ∈ (done ++ line).inits, columnAfter a < 2 ^ 62 ∧
      ∀ e ∈ a.inits, columnAfter e ≤ columnAfter a)
    (hname : ∀ a ∈ line.inits, 0 ≤ nameAfter (before ++ done ++ a) ∧
      nameAfter (before ++ done ++ a) < names.length) (hc : c ≤ columnAfter done) :
    ∃ c', (line.map Vlq.encodeAll).foldlM (segment names start) (progress r text before done c) =
      .ok (progress (r.insertAll (lineEntries names start text before done line)) text before
        (done ++ line) c') := by
  induction line generalizing done r c with
  | nil => exact ⟨c, by rw [append_nil]; rfl⟩
  | cons s line ih =>
    rw [forall_mem_cons] at hcounts hsmall
    obtain ⟨hlt, hmono⟩ := hcolumns (done ++ [s]) ((mem_inits _ _).2 ⟨line, by simp⟩)
    obtain ⟨c', hc', hseg⟩ := segment_encodeAll r hcounts.1 hsmall.1
      (hmono done ((mem_inits _ _).2 (prefix_append _ _)))
      ⟨hmono [] ((mem_inits _ _).2 nil_prefix), hlt⟩ (hname [s] (by simp)) hnames hc
    obtain ⟨c'', hrest⟩ := ih (done ++ [s]) _ hcounts.2 hsmall.2 (by simpa using hcolumns)
      (fun a ha => by simpa using hname (s :: a) (by simpa using ha)) hc'
    refine ⟨c'', ?_⟩
    rw [map_cons, foldlM_cons, hseg]
    refine hrest.trans ?_
    simp [lineEntries, Renames.insertAll]

theorem encodeLine_mem (h : b ∈ encodeLine line) : b = byte ',' ∨ b ∈ Vlq.digits := by
  obtain h | ⟨piece, hmem, h⟩ := Text.mem_join h
  · exact .inl h
  · obtain ⟨s, -, rfl⟩ := mem_map.1 hmem
    exact .inr (Vlq.encodeAll_mem h)

theorem foldlM_splitOn (names : List Text) (start : Nat) (p : Progress) (line : List Segment) :
    (Text.splitOn (byte ',') (encodeLine line)).foldlM (segment names start) p =
      (line.map Vlq.encodeAll).foldlM (segment names start) p := by
  cases line with
  | nil => rfl
  | cons s line =>
    rw [encodeLine, Text.splitOn_join (by simp)]
    intro piece hmem hcomma
    obtain ⟨s, -, rfl⟩ := mem_map.1 hmem
    exact absurd (Vlq.encodeAll_mem hcomma) (by decide +kernel)

theorem groups_encodeLine (before : List Segment) (hnames : names.length < 2 ^ 63)
    (lines : List (List Segment)) (texts : List Text) (p : Progress) (start : Nat)
    (hp : p.name = .ofInt 64 (nameAfter before))
    (hfits : lines.length ≤ texts.length)
    (hcounts : ∀ line ∈ lines, ∀ s ∈ line, s.length = 1 ∨ s.length = 4 ∨ s.length = 5)
    (hsmall : ∀ line ∈ lines, ∀ s ∈ line, ∀ i ∈ s, i.natAbs < 2 ^ 62)
    (hcolumns : ∀ line ∈ lines, ∀ a ∈ line.inits, columnAfter a < 2 ^ 62 ∧
      ∀ e ∈ a.inits, columnAfter e ≤ columnAfter a)
    (hname : ∀ a ∈ lines.flatten.inits, 0 ≤ nameAfter (before ++ a) ∧
      nameAfter (before ++ a) < names.length) :
    groups names p start (lines.map encodeLine) texts =
      .ok (p.renames.insertAll (entries names start before lines texts)) := by
  induction lines generalizing texts p start before with
  | nil => simp [groups, entries, Renames.insertAll]
  | cons line lines ih =>
    cases texts with
    | nil => cases hfits
    | cons text texts =>
      rw [forall_mem_cons] at hcounts hsmall hcolumns
      have hnow : ∀ a ∈ line.inits, 0 ≤ nameAfter (before ++ [] ++ a) ∧
          nameAfter (before ++ [] ++ a) < names.length := by
        intro a ha
        rw [append_nil]
        exact hname a ((mem_inits _ _).2
          (((mem_inits _ _).1 ha).trans (prefix_append _ _)))
      obtain ⟨c, hline⟩ := foldlM_segment start text [] hnames line p.renames hcounts.1
        hsmall.1 hcolumns.1 hnow (Int.le_refl 0)
      have hfirst : progress p.renames text before [] 0 =
          { p with column := 0, columns := .ofLine text } := by
        simp [progress, columnAfter, Columns.reached_zero, hp]
      rw [hfirst] at hline
      rw [map_cons, groups]
      simp only [headD_cons, foldlM_splitOn, hline]
      refine (ih (before ++ line) texts _ _ rfl (Nat.le_of_succ_le_succ hfits) hcounts.2
        hsmall.2 hcolumns.2 ?_).trans ?_
      · intro a ha
        rw [append_assoc]
        exact hname (line ++ a) ((mem_inits _ _).2
          ((prefix_append_right_inj _).2 ((mem_inits _ _).1 ha)))
      · simp [entries, progress, Renames.insertAll]

/-- Every name is found at the byte where its segment's column is, the last one written there
where there are several, and nowhere else. -/
theorem read_recovers (map code : Text) (names : List Text) (lines : List (List Segment))
    (hmap : (Json.parse? map).bind ofJson? = some ⟨encodeLines lines, names⟩)
    (hne : names ≠ []) (hnames : names.length < 2 ^ 63) (h : Admissible names code lines) :
    ∃ r, read map code = .ok r ∧ ∀ o, r.find? o =
      (entries names 0 [] lines (Text.splitOn Text.newline code)).reverse.lookup o := by
  have hmapne : map.isEmpty = false := by
    rw [List.isEmpty_eq_false_iff]
    rintro rfl
    have hnone : Json.parse? [] = none := by decide
    rw [hnone] at hmap
    cases hmap
  have hgroups := groups_encodeLine [] hnames lines
    (Text.splitOn Text.newline code) ⟨[], 0, 0, .ofLine []⟩ 0 rfl h.fits h.counts h.small
    h.columns h.inNames
  refine ⟨Renames.insertAll [] (entries names 0 [] lines (Text.splitOn Text.newline code)), ?_,
    fun o => ?_⟩
  · rw [read, hmapne, hmap]
    simp only [Bool.false_eq_true, if_false, renames, List.isEmpty_eq_false_iff.2 hne]
    cases lines with
    | nil => rfl
    | cons line lines =>
      rw [← hgroups, encodeLines, Text.splitOn_join (by simp)]
      intro piece hmem hsemi
      obtain ⟨line, -, rfl⟩ := List.mem_map.1 hmem
      exact absurd (encodeLine_mem hsemi) (by decide +kernel)
  · rw [Renames.find?_insertAll, List.append_nil]
    rfl

/-- A line with a rune of two units, and one with two names at the same byte. -/
theorem read_recovers_astral :
    let map := "\x7b\"mappings\":\"AAAAA,EAAAC;CAAAD,AAAAC\",\"names\":[\"a\",\"b\"]\x7d"
    ∃ r, read map "😀x\n y" = .ok r ∧
      ∀ o, r.find? o = [((7 : Int), ("b" : Text)), (7, "a"), (4, "b"), (0, "a")].lookup o :=
  read_recovers _ "😀x\n y" ["a", "b"]
    [[[0, 0, 0, 0, 0], [2, 0, 0, 0, 1]], [[1, 0, 0, 0, -1], [0, 0, 0, 0, 1]]]
    (by decide +kernel) (by decide) (by decide)
    ⟨by decide +kernel, by decide, by decide, by decide, by decide⟩

end SourceMap
end LabelHooks
