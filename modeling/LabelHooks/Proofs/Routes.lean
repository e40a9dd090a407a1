import LabelHooks.Path.Basic
import LabelHooks.Proofs.Paths
import LabelHooks.Proofs.Recovery

/-!
Paths as lists of steps. A path is cleaned by settling its parts, and joining and relating paths is
appending and dropping of steps.
-/

namespace LabelHooks
set_option autoImplicit true

namespace Text

theorem splitOn_append_cons (sep : UInt8) (x y : Text) :
    splitOn sep (x ++ sep :: y) = splitOn sep x ++ splitOn sep y := by
  induction x with
  | nil => simp [splitOn]
  | cons b x ih =>
    obtain ⟨first, more, hx⟩ := List.exists_cons_of_ne_nil (splitOn_ne_nil sep x)
    rw [List.cons_append, splitOn, splitOn, ih, hx]
    split <;> rfl

theorem mem_of_mem_splitOn (h : piece ∈ splitOn sep t) (hb : b ∈ piece) : b ∈ t ∧ b ≠ sep := by
  induction t generalizing piece with
  | nil => simp_all [splitOn]
  | cons c t ih =>
    obtain ⟨first, more, ht⟩ := List.exists_cons_of_ne_nil (splitOn_ne_nil sep t)
    rw [splitOn, ht] at h
    rw [ht] at ih
    grind

end Text

namespace Path

structure IsStep (k : Text) : Prop where
  nonempty : k ≠ []
  slash : slash ∉ k
  dot : k ≠ dot

structure IsName (n : Text) : Prop extends IsStep n where
  dotdot : n ≠ dotdot

instance : DecidablePred IsName := fun n =>
  decidable_of_iff (n ≠ [] ∧ slash ∉ n ∧ n ≠ Path.dot ∧ n ≠ Path.dotdot)
    ⟨fun ⟨hne, hslash, hdot, hdotdot⟩ => ⟨⟨hne, hslash, hdot⟩, hdotdot⟩,
      fun h => ⟨h.nonempty, h.slash, h.dot, h.dotdot⟩⟩

/-- The steps of a path that are left when its parts have been followed. -/
def kept (p : Text) : List Text := ((parts p).foldl (follow (isAbs p)) []).reverse

def spell (rooted : Bool) (ks : List Text) : Text :=
  if rooted then slash :: Text.join [slash] ks
  else if ks.isEmpty then dot
  else Text.join [slash] ks

theorem clean_eq (p : Text) : clean p = spell (isAbs p) (kept p) := rfl

/-- Steps that are left as they are when they are followed again. -/
structure Settled (rooted : Bool) (ks : List Text) : Prop where
  steps : ∀ k ∈ ks, IsStep k
  stable : ks.foldl (follow rooted) [] = ks.reverse

theorem foldl_names {ns : List Text} (h : ∀ n ∈ ns, IsName n) (rooted : Bool) (st : List Text) :
    ns.foldl (follow rooted) st = ns.reverse ++ st := by
  induction ns generalizing st with
  | nil => rfl
  | cons n ns ih =>
    rw [List.forall_mem_cons] at h
    simp [ih h.2, follow, h.1.dotdot]

theorem Settled.append (hk : Settled r ks) (h : ∀ n ∈ ns, IsName n) : Settled r (ks ++ ns) := by
  refine ⟨List.forall_mem_append.2 ⟨hk.steps, fun n hn => (h n hn).toIsStep⟩, ?_⟩
  rw [List.foldl_append, hk.stable, foldl_names h, List.reverse_append]

theorem mem_parts (h : k ∈ parts p) : IsStep k := by
  obtain ⟨hmem, hk⟩ := List.mem_filter.1 h
  simp only [Bool.and_eq_true, Bool.not_eq_true', List.isEmpty_eq_false_iff,
    decide_eq_true_eq] at hk
  exact ⟨hk.1, fun hslash => (Text.mem_of_mem_splitOn hmem hslash).2 rfl, hk.2⟩

/-- Following one part keeps steps settled: only a name is taken back. -/
theorem Settled.follow (h : Settled r st.reverse) (hk : IsStep k) :
    Settled r (Path.follow r st k).reverse := by
  have hstable : st.reverse.foldl (Path.follow r) [] = st := by rw [h.stable, List.reverse_reverse]
  have hpush (hfollow : Path.follow r st k = k :: st) : Settled r (Path.follow r st k).reverse := by
    rw [hfollow, List.reverse_cons]
    refine ⟨List.forall_mem_append.2 ⟨h.steps, List.forall_mem_singleton.2 hk⟩, ?_⟩
    rw [List.foldl_append, hstable]
    simp [hfollow]
  by_cases hup : k = dotdot
  · subst hup
    cases st with
    | nil =>
      cases r with
      | true => exact h
      | false => exact hpush rfl
    | cons top st =>
      by_cases htop : top = dotdot
      · exact hpush (by simp [Path.follow, htop])
      · have hback : st.reverse.foldl (Path.follow r) [] = st := by
          rw [List.reverse_cons, List.foldl_append] at hstable
          simpa [Path.follow, htop] using hstable
        have hfollow : Path.follow r (top :: st) dotdot = st := by simp [Path.follow, htop]
        rw [hfollow]
        refine ⟨fun k hk => h.steps k ?_, by rw [hback, List.reverse_reverse]⟩
        exact List.mem_reverse.2 (.tail _ (List.mem_reverse.1 hk))
  · exact hpush (by simp [Path.follow, hup])

theorem settled_kept (p : Text) : Settled (isAbs p) (kept p) := by
  suffices h : ∀ ps st : List Text, (∀ k ∈ ps, k ∈ parts p) → Settled (isAbs p) st.reverse →
      Settled (isAbs p) (ps.foldl (follow (isAbs p)) st).reverse from
    h _ [] (fun _ hk => hk) ⟨by simp, rfl⟩
  intro ps
  induction ps with
  | nil => exact fun _ _ hst => hst
  | cons k ps ih =>
    intro st hps hst
    rw [List.forall_mem_cons] at hps
    exact ih _ hps.2 (hst.follow (mem_parts hps.1))

theorem isAbs_spell (h : Settled r ks) : isAbs (spell r ks) = r := by
  cases r with
  | true => rfl
  | false =>
    cases ks with
    | nil => rfl
    | cons k ks =>
      obtain ⟨hk, hslash, -⟩ := h.steps k List.mem_cons_self
      obtain ⟨b, k, rfl⟩ := List.exists_cons_of_ne_nil hk
      have hb : b ≠ slash := fun hb => hslash (hb ▸ List.mem_cons_self)
      cases ks <;> simp [isAbs, spell, Text.join, hb]

theorem filter_steps {ks : List Text} (h : ∀ k ∈ ks, IsStep k) :
    ks.filter (fun c => !c.isEmpty && c ≠ dot) = ks := by
  rw [List.filter_eq_self]
  intro k hk
  simp [(h k hk).nonempty, (h k hk).dot]

theorem splitOn_steps (h : ∀ k ∈ ks, IsStep k) (hne : ks ≠ []) :
    Text.splitOn slash (Text.join [slash] ks) = ks :=
  Text.splitOn_join hne fun k hk => (h k hk).slash

theorem parts_spell (h : Settled r ks) : parts (spell r ks) = ks := by
  have hkeep := filter_steps h.steps
  obtain rfl | hne := eq_or_ne ks []
  · cases r <;> rfl
  · cases r <;> simp_all [parts, spell, Text.splitOn, splitOn_steps h.steps hne]

theorem kept_spell (h : Settled r ks) : kept (spell r ks) = ks := by
  rw [kept, parts_spell h, isAbs_spell h, h.stable, List.reverse_reverse]

theorem kept_clean (p : Text) : kept (clean p) = kept p := kept_spell (settled_kept p)

theorem isAbs_clean (p : Text) : isAbs (clean p) = isAbs p := isAbs_spell (settled_kept p)

theorem spell_ne_nil (h : Settled r ks) : spell r ks ≠ [] := by
  intro heq
  have habs := isAbs_spell h
  have hkept := kept_spell h
  rw [heq] at habs hkept
  subst habs hkept
  cases heq

theorem parts_append (p : Text) (hne : ns ≠ []) (h : ∀ n ∈ ns, IsName n) :
    parts (p ++ slash :: Text.join [slash] ns) = parts p ++ ns := by
  have hsteps : ∀ n ∈ ns, IsStep n := fun n hn => (h n hn).toIsStep
  rw [parts, Text.splitOn_append_cons, splitOn_steps hsteps hne, List.filter_append,
    filter_steps hsteps]
  rfl

/-- Joining names to a path appends them to its steps. -/
theorem join_eq (hp : p ≠ []) {ns : List Text} (hne : ns ≠ []) (h : ∀ n ∈ ns, IsName n) :
    join [p, Text.join [slash] ns] = spell (isAbs p) (kept p ++ ns) := by
  obtain ⟨b, p, rfl⟩ := List.exists_cons_of_ne_nil hp
  have hjoin : join [b :: p, Text.join [slash] ns] =
      clean (b :: p ++ slash :: Text.join [slash] ns) := by simp [join, Text.join]
  rw [hjoin, clean_eq, kept, parts_append _ hne h, List.foldl_append, foldl_names h,
    List.reverse_append, List.reverse_reverse]
  rfl

theorem steps_spell (h : Settled r ks) (hne : r = true ∨ ks ≠ []) :
    steps (spell r ks) = (if r then [[]] else []) ++ ks := by
  obtain rfl | hks := eq_or_ne ks []
  · simp_all [steps, spell, Text.join]
  have hsplit := splitOn_steps h.steps hks
  have hjoin : ∀ t : Text, [] ∈ Text.splitOn slash t → Text.join [slash] ks ≠ t := by
    rintro _ ht rfl
    exact (h.steps _ (hsplit ▸ ht)).nonempty rfl
  have hempty := hjoin [] (by simp [Text.splitOn])
  have hslash := hjoin [slash] (by simp [Text.splitOn])
  cases r <;> simp [steps, spell, hks, hempty, hslash, Text.splitOn, hsplit]

theorem steps_clean (h : isAbs p = true ∨ kept p ≠ []) :
    steps (clean p) = (if isAbs p then [[]] else []) ++ kept p :=
  steps_spell (settled_kept p) h

theorem steps_start (p : Text) :
    isAbs (if clean p = dot then [] else clean p) = isAbs p ∧
      steps (if clean p = dot then [] else clean p) =
        (if isAbs p then [[]] else []) ++ kept p := by
  split
  · next h =>
    have habs : isAbs p = false := by rw [← isAbs_clean, h]; rfl
    have hkept : kept p = [] := by rw [← kept_clean, h]; rfl
    rw [habs, hkept]
    exact ⟨rfl, rfl⟩
  · next h =>
    refine ⟨isAbs_clean p, steps_clean ?_⟩
    by_contra hnot
    rw [not_or, Bool.not_eq_true, not_not] at hnot
    exact h (by rw [clean_eq, hnot.1, hnot.2]; rfl)

theorem dropCommon_append (pre ks ks' : List Text) :
    dropCommon (pre ++ ks) (pre ++ ks') = dropCommon ks ks' := by
  induction pre with
  | nil => rfl
  | cons x pre ih => simpa [dropCommon] using ih

theorem rel?_of_append (habs : isAbs p = isAbs q) (hkept : kept q = kept p ++ ns) (hne : ns ≠ []) :
    rel? p q = some (Text.join [slash] ns) := by
  have hclean : clean p ≠ clean q := by
    intro h
    have := congrArg kept h
    simp [kept_clean, hkept, hne] at this
  have hcommon : dropCommon (kept p) (kept p ++ ns) = ([], ns) := by
    have := dropCommon_append (kept p) [] ns
    rwa [List.append_nil] at this
  simp only [rel?, steps_start, isAbs_clean]
  rw [if_neg hclean, if_neg (by simpa using habs), steps_clean (.inr (by simp [hkept, hne])), habs,
    dropCommon_append, hkept, hcommon]

/-- What stands before the last part of a path that has the given parts before it. -/
def lead (init : List Text) : Text := init.flatMap (· ++ [slash])

theorem join_concat (init : List Text) (n : Text) :
    Text.join [slash] (init ++ [n]) = lead init ++ n := by
  induction init with
  | nil => rfl
  | cons x init ih =>
    have hjoin : Text.join [slash] (x :: (init ++ [n])) =
        x ++ slash :: Text.join [slash] (init ++ [n]) := by cases init <;> simp [Text.join]
    rw [List.cons_append, hjoin, ih]
    simp [lead]

theorem lastPart_lead (init : List Text) (h : slash ∉ n) : lastPart (lead init ++ n) = n := by
  have hn : ∀ b ∈ n.reverse, (b ≠ slash : Bool) = true := by
    intro b hb
    have : b ≠ slash := fun heq => h (heq ▸ List.mem_reverse.1 hb)
    simpa using this
  rw [lastPart, List.reverse_append, List.takeWhile_append_of_pos hn]
  obtain rfl | ⟨x, init, rfl⟩ := List.eq_nil_or_concat init
  · simp [lead]
  · simp [lead]

end Path
end LabelHooks
