import LabelHooks.Proofs.LockstepStatements

/-!
Laying out the tokens of a text again. A text is read by its tokens and by the line breaks before
them: with one byte of white space before each token the tokens are the same, and so is what the
text is read as, apart from places and comments.
-/

namespace LabelHooks
set_option autoImplicit true

open Token (Kind)
open Lexeme (isBlank IsLexeme Stops)

def Text.gap (newline : Bool) : Text := if newline then [Text.newline] else [byte ' ']

def Token.spaced (t : Token) : Text := Text.gap t.newlineBefore ++ t.literal

def relayout (ts : List Token) : Text := ts.flatMap Token.spaced

theorem Text.gap_blank (newline : Bool) : ∀ b ∈ Text.gap newline, Lexeme.isBlank b := by
  intro b hb
  cases newline <;> rw [List.mem_singleton.1 hb] <;> decide

theorem Text.newline_mem_gap (newline : Bool) :
    decide (Text.newline ∈ Text.gap newline) = newline := by
  cases newline <;> decide

theorem head_relayout (ts : List Token) (b : UInt8) (h : (relayout ts).head? = some b) :
    isBlank b := by
  cases ts with
  | nil => cases h
  | cons t ts =>
    obtain ⟨k, u, p, newline⟩ := t
    cases newline <;> cases h <;> decide

theorem Settled.append {u r r' : Text} (h : Settled (u ++ r)) (hu : u ≠ [])
    (hr : ∀ b, r'.head? = some b → isBlank b) : Settled (u ++ r') := by
  cases u with
  | nil => exact absurd rfl hu
  | cons b u =>
    refine ⟨h.1, ?_⟩
    intro hb
    cases u with
    | nil =>
      have hblank : ¬ isBlank (byte '/') ∧ ¬ isBlank (byte '*') := by decide
      exact ⟨fun h => hblank.1 (hr _ h), fun h => hblank.2 (hr _ h)⟩
    | cons c u => exact h.2 hb

theorem Lexed.spells (h : Lexed prev p t ts cs fs) (hfs : fs = []) :
    Spells prev (relayout ts) (ts.map Token.word) := by
  induction h with
  | @done p g cs prev fs _ =>
    have hdone : Spells prev _ _ := .done (Text.gap_blank (Text.newline ∈ g))
    rw [Text.newline_mem_gap] at hdone
    simpa [relayout, Token.spaced, Token.word] using hdone
  | @token p g cs u r prev k cause ts cs' fs' fs _ hsettled hu hfirst _ ih =>
    simp only [List.append_eq_nil_iff] at hfs
    obtain ⟨⟨_, hcause⟩, hfs'⟩ := hfs
    cases cause with
    | some c => cases hcause
    | none =>
      have hlexeme := (Lexeme.isLexeme_of_first hu hfirst).stable
        (Stops.of_blank (head_relayout ts) k)
      have hword := Spells.word (Text.gap_blank (Text.newline ∈ g))
        (hsettled.append hu (head_relayout ts)) hlexeme (ih hfs')
      rw [Text.newline_mem_gap] at hword
      simpa [relayout, Token.spaced, Token.word] using hword

namespace Lexer

theorem all_lexed {src : Text} {ts : List Token} {l : Lexer} (h : all src = .ok (ts, l)) :
    ∃ p t cs, Lexed .eof p t ts cs l.faults ∧ t.length ≤ src.length := by
  have hlexed : ∀ {t : Text} {p : Position} (c : Cursor),
      Skips { ofText src with cursor := c } t p false
        ((ofText src).skipTrivia (src.length + 1) false) →
      t.length ≤ src.length → 0 ≤ p.offset →
      ∃ p t cs, Lexed .eof p t ts cs l.faults ∧ t.length ≤ src.length := by
    intro t p c hskips hle hp
    rcases allFrom_eq (src.length + 1) c hskips (by omega) hp with
      ⟨hall, _⟩ | ⟨ts', cs, fs, l', hall, _, hfaults, hlexed⟩
    · rw [all, hall] at h
      cases h
    · rw [all, hall] at h
      cases h
      refine ⟨p, t, cs, ?_, hle⟩
      rw [hfaults]
      exact hlexed
  by_cases hmark : (ofText src).atMark = true
  · have hsrc : ∃ t, src = 0xEF :: 0xBB :: t := by
      simp only [atMark, Bool.and_eq_true, decide_eq_true_eq] at hmark
      obtain ⟨⟨_, hfirst⟩, hsecond⟩ := hmark
      rcases src with _ | ⟨b₁, _ | ⟨b₂, t⟩⟩
      · cases hfirst
      · cases hsecond
      · cases hfirst
        cases hsecond
        exact ⟨t, rfl⟩
    obtain ⟨t, rfl⟩ := hsrc
    cases t with
    | nil =>
      cases h
      exact ⟨_, [], [], .done (.nil _), Nat.zero_le _⟩
    | cons b t =>
      refine hlexed _ (skips_mark rfl rfl) ?_ ?_
      · simp only [List.length_cons]
        omega
      · simp [Position.first]
  · have hskips := skips (l := ofText src) (src.length + 1) false rfl (Nat.lt_succ_self _)
      (Int.le_refl _) (Bool.eq_false_iff.2 hmark)
    exact hlexed _ hskips (Nat.le_refl _) (Int.le_refl _)

theorem allFrom_of_spells (fuel : Nat) {l : Lexer} {t : Text} {p : Position} {ws : List Word}
    (hc : l.cursor = .ofText t p) (h : Spells l.prev t ws)
    (hstart : l.base = p.offset → Unmarked t) (hbase : l.base ≤ p.offset)
    (hfuel : t.length < fuel) : ∃ ts l', allFrom fuel l = .ok (ts, l') ∧ l'.faults = l.faults ∧
      ts.map Token.word = ws := by
  generalize hprev : l.prev = prev at h
  induction h generalizing l p fuel with
  | @done g prev hg =>
    obtain ⟨fuel, rfl⟩ : ∃ n, fuel = n + 1 := ⟨fuel - 1, by omega⟩
    have hnext := next_of_done hc hg hstart hbase
    rw [allFrom, hnext]
    exact ⟨_, _, rfl, rfl, rfl⟩
  | @word g u r prev k ws hg hu hlex _ ih =>
    subst hprev
    obtain ⟨fuel, rfl⟩ : ∃ n, fuel = n + 1 := ⟨fuel - 1, by omega⟩
    have hnext := next_of_word hc hg hu hlex hstart hbase
    have hpos : 0 < u.length := List.length_pos_iff.2 hlex.ne_nil
    simp only [List.length_append] at hfuel
    have hlt : l.base < ((p.after g).after u).offset := by
      simp only [Position.after_offset]
      omega
    obtain ⟨ts, l', hall, hfaults, hwords⟩ := ih fuel
      (l := { l with cursor := .ofText r ((p.after g).after u), prev := k }) rfl
      (fun h => absurd h (Int.ne_of_lt hlt)) (Int.le_of_lt hlt) (by omega) rfl
    rw [allFrom, hnext]
    simp only [bind, Except.bind, if_neg hlex.kind_ne_eof, hall]
    exact ⟨_, l', rfl, hfaults, by rw [List.map_cons, hwords]; rfl⟩

end Lexer

def ladder (width : Int) : List Int → Int → Int
  | [], o => o
  | [s], o => o - s
  | s :: q :: qs, o => if o < q then o - s else width + ladder width (q :: qs) o

def Rising (width : Int) (starts : List Int) : Prop :=
  starts.IsChain fun s q => s < q ∧ q ≤ s + width

namespace Rising

variable {width : Int}

theorem cons_cons {s q : Int} {qs : List Int} :
    Rising width (s :: q :: qs) ↔ (s < q ∧ q ≤ s + width) ∧ Rising width (q :: qs) :=
  List.isChain_cons_cons

theorem le_of_mem {s q : Int} {qs : List Int} (h : Rising width (s :: qs)) (hq : q ∈ s :: qs) :
    s ≤ q := by
  induction qs generalizing s with
  | nil => simp_all
  | cons r qs ih =>
    rw [cons_cons] at h
    rcases List.mem_cons.1 hq with rfl | hq
    · exact Int.le_refl _
    · have := ih h.2 hq
      omega

theorem ladder_head {s : Int} {qs : List Int} (h : Rising width (s :: qs)) :
    ladder width (s :: qs) s = 0 := by
  cases qs with
  | nil => simp [ladder]
  | cons q qs =>
    rw [cons_cons] at h
    rw [ladder, if_pos h.1.1, Int.sub_self]

theorem ladder_above {s q o : Int} {qs : List Int} (ho : q ≤ o) :
    ladder width (s :: q :: qs) o = width + ladder width (q :: qs) o := by
  rw [ladder, if_neg (by omega)]

theorem strictMono {starts : List Int} (h : Rising width starts) :
    StrictMono (ladder width starts) := by
  induction starts with
  | nil => exact strictMono_id
  | cons s qs ih =>
    intro a b hab
    cases qs with
    | nil =>
      simp only [ladder]
      omega
    | cons q qs =>
      rw [cons_cons] at h
      have hmono := ih h.2
      by_cases hb : b < q
      · rw [ladder, ladder, if_pos (by omega), if_pos hb]
        omega
      · rw [ladder_above (o := b) (by omega)]
        by_cases ha : a < q
        · -- `a` is seen below `width`, and `b` no lower than `q`, which is seen at `width`.
          have hhead := ladder_head h.2
          have hle := hmono.monotone (show q ≤ b by omega)
          rw [ladder, if_pos ha]
          omega
        · have := hmono hab
          rw [ladder_above (by omega)]
          omega

theorem map_ladder_eq {starts starts' : List Int} (h : Rising width starts)
    (h' : Rising width starts') (hlen : starts.length = starts'.length) :
    starts.map (ladder width starts) = starts'.map (ladder width starts') := by
  have hshift : ∀ {s q : Int} {qs : List Int}, Rising width (q :: qs) →
      (q :: qs).map (ladder width (s :: q :: qs)) =
        ((q :: qs).map (ladder width (q :: qs))).map (width + ·) := by
    intro s q qs h
    rw [List.map_map]
    apply List.map_congr_left
    intro o ho
    exact ladder_above (h.le_of_mem ho)
  induction starts generalizing starts' with
  | nil =>
    cases starts' with
    | nil => rfl
    | cons s' qs' => cases hlen
  | cons s qs ih =>
    cases starts' with
    | nil => cases hlen
    | cons s' qs' =>
      rw [List.map_cons, List.map_cons, ladder_head h, ladder_head h']
      cases qs with
      | nil =>
        cases qs' with
        | nil => rfl
        | cons q' qs' => cases hlen
      | cons q qs =>
        cases qs' with
        | nil => cases hlen
        | cons q' qs' =>
          rw [cons_cons] at h h'
          rw [hshift h.2, hshift h'.2, ih h.2 h'.2 (Nat.succ.inj hlen)]

theorem straight {starts : List Int} (h : Rising width starts) {s n : Int} (hs : s ∈ starts)
    (hn : ∀ q ∈ starts, s < q → s + n ≤ q) : Straight (ladder width starts) s (s + n - 1) := by
  intro o ho ho'
  induction starts with
  | nil => cases hs
  | cons r qs ih =>
    cases qs with
    | nil =>
      simp only [ladder]
      omega
    | cons q qs =>
      have hchain := h
      rw [cons_cons] at hchain
      rcases List.mem_cons.1 hs with rfl | hs
      · have := hn q (.tail _ (.head _)) hchain.1.1
        rw [ladder_head h, ladder, if_pos (by omega)]
        omega
      · have hle := hchain.2.le_of_mem hs
        rw [ladder_above (by omega), ladder_above hle,
          ih hchain.2 hs (fun r hr => hn r (.tail _ hr))]
        omega

end Rising

namespace Lexed

theorem within (h : Lexed prev p t ts cs fs) :
    ∀ x ∈ ts, p.offset ≤ x.pos.offset ∧ x.pos.offset ≤ p.offset + t.length := by
  induction h with
  | done _ =>
    simp only [List.mem_singleton, forall_eq, Position.after_offset]
    omega
  | token _ _ _ _ _ ih =>
    simp only [List.mem_cons, forall_eq_or_imp, Position.after_offset, List.length_append] at ih ⊢
    refine ⟨by omega, ?_⟩
    intro x hx
    have := ih x hx
    omega

theorem apart (h : Lexed prev p t ts cs fs) : ∀ x ∈ ts, ∀ y ∈ ts, x.pos.offset < y.pos.offset →
    x.pos.offset + x.literal.length ≤ y.pos.offset := by
  induction h with
  | done _ => simp
  | @token p g cs u r prev k cause ts cs' fs' fs _ _ _ _ hlexed ih =>
    have hwithin := hlexed.within
    simp only [Position.after_offset] at hwithin
    intro x hx y hy hlt
    rcases List.mem_cons.1 hx with rfl | hx
    · rcases List.mem_cons.1 hy with rfl | hy
      · omega
      · have := hwithin y hy
        simp only [Position.after_offset]
        omega
    · rcases List.mem_cons.1 hy with rfl | hy
      · have := hwithin x hx
        simp only [Position.after_offset] at hlt
        omega
      · exact ih x hx y hy hlt

theorem rising (h : Lexed prev p t ts cs fs) {width : Int} (hwidth : t.length ≤ width) :
    Rising width (ts.map (·.pos.offset)) := by
  induction h with
  | done _ => exact List.IsChain.singleton _
  | @token p g cs u r prev k cause ts cs' fs' fs _ _ hu _ hlexed ih =>
    have hwithin := hlexed.within
    have hpos : 0 < u.length := List.length_pos_iff.2 hu
    simp only [List.length_append, Position.after_offset] at hwidth hwithin
    have hrest := ih (by omega)
    cases ts with
    | nil => exact List.IsChain.singleton _
    | cons y ts =>
      have := hwithin y (.head _)
      refine Rising.cons_cons.2 ⟨?_, hrest⟩
      simp only [Position.after_offset]
      omega

theorem sum_literals (h : Lexed prev p t ts cs fs) :
    (ts.map (·.literal.length)).sum ≤ t.length := by
  induction h with
  | done _ => simp
  | token _ _ _ _ _ ih =>
    simp only [List.map_cons, List.sum_cons, List.length_append]
    omega

theorem closed (h : Lexed prev p t ts cs fs) (hfs : fs = []) : ∀ x ∈ ts,
    (x.kind = .eof ↔ x.literal = []) ∧ (x.kind = .template →
      Lexeme.template x.literal.tail = (x.literal.length - 1, true)) := by
  induction h with
  | done _ => simp
  | @token p g cs u r prev k cause ts cs' fs' fs _ _ hu hfirst _ ih =>
    simp only [List.append_eq_nil_iff] at hfs
    obtain ⟨⟨_, hcause⟩, hfs'⟩ := hfs
    cases cause with
    | some c => cases hcause
    | none =>
      have hlexeme := Lexeme.isLexeme_of_first hu hfirst
      intro x hx
      rcases List.mem_cons.1 hx with rfl | hx
      · refine ⟨⟨fun hk => absurd hk hlexeme.kind_ne_eof, fun hnil => absurd hnil hu⟩, ?_⟩
        rintro rfl
        exact hlexeme.template_closed
      · exact ih hfs' x hx

end Lexed

theorem Token.sound_of_closed {v : Int → Int} {t : Token}
    (hended : t.kind = .eof ↔ t.literal = []) (hclosed : t.kind = .template →
      Lexeme.template t.literal.tail = (t.literal.length - 1, true))
    (hv : Straight v t.pos.offset (t.pos.offset + t.literal.length - 1)) : t.Sound v := by
  refine ⟨hended, ?_⟩
  intro hk parts hparts sub hsub
  obtain ⟨i, _, hi, _, hinside⟩ := TemplateParts.ofRaw_inside hparts hsub
  have hle := hinside (hclosed hk)
  have hreach : sub.source.reach ≤ sub.source.length + 1 := by
    unfold Text.reach
    split
    · next h => simp [h]
    · omega
  exact ⟨by omega, hv.sub (Int.le_refl _) (by omega)⟩

def feed (ts : List Token) : List (Token × List Fault) × Option Token :=
  (ts.map (·, []), ts.getLast?.map fun t => { t with newlineBefore := false })

theorem Lexer.all_shows {src : Text} {ts : List Token} {l : Lexer} (width : Int)
    (h : all src = .ok (ts, l)) (hl : l.faults = []) (hwidth : src.length ≤ width) :
    let v := ladder width (ts.map (·.pos.offset))
    let f := feed (ts.map (Token.seen v))
    Rising width (ts.map (·.pos.offset)) ∧ Shows v (ofText src) f.1 f.2 ∧
      feedWeight f.1 ≤ src.length := by
  obtain ⟨p, t, cs, hlexed, hlen⟩ := all_lexed h
  have hrising : Rising width (ts.map (·.pos.offset)) := hlexed.rising (by omega)
  refine ⟨hrising, ?_, ?_⟩
  · simp only [feed, List.map_map, Function.comp_def, List.getLast?_map, Option.map_map]
    refine (Shows.of_allFrom h hl ?_).2
    intro x hx
    obtain ⟨hended, hclosed⟩ := hlexed.closed hl x hx
    apply Token.sound_of_closed hended hclosed
    apply hrising.straight (List.mem_map_of_mem hx)
    intro q hq hlt
    obtain ⟨y, hy, rfl⟩ := List.mem_map.1 hq
    exact hlexed.apart x hx y hy hlt
  · have := hlexed.sum_literals
    simp only [feedWeight, feed, List.map_map, Function.comp_def, Token.seen]
    omega

namespace Parse

open Seen (seen)

instance : Seen Program := ⟨fun v p => ⟨p.mark.seen v, seen v p.body, []⟩⟩

theorem Lockstep.program {v v' : Int → Int} {n : Nat} {r r' : Rules} {σ : Window}
    (hr : InStep v v' n r r') (hσ : σ.weight < n) :
    Lockstep v v' σ (Parse.program r) (Parse.program r') fun _ _ _ => True := by
  apply start
  intro p p' hp
  apply bind (statementList hr (by omega) (.inl hσ) _)
  intro ss ss' τ hss _ _ _
  apply get
  intro s s' _ _
  refine pure ?_ trivial
  change (⟨_, _, _⟩ : Program) = ⟨_, _, _⟩
  rw [hss]
  simp only [Mark.seen, Mark.ofSpan, hp]

end Parse

def SyntaxError.plain : SyntaxError → SyntaxError
  | .rejected f => .rejected (f.seen fun _ => 0)
  | .crashed c => .crashed c

def Program.plainly : Except SyntaxError Program → Except SyntaxError Program
  | .ok p => .ok p.plain
  | .error e => .error e.plain

theorem Fault.seen_eq {f f' : Fault} (h : f.seen v = f'.seen v') :
    (f.seen fun _ => 0) = f'.seen fun _ => 0 := by
  have hseen : ∀ (v : Int → Int) (f : Fault), ((f.seen v).seen fun _ => 0) = f.seen fun _ => 0 := by
    intro v ⟨p, c⟩
    cases c <;> rfl
  rw [← hseen v f, h, hseen]

theorem Program.plain_eq {p p' : Program} (h : Seen.seen v p = Seen.seen v' p') :
    p.plain = p'.plain := by
  have hbody : p.body.map (Stmt.marked _) = p'.body.map (Stmt.marked _) := congrArg Program.body h
  have hplain := Stmt.map_plain_eq hbody
  simp only [Program.plain, Program.marked, Marking.mark_ofMark]
  rw [hplain]

namespace Parse

def outcome : Except Crash (α × Reader) → Except SyntaxError α
  | .error c => .error (.crashed c)
  | .ok (x, s) =>
    match s.fault? with
    | some f => .error (.rejected f)
    | none => .ok x

theorem whole_eq (rule : Rules → Parse α) (t : Text) : whole rule t =
    outcome (Reader.ofLexer (.ofText t) >>= fun s => (rule (rulesFor t)).run s) := by
  unfold whole outcome
  rfl

end Parse

theorem Program.parse_alike {v v' : Int → Int} (hv : StrictMono v) (hv' : StrictMono v')
    {src src' : Text} {ts : List (Token × List Fault)} {e : Option Token}
    (h : (Lexer.ofText src).Shows v ts e) (h' : (Lexer.ofText src').Shows v' ts e)
    (hlen : Lexer.feedWeight ts ≤ src.length) (hlen' : Lexer.feedWeight ts ≤ src'.length) :
    plainly (parse src) = plainly (parse src') := by
  have hr : Parse.InStep v v' (Lexer.feedWeight ts + 1) (Parse.rulesFor src)
      (Parse.rulesFor src') :=
    .rules hv hv' (by omega) (by omega) (by omega) (by omega)
  have hreader := Parse.Lockstep.ofLexer h rfl
  have hreader' := Parse.Lockstep.ofLexer h' rfl
  rw [parse, parse, Parse.whole_eq, Parse.whole_eq]
  cases hτ : ((Parse.Lockstep.fresh .blank ts e).advanced.bind Window.advanced).bind
      Window.advanced with
  | none =>
    rw [hτ] at hreader hreader'
    rw [show Reader.ofLexer _ = .error .overrun from hreader,
      show Reader.ofLexer _ = .error .overrun from hreader']
    simp only [bind, Except.bind]
  | some τ =>
    rw [hτ] at hreader hreader'
    obtain ⟨s, hs, hshows, hweight⟩ := hreader
    obtain ⟨s', hs', hshows', _⟩ := hreader'
    have hrun := Parse.Lockstep.program hr (σ := τ) (by omega) hshows hshows'
    rw [hs, hs']
    change plainly (Parse.outcome ((Parse.program _).run s)) =
      plainly (Parse.outcome ((Parse.program _).run s'))
    generalize (Parse.program (Parse.rulesFor src)).run s = x at hrun ⊢
    generalize (Parse.program (Parse.rulesFor src')).run s' = x' at hrun ⊢
    cases hrun with
    | crash hc => rfl
    | @ok ρ u u' a a' hu hu' ha _ _ _ =>
      have hfault := Parse.Lockstep.fault?_seen hr hu hu'
      simp only [Parse.outcome]
      cases hf : u.fault? with
      | none =>
        rw [hf] at hfault
        rw [Option.map_eq_none_iff.1 hfault.symm]
        exact congrArg Except.ok (Program.plain_eq ha)
      | some f =>
        rw [hf] at hfault
        obtain ⟨f', hf', hseen⟩ := Option.map_eq_some_iff.1 hfault.symm
        rw [hf']
        exact congrArg (fun f => Except.error (SyntaxError.rejected f)) (Fault.seen_eq hseen.symm)

theorem map_seen_eq {ts ts' : List Token} {v v' : Int → Int}
    (hwords : ts.map Token.word = ts'.map Token.word)
    (hseen : ts.map (fun t => v t.pos.offset) = ts'.map fun t => v' t.pos.offset) :
    ts.map (Token.seen v) = ts'.map (Token.seen v') := by
  induction ts generalizing ts' with
  | nil =>
    cases ts' with
    | nil => rfl
    | cons t' ts' => cases hwords
  | cons t ts ih =>
    cases ts' with
    | nil => cases hwords
    | cons t' ts' =>
      simp only [List.map_cons, List.cons.injEq] at hwords hseen ⊢
      refine ⟨?_, ih hwords.2 hseen.2⟩
      have hword := Word.mk.inj hwords.1
      simp only [Token.seen, Position.seen, hword.1, hword.2.1, hword.2.2, hseen.1]

/-- The tokens of a text in which the lexer finds no fault, and the line breaks before them, are
found again in their new layout, and so both texts are read as the same. -/
theorem Program.parse_relayout {src : Text} {ts : List Token} {l : Lexer}
    (h : Lexer.all src = .ok (ts, l)) (hl : l.faults = []) :
    (∃ ts' l', Lexer.all (relayout ts) = .ok (ts', l') ∧ l'.faults = [] ∧
      ts'.map Token.word = ts.map Token.word) ∧
    plainly (parse (relayout ts)) = plainly (parse src) := by
  obtain ⟨p, t, cs, hlexed, hlen⟩ := Lexer.all_lexed h
  have hunmarked : Unmarked (relayout ts) := by
    have hblank : ¬ isBlank 0xEF ∧ ¬ isBlank (byte '#') := by decide
    constructor
    · rintro ⟨r, hr⟩
      exact hblank.1 (head_relayout ts _ (by rw [← hr]; rfl))
    · rintro ⟨r, hr⟩
      exact hblank.2 (head_relayout ts _ (by rw [← hr]; rfl))
  obtain ⟨ts', l', h', hl', hwords⟩ := Lexer.allFrom_of_spells ((relayout ts).length + 1)
    (l := .ofText (relayout ts)) (p := .first) rfl (hlexed.spells hl) (fun _ => hunmarked)
    (Int.le_refl _) (Nat.lt_succ_self _)
  refine ⟨⟨ts', l', h', hl', hwords⟩, ?_⟩
  -- Both texts are seen so that the same tokens stand at the same places.
  obtain ⟨hrising, hshows⟩ := Lexer.all_shows (src.length + (relayout ts).length) h hl
    (by omega)
  obtain ⟨hrising', hshows'⟩ := Lexer.all_shows (src.length + (relayout ts).length) h' hl'
    (by omega)
  generalize hv : ladder _ (ts.map _) = v at hshows
  generalize hv' : ladder _ (ts'.map _) = v' at hshows'
  have hlen : ts'.length = ts.length := by
    have := congrArg List.length hwords
    rwa [List.length_map, List.length_map] at this
  have hseen : ts'.map (Token.seen v') = ts.map (Token.seen v) := by
    apply map_seen_eq hwords
    have := hrising'.map_ladder_eq hrising (by rw [List.length_map, List.length_map, hlen])
    rwa [List.map_map, List.map_map, hv, hv'] at this
  rw [hseen] at hshows'
  exact parse_alike (hv' ▸ hrising'.strictMono) (hv ▸ hrising.strictMono) hshows'.1 hshows.1
    hshows'.2 hshows.2

/-- A comment with a line break, a regular expression, a template literal and a line break at the
end. -/
theorem Program.parse_relayout_broken_lines :
    let src : Text := "a[/b/]/* \n */ += \x60x$\x7b y \x7d\x60//z\n"
    ∃ ts l, Lexer.all src = .ok (ts, l) ∧ l.faults = [] ∧
      relayout ts = " a [ /b/ ]\n+= \x60x$\x7b y \x7d\x60\n" ∧
      (∃ ts' l', Lexer.all (relayout ts) = .ok (ts', l') ∧ l'.faults = [] ∧
        ts'.map Token.word = ts.map Token.word) ∧
      plainly (parse (relayout ts)) = plainly (parse src) := by
  intro src
  have hall : (Lexer.all src).map (fun r => (relayout r.1, r.2.faults)) =
      .ok (" a [ /b/ ]\n+= \x60x$\x7b y \x7d\x60\n", []) := by decide +kernel
  cases h : Lexer.all src with
  | error c =>
    rw [h] at hall
    cases hall
  | ok r =>
    rw [h] at hall
    obtain ⟨hlayout, hfaults⟩ := Prod.mk.inj (Except.ok.inj hall)
    exact ⟨r.1, r.2, rfl, hfaults, hlayout, parse_relayout h hfaults⟩

end LabelHooks
