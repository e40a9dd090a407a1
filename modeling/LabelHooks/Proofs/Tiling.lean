import Mathlib.Data.List.Perm.Basic
import LabelHooks.Proofs.Scanning

/-!
The tokens and comments of a text tile it: each stands where its position says, they do not
overlap, and between them is nothing but white space.
-/

namespace LabelHooks
set_option autoImplicit true

open Token (Kind)
open List

structure Piece where
  offset : Int
  text : Text
deriving DecidableEq, Repr

def Token.piece (t : Token) : Piece := ⟨t.pos.offset, t.literal⟩

def Comment.piece (c : Comment) : Piece := ⟨c.span.start.offset, c.text⟩

structure Tiles (o : Int) (t : Text) (ps : List Piece) : Prop where
  ordered : ps.Pairwise fun a b => a.offset + (a.text.length : Int) ≤ b.offset
  exact : ∀ a ∈ ps, ∃ n : Nat, a.offset = o + n ∧ a.text ≠ [] ∧ a.text <+: t.drop n
  blank : ∀ (n : Nat) (b : UInt8), t[n]? = some b → Lexeme.isBlank b ∨
    ∃ a ∈ ps, a.offset ≤ o + n ∧ o + n < a.offset + a.text.length

namespace Tiles

theorem nil (o : Int) : Tiles o [] [] := by
  constructor
  · exact .nil
  · intro a ha
    cases ha
  · intro n b hb
    cases hb

theorem space (hb : Lexeme.isBlank b) (h : Tiles (o + 1) t ps) : Tiles o (b :: t) ps := by
  constructor
  · exact h.ordered
  · intro a ha
    obtain ⟨n, ho, hne, hpre⟩ := h.exact a ha
    refine ⟨n + 1, ?_, hne, by simpa using hpre⟩
    rw [ho]
    omega
  · intro n c hc
    cases n with
    | zero =>
      cases hc
      exact .inl hb
    | succ n =>
      rcases h.blank n c (by simpa using hc) with hblank | ⟨a, ha, hle, hlt⟩
      · exact .inl hblank
      · exact .inr ⟨a, ha, by omega, by omega⟩

theorem piece (hu : u ≠ []) (h : Tiles (o + u.length) t ps) : Tiles o (u ++ t) (⟨o, u⟩ :: ps) := by
  constructor
  · refine pairwise_cons.2 ⟨?_, h.ordered⟩
    intro a ha
    obtain ⟨n, ho, _⟩ := h.exact a ha
    dsimp only
    omega
  · intro a ha
    rcases mem_cons.1 ha with rfl | ha
    · exact ⟨0, by simp, hu, t, rfl⟩
    · obtain ⟨n, ho, hne, hpre⟩ := h.exact a ha
      refine ⟨u.length + n, ?_, hne, by rwa [← drop_drop, drop_left]⟩
      rw [ho]
      omega
  · intro n b hb
    by_cases hn : n < u.length
    · exact .inr ⟨⟨o, u⟩, .head _, by dsimp only; omega, by dsimp only; omega⟩
    · have hle : u.length ≤ n := by omega
      rw [getElem?_append_right hle] at hb
      rcases h.blank _ b hb with hblank | ⟨a, ha, h₁, h₂⟩
      · exact .inl hblank
      · exact .inr ⟨a, .tail _ ha, by omega, by omega⟩

theorem gap (hg : Gap p g cs) (h : Tiles (p.offset + g.length) t ps) :
    Tiles p.offset (g ++ t) (cs.map Comment.piece ++ ps) := by
  induction hg with
  | nil p => simpa using h
  | blank hb _ ih =>
    apply space hb
    rw [Position.step_offset] at ih
    apply ih
    rw [length_cons] at h
    rwa [show ∀ (a : Int) (n : Nat), a + 1 + n = a + (n + 1 : Nat) by intros; omega]
  | @comment p g cs c hne hstart _ ih =>
    rw [append_assoc]
    rw [Position.after_offset] at ih
    rw [length_append] at h
    have hc : c.piece = ⟨p.offset, c.text⟩ := by rw [Comment.piece, hstart]
    rw [map_cons, cons_append, hc]
    apply piece hne
    apply ih
    rwa [show ∀ (a : Int) (m n : Nat), a + m + n = a + (m + n : Nat) by intros; omega]

end Tiles

theorem Lexed.tiles {prev} (h : Lexed prev p t ts cs fs) : ∃ body stop ps, ts = body ++ [stop] ∧
    stop.kind = .eof ∧ stop.literal = [] ∧ (∀ x ∈ body, x.kind ≠ .eof) ∧
    ps.Perm (body.map Token.piece ++ cs.map Comment.piece) ∧ (body.map Token.piece).Sublist ps ∧
    (cs.map Comment.piece).Sublist ps ∧ Tiles p.offset t ps := by
  induction h with
  | done hg =>
    refine ⟨[], _, _, rfl, rfl, rfl, ?_, List.Perm.refl _, nil_sublist _, ?_, ?_⟩
    · intro x hx
      cases hx
    · exact sublist_append_right _ _
    · simpa using Tiles.gap hg (.nil _)
  | @token p g cs u r prev k cause ts cs' fs' fs hg hr hu hfirst _ ih =>
    obtain ⟨body, stop, ps, rfl, hstop, hlit, hbody, hperm, htokens, hcomments, htiles⟩ := ih
    rw [Position.after_offset, Position.after_offset] at htiles
    have hpiece : Token.piece ⟨k, u, p.after g, Text.newline ∈ g⟩ = ⟨p.offset + g.length, u⟩ := by
      rw [Token.piece, Position.after_offset]
    refine ⟨_ :: body, stop, _, rfl, hstop, hlit, ?_, ?_, ?_, ?_, Tiles.gap hg (htiles.piece hu)⟩
    · intro x hx
      rcases mem_cons.1 hx with rfl | hx
      · cases u with
        | nil => exact absurd rfl hu
        | cons b u =>
          have := Lexeme.first_kind_ne_eof prev b (u ++ r)
          rw [cons_append] at hfirst
          rwa [hfirst] at this
      · exact hbody x hx
    · rw [map_cons, map_append, hpiece]
      apply perm_middle.trans
      apply List.Perm.cons
      exact (hperm.append_left _).trans (perm_append_comm_assoc _ _ _)
    · rw [map_cons, hpiece]
      exact sublist_append_of_sublist_right (htokens.cons_cons _)
    · rw [map_append]
      exact List.Sublist.append (List.Sublist.refl _) (hcomments.cons _)

theorem Lexed.pos_eq {prev} (h : Lexed prev p t ts cs fs) :
    ∀ x ∈ ts, ∃ u, u <+: t ∧ x.pos = p.after u := by
  induction h with
  | done hg =>
    intro x hx
    cases mem_singleton.1 hx
    exact ⟨_, prefix_rfl, rfl⟩
  | @token p g _ u =>
    rename_i ih
    intro x hx
    rcases mem_cons.1 hx with rfl | hx
    · exact ⟨g, prefix_append _ _, rfl⟩
    · obtain ⟨v, hv, hpos⟩ := ih x hx
      refine ⟨g ++ (u ++ v), ?_, hpos.trans ?_⟩
      · rwa [prefix_append_right_inj, prefix_append_right_inj]
      · rw [Position.after_append, Position.after_append]

/-- Line and column of a position are those of its offset in the text. -/
def Position.In (p : Position) (src : Text) : Prop :=
  ∃ n : Nat, n ≤ src.length ∧ p.offset = n ∧ p.line = 1 + (src.take n).count Text.newline ∧
    p.column = 1 + ((src.take n).reverse.takeWhile (· ≠ Text.newline)).length

theorem Position.in_of_prefix (h : u <+: src) : (first.after u).In src := by
  have htake := prefix_iff_eq_take.1 h
  refine ⟨u.length, h.length_le, ?_, ?_, ?_⟩
  · rw [after_offset]
    exact Int.zero_add _
  · rw [← htake, after_line]
    rfl
  · rw [← htake, after_column]

/-- The flag of each token says whether a line break stands between it and the token before it,
which ends at offset `e`. -/
def FlagsFrom (src : Text) : Nat → List Token → Prop
  | _, [] => True
  | e, t :: ts =>
    (t.newlineBefore ↔ Text.newline ∈ (src.take t.pos.offset.toNat).drop e) ∧
      FlagsFrom src (t.pos.offset.toNat + t.literal.length) ts

theorem Lexed.flags {prev} (h : Lexed prev p t ts cs fs) (before : Text)
    (hp : p = .after .first before) :
    FlagsFrom (before ++ t) before.length ts := by
  have hoffset : ∀ before g : Text, ((Position.first.after before).after g).offset.toNat =
      (before ++ g).length := by
    intro before g
    rw [← Position.after_append, Position.after_offset, show Position.first.offset = 0 from rfl]
    omega
  have hbetween : ∀ before g v : Text,
      ((before ++ (g ++ v)).take (before ++ g).length).drop before.length = g := by
    intro before g v
    rw [← append_assoc, take_left, drop_left]
  induction h generalizing before with
  | @done p g cs prev fs hg =>
    subst hp
    have := hbetween before g []
    rw [append_nil] at this
    refine ⟨?_, trivial⟩
    rw [hoffset, this, decide_eq_true_iff]
  | @token p g cs u r prev k cause ts cs' fs' fs hg hr hu hfirst _ ih =>
    subst hp
    constructor
    · rw [hoffset, hbetween, decide_eq_true_iff]
    · have hrest := ih (before ++ (g ++ u))
        (by rw [Position.after_append, Position.after_append])
      rw [hoffset]
      simpa only [append_assoc, length_append, Nat.add_assoc] using hrest

/-- The tokens of a text and its comments tile it, every token has the line and the column of its
offset, and its flag says whether a line break stands before it. -/
theorem Lexer.all_tiles {src : Text} (hlast : src.getLast? ≠ some (byte '\\'))
    (hmark : ¬ [0xEF, 0xBB] <+: src) : ∃ body stop l ps, Lexer.all src = .ok (body ++ [stop], l) ∧
      stop.kind = .eof ∧ stop.literal = [] ∧ (∀ t ∈ body, t.kind ≠ .eof) ∧
      ps.Perm (body.map Token.piece ++ l.comments.map Comment.piece) ∧
      (body.map Token.piece).Sublist ps ∧ (l.comments.map Comment.piece).Sublist ps ∧
      Tiles 0 src ps ∧
      (∀ t ∈ body ++ [stop], t.pos.In src) ∧ FlagsFrom src 0 (body ++ [stop]) := by
  have hatMark : (ofText src).atMark = false := by
    match src, hmark with
    | [], _ | [_], _ => simp [atMark, ofText, ofFragment]
    | b :: c :: src, hmark =>
      simp only [List.cons_prefix_cons, List.nil_prefix, and_true] at hmark
      simp only [atMark, ofText, ofFragment, ofText_rest, List.head?_cons, List.tail_cons,
        Option.some.injEq, Bool.and_eq_false_iff, decide_eq_false_iff_not]
      grind
  have hskips := skips (l := ofText src) (src.length + 1) false rfl (by omega) (Int.le_refl _)
    hatMark
  rcases allFrom_eq (src.length + 1) _ hskips (by omega) (Int.le_refl _) with
    ⟨_, hescape⟩ | ⟨ts, cs, fs, l, hall, hcs, _, hlexed⟩
  · exact absurd hescape hlast
  · obtain ⟨body, stop, ps, rfl, hkind, hlit, hbody, hperm, htokens, hcomments, htiles⟩ :=
      hlexed.tiles
    have hcomments' : l.comments = cs := hcs
    rw [← hcomments'] at hperm hcomments
    refine ⟨body, stop, l, ps, hall, hkind, hlit, hbody, hperm, htokens, hcomments, htiles, ?_, ?_⟩
    · intro t ht
      obtain ⟨u, hu, hpos⟩ := hlexed.pos_eq t ht
      rw [hpos]
      exact Position.in_of_prefix hu
    · exact hlexed.flags [] rfl

/-- A comment with a line break, a string with one that is escaped, and no line break at the end. -/
theorem Lexer.all_tiles_broken_lines :
    let src : Text := "a /* \n */ += 'x\\\n' // y"
    src.getLast? ≠ some (byte '\\') ∧ ¬ [0xEF, 0xBB] <+: src ∧
      ∃ body stop l ps, Lexer.all src = .ok (body ++ [stop], l) ∧
        stop.kind = .eof ∧ stop.literal = [] ∧ (∀ t ∈ body, t.kind ≠ .eof) ∧
        ps.Perm (body.map Token.piece ++ l.comments.map Comment.piece) ∧
        (body.map Token.piece).Sublist ps ∧ (l.comments.map Comment.piece).Sublist ps ∧
        Tiles 0 src ps ∧
        (∀ t ∈ body ++ [stop], t.pos.In src) ∧ FlagsFrom src 0 (body ++ [stop]) :=
  ⟨by decide, by decide, Lexer.all_tiles (by decide) (by decide)⟩

end LabelHooks
