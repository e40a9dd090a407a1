import LabelHooks.Layout.Print
import LabelHooks.Proofs.Relayout

/-!
How printed statements and bodies of arrows start. An expression statement starts with no brace,
with no `function` and with no `async function`, and the body of an arrow starts with no brace,
whatever is nested in them.
-/

namespace LabelHooks
set_option autoImplicit true

open Token (Kind)
open Lexeme (isBlank isIdentStart isIdentPart first IsLexeme Stops forall_byte)
open Layout

def Token.Occurs (k : Kind) (u : Text) : Prop :=
  ∃ (src : Text) (ts : List Token) (l : Lexer) (t : Token), Lexer.all src = .ok (ts, l) ∧
    l.faults = [] ∧ t ∈ ts ∧ t.kind = k ∧ t.literal = u

theorem Token.occurs_of_lexes (src : Text) (h : (Lexer.all src).toOption.any
    (fun x => x.2.faults.isEmpty && x.1.any fun t => t.kind = k && t.literal = u) = true) :
    Occurs k u := by
  cases hall : Lexer.all src with
  | error e =>
    rw [hall] at h
    cases h
  | ok x =>
    simp only [hall, Except.toOption, Option.any_some, Bool.and_eq_true, List.isEmpty_iff,
      List.any_eq_true, decide_eq_true_eq] at h
    obtain ⟨hfaults, t, ht, hk, hu⟩ := h
    exact ⟨src, x.1, x.2, t, hall, hfaults, ht, hk, hu⟩

theorem Lexed.isLexeme (h : Lexed prev p t ts cs fs) (hfs : fs = []) : ∀ x ∈ ts, x.kind ≠ .eof →
    ∃ prev r, Settled (x.literal ++ r) ∧ IsLexeme prev x.kind x.literal r := by
  induction h with
  | done =>
    intro x hx hk
    cases List.mem_singleton.1 hx
    exact absurd rfl hk
  | @token p g cs u r prev k cause ts cs' fs' fs _ hsettled hu hfirst _ ih =>
    simp only [List.append_eq_nil_iff] at hfs
    obtain ⟨⟨_, hcause⟩, hfs'⟩ := hfs
    intro x hx hk
    rcases List.mem_cons.1 hx with rfl | hx
    · cases cause with
      | some c => cases hcause
      | none => exact ⟨prev, r, hsettled, Lexeme.isLexeme_of_first hu hfirst⟩
    · exact ih hfs' x hx hk

theorem Token.Occurs.isLexeme (h : Occurs k u) (hk : k ≠ .eof) :
    ∃ prev r, Settled (u ++ r) ∧ IsLexeme prev k u r := by
  obtain ⟨src, ts, l, t, hall, hfaults, ht, rfl, rfl⟩ := h
  obtain ⟨p, _, cs, hlexed, _⟩ := Lexer.all_lexed hall
  exact hlexed.isLexeme hfaults t ht hk

namespace Lexeme

set_option maxRecDepth 20000 in
theorem isBlank_of_isIdentStart : ∀ b, isIdentStart b = true → isBlank b = false ∧ b ≠ byte '/' :=
  forall_byte (by decide)

theorem ofWord_eq (h : Kind.ofWord w = k) : k = .ident ∨ k ∈ Kind.keywords ∧ k.text = w := by
  unfold Kind.ofWord at h
  cases hfind : Kind.keywords.find? fun k => k.text == w with
  | none =>
    rw [hfind] at h
    exact .inl h.symm
  | some k' =>
    rw [hfind] at h
    cases h
    exact .inr ⟨List.mem_of_find?_eq_some hfind, by simpa using List.find?_some hfind⟩

theorem head_of_first (h : (first prev (b :: t)).1 = k)
    (hk : k ∈ Kind.punctuators ++ Kind.keywords) : k.text.head? = some b := by
  rw [first] at h
  split at h
  · next hb =>
    have hpart : isIdentPart b = true := by simp [isIdentPart, hb]
    rcases ofWord_eq h with rfl | ⟨_, htext⟩
    · exact absurd hk (by decide)
    · rw [htext, ident, take_run, List.takeWhile_cons_of_pos hpart]
      rfl
  · iterate 4
      split at h
      · dsimp only at h
        subst h
        exact absurd hk (by decide)
    split at h
    · next kind n hpunctuator =>
      subst h
      obtain ⟨hn, _, _, htext, _⟩ := punctuator_eq_some hpunctuator
      obtain ⟨n, rfl⟩ := Nat.exists_eq_succ_of_ne_zero hn
      rw [htext]
      rfl
    · dsimp only at h
      subst h
      exact absurd hk (by decide)

end Lexeme

namespace Lexer

theorem next_first {l l' : Lexer} (hc : l.cursor = .ofText (g ++ u) p) (hg : ∀ b ∈ g, isBlank b)
    (hu : Settled u) (hstart : l.base = p.offset → Unmarked (g ++ u)) (hbase : l.base ≤ p.offset)
    (h : l.next = .ok (t, l')) : t.kind = (first l.prev u).1 ∧ ∃ n, t.literal = u.take n := by
  rw [next, skipTrivia_blanks _ false hc hg hu (by rw [hc, ofText_rest, List.length_append]; omega)
    hstart hbase] at h
  dsimp only at h
  cases u with
  | nil =>
    rw [scan, ofText_rest] at h
    cases h
    exact ⟨rfl, 0, rfl⟩
  | cons b u =>
    rw [scan_eq rfl] at h
    simp only [failing_eq, take] at h
    split at h
    · cases h
    · cases h
      exact ⟨rfl, _, rfl⟩

end Lexer

namespace Layout.Start

def Leads (t : Text) : Prop := Settled t ∧ ∀ prev, (first prev t).1 ≠ .functionKw

/-- What comes after a first word: it does not go on with the word, and its first token is not the
keyword of functions. -/
def Follows (r : Text) : Prop :=
  Stops isIdentPart r ∧ ∃ g u, r = g ++ u ∧ (∀ b ∈ g, isBlank b) ∧ Leads u

def Fits (start : Start) (t : Text) : Prop :=
  ∀ (l l' : Lexer) (p : Position) (a : Token), l.cursor = .ofText t p → l.base ≤ p.offset →
    (l.base = p.offset → Unmarked t) → l.next = .ok (a, l') → a.kind ≠ .lbrace ∧
      (start = .statement → a.kind ≠ .functionKw ∧ (a.literal = ("async" : Text) →
        ∀ b l'', l'.next = .ok (b, l'') → b.kind ≠ .functionKw))

/-- A word of this kind: what the lexer takes for one where nothing goes on with it. -/
inductive Word : Kind → Text → Prop
  | mk : isIdentStart b → (∀ c ∈ w, isIdentPart c) → Word (.ofWord (b :: w)) (b :: w)

variable {start : Start} {b : UInt8} {k : Kind} {t u w r : Text}

theorem fits_byte (hs : Settled (b :: t)) (hbrace : b ≠ byte '\x7b')
    (hb : start = .statement → b ≠ byte 'f' ∧ b ≠ byte 'a') : start.Fits (b :: t) := by
  intro l l' p a hc hbase hstart h
  obtain ⟨hkind, n, hliteral⟩ := Lexer.next_first (g := []) hc (by simp) hs hstart hbase h
  refine ⟨fun h => ?_, fun hstatement => ⟨fun h => ?_, fun h => ?_⟩⟩
  · have := Lexeme.head_of_first (hkind.symm.trans h) (by decide)
    exact hbrace (Option.some.inj this).symm
  · have := Lexeme.head_of_first (hkind.symm.trans h) (by decide)
    exact (hb hstatement).1 (Option.some.inj this).symm
  · cases n with
    | zero => cases h.symm.trans hliteral
    | succ n => exact absurd (List.cons.inj (h.symm.trans hliteral)).1.symm (hb hstatement).2

theorem settled_word (hb : isIdentStart b = true) : Settled (b :: t) :=
  have h := Lexeme.isBlank_of_isIdentStart b hb
  ⟨h.1, fun hslash => absurd hslash h.2⟩

theorem fits_head (hw : w.head?.any (fun b => !isBlank b && b ≠ byte '/' && b ≠ byte '\x7b' &&
    (b ≠ byte 'f' && b ≠ byte 'a' || start ≠ .statement)) = true) (r : Text) :
    start.Fits (w ++ r) := by
  cases w with
  | nil => cases hw
  | cons b w =>
    simp only [List.head?_cons, Option.any_some, Bool.and_eq_true, Bool.not_eq_true',
      Bool.or_eq_true, decide_eq_true_eq] at hw
    obtain ⟨⟨⟨hblank, hslash⟩, hbrace⟩, hletter⟩ := hw
    exact fits_byte ⟨hblank, fun h => absurd h hslash⟩ hbrace fun h =>
      hletter.resolve_right (absurd h)

theorem word_of_mem (hk : k ∈ Kind.keywords) : Word k k.text := by
  have hword : ∀ k ∈ Kind.keywords, k.text.head?.any isIdentStart ∧
      k.text.tail.all isIdentPart ∧ Kind.ofWord k.text = k := by decide
  obtain ⟨hhead, htail, hkind⟩ := hword k hk
  generalize k.text = w at hhead htail hkind
  subst hkind
  cases w with
  | nil => cases hhead
  | cons b w => exact .mk hhead (List.all_eq_true.1 htail)

theorem word_async : Word .ident ("async" : Text) :=
  .mk (b := byte 'a') (w := ("sync" : Text)) (by decide)
    (List.all_eq_true.1 (by decide : ("sync" : Text).all isIdentPart = true))

theorem fits_word (hw : Word k w) (hk : k ≠ .functionKw) (hstops : start = .statement →
    Stops isIdentPart r) (hr : start = .statement → w = ("async" : Text) → Follows r) :
    start.Fits (w ++ r) := by
  obtain ⟨hb, hparts⟩ := hw
  by_cases hstart : start = .statement
  · intro l l' p a hc hbase hunmarked h
    rw [Lexer.next_of_word (g := []) hc (by simp) (settled_word hb)
      (.word hb hparts (hstops hstart)) hunmarked hbase] at h
    cases h
    refine ⟨fun h => ?_, fun _ => ⟨hk, fun hasync b l'' hb => ?_⟩⟩
    · rcases Lexeme.ofWord_eq h with h | h
      · cases h
      · exact absurd h.1 (by decide)
    · obtain ⟨_, g, u, rfl, hg, hu, hfirst⟩ := hr hstart hasync
      rw [(Lexer.next_first rfl hg hu ?_ ?_ hb).1]
      · exact hfirst _
      · intro h
        simp at h
        omega
      · simp
        omega
  · refine fits_byte (settled_word hb) ?_ fun h => absurd h hstart
    rintro rfl
    exact absurd hb (by decide)

theorem fits_keyword (hk : k ∈ Kind.keywords) (hfunction : k ≠ .functionKw)
    (hstops : start = .statement → Stops isIdentPart r) : start.Fits (k.text ++ r) := by
  refine fits_word (word_of_mem hk) hfunction hstops fun _ h => ?_
  exact absurd h (by revert k; decide)

theorem leads_head (hw : w.head?.any (fun b => !isBlank b && b ≠ byte '/' && b ≠ byte 'f') = true)
    (r : Text) : Leads (w ++ r) := by
  cases w with
  | nil => cases hw
  | cons b w =>
    simp only [List.head?_cons, Option.any_some, Bool.and_eq_true, Bool.not_eq_true',
      decide_eq_true_eq] at hw
    obtain ⟨⟨hblank, hslash⟩, hletter⟩ := hw
    exact ⟨⟨hblank, fun h => absurd h hslash⟩, fun prev h =>
      hletter (Option.some.inj (Lexeme.head_of_first h (by decide))).symm⟩

theorem follows_symbol (hw : w.head?.any (fun b => !isIdentPart b && !isBlank b && b ≠ byte '/' &&
    b ≠ byte 'f') = true) (r : Text) : Follows (w ++ r) := by
  cases w with
  | nil => cases hw
  | cons b w =>
    simp only [List.head?_cons, Option.any_some, Bool.and_assoc, Bool.and_eq_true] at hw
    refine ⟨fun c hc => ?_, [], b :: w ++ r, rfl, by simp,
      leads_head (by simpa [and_assoc] using hw.2) r⟩
    cases hc
    simpa using hw.1

theorem stops_space (u : Text) : Stops isIdentPart ((" " : Text) ++ u) := by
  intro c hc
  cases hc
  decide

theorem follows_space (hu : Leads u) : Follows ((" " : Text) ++ u) :=
  ⟨stops_space u, (" " : Text), u, rfl, fun b hb => by cases List.mem_singleton.1 hb; decide, hu⟩

theorem follows_operator (hw : Settled w) (hhead : w.head?.any (· ≠ byte 'f') = true) (r : Text) :
    Follows ((" " : Text) ++ (w ++ ((" " : Text) ++ r))) := by
  cases w with
  | nil => cases hhead
  | cons b w =>
    refine follows_space
      ⟨Settled.append (r := []) (by simpa using hw) (by simp) ?_, fun prev h => ?_⟩
    · intro c hc
      cases hc
      decide
    · have hb : b ≠ byte 'f' := by simpa using hhead
      exact hb (Option.some.inj (Lexeme.head_of_first h (by decide))).symm

theorem follows_binary (op : BinaryOp) (r : Text) :
    Follows ((" " : Text) ++ (op.text ++ ((" " : Text) ++ r))) :=
  follows_operator (by cases op <;> exact ⟨by decide, by decide⟩) (by cases op <;> decide) r

theorem follows_assign (op : AssignOp) (r : Text) :
    Follows ((" " : Text) ++ (op.text ++ ((" " : Text) ++ r))) :=
  follows_operator (by cases op <;> exact ⟨by decide, by decide⟩) (by cases op <;> decide) r

end Layout.Start

/-- The name stands for a value: an identifier, or the word before the dot of `import.meta` and of
`new.target`. -/
def Ident.isValue (i : Ident) : Prop := ∃ k ∈ [Kind.ident, .importKw, .newKw], Token.Occurs k i.name

/-- An expression whose text starts with a token: names and literals there are tokens, sequences
have a member, and nothing that stands only inside of arrays, objects and patterns comes first. -/
def Expr.opens : Expr → Prop
  | .hole | .property _ _ _ _ | .assignPattern _ _ _ | .seq _ [] => False
  | .ident i | .arrow _ _ [.ident i] _ => i.isValue
  | .literal l => Token.Occurs l.kind.token l.raw
  | .template _ (some x) _ _ | .update _ _ false x | .binary _ _ x _ | .assign _ _ x _
  | .cond _ x _ _ | .call _ x _ _ | .member _ x _ _ _ | .seq _ (x :: _) => x.opens
  | _ => True

namespace Layout.Start

variable {start : Start} {r : Text}

theorem word_of_isValue {i : Ident} (h : i.isValue) : ∃ k, k ≠ .functionKw ∧ Word k i.name := by
  obtain ⟨k, hk, hoccurs⟩ := h
  obtain ⟨prev, r, _, hlex⟩ := hoccurs.isLexeme (by rintro rfl; revert hk; decide)
  refine ⟨k, by rintro rfl; revert hk; decide, ?_⟩
  generalize i.name = w at hlex
  cases hlex with
  | word hb hparts _ => exact .mk hb hparts
  | punctuator hmem =>
    have : ∀ k ∈ [Kind.ident, .importKw, .newKw], k ∉ Kind.punctuators := by decide
    exact absurd hmem (this k hk)
  | _ => exact absurd hk (by decide)

theorem fits_ident {i : Ident} (h : i.isValue) (hr : start = .statement → Follows r) :
    start.Fits (i.name ++ r) := by
  obtain ⟨k, hk, hw⟩ := word_of_isValue h
  exact fits_word hw hk (fun h => (hr h).1) fun h _ => hr h

set_option maxRecDepth 20000 in
theorem plain_of_isDigit : ∀ b, (Text.isDigit b || b = byte '.' || b = byte '\'' || b = byte '"') →
    isBlank b = false ∧ b ≠ byte '/' ∧ b ≠ byte '\x7b' ∧ b ≠ byte 'f' ∧ b ≠ byte 'a' :=
  forall_byte (by decide)

theorem fits_literal {l : Literal} (h : Token.Occurs l.kind.token l.raw)
    (hr : start = .statement → Follows r) : start.Fits (l.raw ++ r) := by
  have htoken : ∀ k : LiteralKind, k.token ≠ .eof ∧ k.token ≠ .functionKw ∧ k.token ≠ .template ∧
      k.token ∉ Kind.punctuators := by
    intro k
    cases k <;> decide
  obtain ⟨heof, hfunction, htemplate, hpunctuator⟩ := htoken l.kind
  obtain ⟨prev, r', hsettled, hlex⟩ := h.isLexeme heof
  generalize l.raw = u, l.kind.token = k at *
  cases hlex with
  | word hb hparts _ =>
    exact fits_word (.mk hb hparts) hfunction (fun h => (hr h).1) fun h _ => hr h
  | @number b u hb _ =>
    obtain ⟨hblank, hslash, hbrace, hletter⟩ := plain_of_isDigit b (by grind)
    exact fits_byte ⟨hblank, fun h => absurd h hslash⟩ hbrace fun _ => hletter
  | @string b u hb _ =>
    obtain ⟨hblank, hslash, hbrace, hletter⟩ := plain_of_isDigit b (by grind)
    exact fits_byte ⟨hblank, fun h => absurd h hslash⟩ hbrace fun _ => hletter
  | template => exact absurd rfl htemplate
  | @regexp u w _ _ hu _ _ =>
    refine fits_byte ⟨by decide, fun _ => ?_⟩ (by decide) fun _ => by decide
    cases u with
    | nil =>
      obtain ⟨v, _, _, hlen, hv⟩ := Lexeme.regexp_closed hu
      cases List.eq_nil_of_length_eq_zero hlen
      cases hv []
    | cons c u => exact hsettled.2 rfl
  | punctuator hk => exact absurd hk hpunctuator

theorem placed_fits (hnode : start.misreads e = false → start.Fits (text start ++ r)) :
    start.Fits (placed (.usual c) least start e text ++ r) := by
  rw [placed]
  split
  · exact fits_head (w := parens _) (by rfl) r
  · next h =>
    simp only [Bool.or_eq_true, not_or, Bool.not_eq_true] at h
    exact hnode h.2

theorem leads_isValue {i : Ident} (h : i.isValue) (hr : Stops isIdentPart r) :
    Leads (i.name ++ r) := by
  obtain ⟨k, hk, hw⟩ := word_of_isValue h
  generalize i.name = w at hw ⊢
  obtain ⟨hb, hparts⟩ := hw
  exact ⟨settled_word hb, fun prev => by
    rwa [Lexeme.first_of_isLexeme (.word hb hparts hr)]⟩

theorem node_arrow (style : Style) (depth : Nat) (start : Start) (m : Mark) (isAsync : Bool)
    (params : List Expr) (body : Body) :
    ∃ t, node style depth start (.arrow m isAsync params body) =
      (if isAsync then ("async " : Text) else []) ++
        arrowParams params (texts style depth .inside params) ++ (" => " : Text) ++ t := by
  cases body <;> exact ⟨_, by rw [node]⟩

theorem arrowParams_cases (h : (Expr.arrow m isAsync params body).opens) (ts : List Text) :
    (∃ i : Ident, i.isValue ∧ arrowParams params ts = i.name) ∨
      arrowParams params ts = parens (commas ts) := by
  unfold arrowParams
  split
  · exact .inl ⟨_, h, rfl⟩
  · exact .inr rfl

theorem node_fits (c : Bool) (depth : Nat) (hstart : start ≠ .inside) (e : Expr) (he : e.opens)
    (hm : start.misreads e = false) (r : Text) (hr : start = .statement → Follows r) :
    start.Fits (node (.usual c) depth start e ++ r) := by
  cases e with
  | hole => exact he.elim
  | property => exact he.elim
  | assignPattern => exact he.elim
  | ident i =>
    simp only [node]
    exact fits_ident he hr
  | literal l =>
    simp only [node]
    exact fits_literal he hr
  | template m tag quasis es =>
    cases tag with
    | none =>
      simp only [node, List.append_assoc]
      exact fits_head (w := ("`" : Text)) (by rfl) _
    | some x =>
      simp only [node, List.append_assoc]
      exact placed_fits fun hm =>
        node_fits c depth hstart x he hm _ fun _ => follows_symbol (by rfl) _
  | this m =>
    simp only [node]
    exact fits_keyword (k := .thisKw) (by decide) (by decide) fun h => (hr h).1
  | super m =>
    simp only [node]
    exact fits_keyword (k := .superKw) (by decide) (by decide) fun h => (hr h).1
  | array m elems =>
    simp only [node, brackets, List.append_assoc]
    exact fits_head (by rfl) _
  | arrayPattern m elems =>
    simp only [node, brackets, List.append_assoc]
    exact fits_head (by rfl) _
  | object m members => cases start <;> first | exact absurd rfl hstart | cases hm
  | objectPattern m members => cases start <;> first | exact absurd rfl hstart | cases hm
  | spread m x =>
    simp only [node, List.append_assoc]
    exact fits_head (by rfl) _
  | rest m x =>
    simp only [node, List.append_assoc]
    exact fits_head (by rfl) _
  | function m f =>
    cases f with
    | mk _ name params body isAsync generator =>
      simp only [node, functionHead, List.append_assoc]
      cases start with
      | inside => exact absurd rfl hstart
      | statement => cases hm
      | arrowBody =>
        cases isAsync with
        | true => exact fits_head (by rfl) _
        | false => exact fits_head (w := ("function" : Text)) (by rfl) _
  | arrow m isAsync params body =>
    obtain ⟨t, htext⟩ := node_arrow (.usual c) depth start m isAsync params body
    simp only [htext, List.append_assoc]
    have hspace := fun u =>
      follows_operator (w := ("=>" : Text)) ⟨by decide, by decide⟩ (by decide) u
    cases isAsync with
    | false =>
      rcases arrowParams_cases he _ with ⟨i, hi, htext⟩ | htext
      · rw [htext]
        exact fits_ident hi fun _ => hspace _
      · rw [htext]
        exact fits_head (w := parens _) (by rfl) _
    | true =>
      change start.Fits (("async" : Text) ++ ((" " : Text) ++ _))
      refine fits_word word_async (by decide) (fun _ => stops_space _) fun _ _ => follows_space ?_
      rcases arrowParams_cases he _ with ⟨i, hi, htext⟩ | htext
      · rw [htext]
        exact leads_isValue hi (hspace _).1
      · rw [htext]
        exact leads_head (w := parens _) (by rfl) _
  | unary m op x =>
    simp only [node, List.append_assoc]
    cases op with
    | typeof =>
      exact fits_keyword (k := .typeofKw) (by decide) (by decide) fun _ => stops_space _
    | void => exact fits_keyword (k := .voidKw) (by decide) (by decide) fun _ => stops_space _
    | delete => exact fits_keyword (k := .deleteKw) (by decide) (by decide) fun _ => stops_space _
    | _ => exact fits_head (by rfl) _
  | update m op before x =>
    cases before with
    | true =>
      simp only [node, List.append_assoc]
      cases op <;> exact fits_head (by rfl) _
    | false =>
      simp only [node, List.append_assoc]
      refine placed_fits fun hm => node_fits c depth hstart x he hm _ fun _ => ?_
      cases op <;> exact follows_symbol (by rfl) _
  | binary m op x y =>
    simp only [node, List.append_assoc]
    split
    · exact fits_head (w := parens _) (by rfl) _
    · exact placed_fits fun hm => node_fits c depth hstart x he hm _ fun _ => follows_binary op _
  | assign m op x y =>
    simp only [node, List.append_assoc]
    exact placed_fits fun hm => node_fits c depth hstart x he hm _ fun _ => follows_assign op _
  | cond m x y z =>
    simp only [node, List.append_assoc]
    exact placed_fits fun hm => node_fits c depth hstart x he hm _ fun _ =>
      follows_operator (w := ("?" : Text)) ⟨by decide, by decide⟩ (by decide) _
  | call m x args optional =>
    simp only [node, List.append_assoc]
    refine placed_fits fun hm => node_fits c depth hstart x he hm _ fun _ => ?_
    cases optional with
    | true => exact follows_symbol (by rfl) _
    | false => exact follows_symbol (w := parens _) (by rfl) _
  | new m callee args =>
    simp only [node, List.append_assoc]
    exact fits_keyword (k := .newKw) (by decide) (by decide) fun _ => stops_space _
  | member m x prop computed optional =>
    simp only [node, List.append_assoc]
    split
    · exact fits_head (w := parens _) (by rfl) _
    · refine placed_fits fun hm => node_fits c depth hstart x he hm _ fun _ => ?_
      cases optional with
      | true => exact follows_symbol (by rfl) _
      | false =>
        cases computed with
        | true => exact follows_symbol (w := ("[" : Text)) (by rfl) _
        | false => exact follows_symbol (w := (".": Text)) (by rfl) _
  | seq m list =>
    cases list with
    | nil => exact he.elim
    | cons x xs =>
      simp only [node, texts, commas]
      cases xs with
      | nil => exact placed_fits fun hm => node_fits c depth hstart x he hm _ hr
      | cons y ys =>
        simp only [texts, Text.join, List.append_assoc]
        exact placed_fits fun hm => node_fits c depth hstart x he hm _ fun _ =>
          follows_symbol (by rfl) _
  | await m x =>
    simp only [node, List.append_assoc]
    exact fits_keyword (k := .awaitKw) (by decide) (by decide) fun _ => stops_space _
  | yield m delegate x =>
    simp only [node, List.append_assoc]
    refine fits_keyword (k := .yieldKw) (by decide) (by decide) fun h => ?_
    cases delegate with
    | true => exact (follows_symbol (w := ("*" : Text)) (by rfl) _).1
    | false =>
      cases x with
      | none =>
        simp only [optText]
        exact (hr h).1
      | some x =>
        simp only [optText, List.append_assoc]
        exact stops_space _

end Layout.Start

/-- Whatever comes after it, an expression statement starts, after its comments, with no brace, no
`function` and no `async function`, and the same expression as the body of an arrow starts with no
brace. -/
theorem Expr.starts_fit (c : Bool) (depth : Nat) (x : Expr) (hx : x.opens) (r : Text) :
    (∀ m, ∃ t, stmtText (.usual c) depth (.expr m x) = leadText (.usual c) depth (.expr m x) ++ t ∧
      Start.statement.Fits (t ++ r)) ∧
    ∀ start m isAsync params, ∃ t, node (.usual c) depth start (.arrow m isAsync params (.expr x)) =
      (if isAsync then ("async " : Text) else []) ++
        arrowParams params (texts (.usual c) depth .inside params) ++ (" => " : Text) ++ t ∧
      Start.arrowBody.Fits (t ++ r) := by
  refine ⟨fun m => ⟨_, by rw [stmtText, List.append_assoc], ?_⟩, fun start m isAsync params =>
    ⟨_, by rw [node], ?_⟩⟩
  · rw [List.append_assoc]
    split
    · exact Start.fits_head (w := parens _) (by rfl) _
    · exact Start.placed_fits fun hm => Start.node_fits c depth (by decide) x hx hm _ fun _ =>
        Start.follows_symbol (by rfl) _
  · exact Start.placed_fits fun hm =>
      Start.node_fits c depth (by decide) x hx hm _ fun h => by cases h

/-- A call of `async` with a function is not a function. -/
theorem Expr.starts_fit_async :
    let m : Mark := .ofSpan ⟨⟨1, 1, 0⟩, ⟨1, 1, 0⟩⟩
    let f : Expr := .function m (.mk m none [] (.mk m []) false false)
    let x : Expr := .call m (.ident ⟨m, "async"⟩) [f] false
    let t : Text := "async(function () \x7b\x7d);"
    x.opens ∧ stmtText (.usual false) 0 (.expr m x) = t ∧ Start.statement.Fits t := by
  intro m f x t
  have hx : x.opens := ⟨.ident, by decide, Token.occurs_of_lexes "async" (by decide +kernel)⟩
  have ht : stmtText (.usual false) 0 (.expr m x) = t := by decide +kernel
  obtain ⟨u, hprint, hfits⟩ := (starts_fit false 0 x hx []).1 m
  have hu : t = u := ht.symm.trans hprint
  rw [List.append_nil, ← hu] at hfits
  exact ⟨hx, ht, hfits⟩

end LabelHooks
