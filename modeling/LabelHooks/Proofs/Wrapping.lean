import LabelHooks.Layout.Print
import LabelHooks.Proofs.Reading
import LabelHooks.Proofs.Rejection

/-!
Parentheses around patterns. What the printer writes does not depend on what stands for an array
pattern in parentheses, so it never writes any around one. It writes none around an object pattern
either, unless an assignment to one is the body of an arrow or comes first in a sequence that is a
statement: there the pattern is wrapped, and not the assignment.
-/

namespace LabelHooks
set_option autoImplicit true

open Layout

namespace Expr

/-- A pattern that is never in parentheses by itself, nor is an object pattern if none is
`exposed`. -/
def spared (exposed : Bool) : Expr → Bool
  | .arrayPattern _ _ => true
  | .objectPattern _ _ => !exposed
  | _ => false

def leads : Expr → Bool
  | .seq _ (x :: _) => isObjectAssign x
  | e => isObjectAssign e

theorem prec_of_spared {exposed : Bool} {e : Expr} (h : e.spared exposed = true) :
    e.prec = .primary := by
  cases e <;> first | rfl | cases h

theorem leads_of_prec {e : Expr} (h : .assign < e.prec) : e.leads = false := by
  cases e with
  | assign => exact absurd h (Nat.lt_irrefl _)
  | seq => exact absurd (show Prec.assign < .sequence from h) (by decide)
  | _ => rfl

theorem not_spared_of_misreads {exposed : Bool} {start : Start} (h : start.misreads e = true)
    (he : start = .inside ∨ (e.isObject = true → exposed = true)) : e.spared exposed = false := by
  rcases he with rfl | he
  · cases h
  · cases e with
    | arrayPattern => cases start <;> cases h
    | objectPattern =>
      obtain rfl := he rfl
      rfl
    | _ => rfl

theorem not_spared_of_isPlain {exposed : Bool} {e : Expr} (h : e.isPlain = true) :
    e.spared exposed = false := by
  cases e <;> first | rfl | cases h

end Expr

namespace Part

/-- The part exposes an object pattern that is assigned to: it is a statement that is a sequence, or
an arrow, and the assignment comes first in it. -/
def exposes : Part → Bool
  | .stmt (.expr _ (.seq _ (x :: _))) | .expr (.arrow _ _ _ (.expr x)) => isObjectAssign x
  | _ => false

end Part

def Program.exposes (p : Program) : Bool := p.parts.flat.any Part.exposes

namespace Layout

structure Style.Agree (exposed : Bool) (s s' : Style) : Prop where
  comments : s.comments = s'.comments
  wrap : ∀ e : Expr, e.spared exposed = false → s.wrap e = s'.wrap e

def Style.sparing (comments : Bool) : Style :=
  ⟨comments, fun e t => if e.spared false then t else parens t⟩

theorem Style.agree_sparing (comments : Bool) : (usual comments).Agree false (sparing comments) :=
  ⟨rfl, fun e he => by simp [usual, sparing, he]⟩

def Keeps (exposed : Bool) (x : Part) : Prop := x.Aimed ∧ (x.exposes = true → exposed = true)

def Bare (exposed : Bool) (start : Start) (e : Expr) : Prop :=
  start = .inside ∨ (e.leads = true → exposed = true)

section Agree

variable {exposed : Bool} {s s' : Style} {least : Prec} {start : Start} {e : Expr} {depth : Nat}

def Same (exposed : Bool) (s s' : Style) (e : Expr) : Prop :=
  ∀ depth start, Bare exposed start e → node s depth start e = node s' depth start e

theorem Style.Agree.startLine (hs : s.Agree exposed s') (x : Stmt) :
    startLine s x = startLine s' x := by
  rw [Layout.startLine, Layout.startLine, hs.comments]

theorem Style.Agree.leadText (hs : s.Agree exposed s') (depth : Nat) (x : Stmt) :
    leadText s depth x = leadText s' depth x := by
  rw [Layout.leadText, Layout.leadText, hs.comments]

theorem placed_congr (hs : s.Agree exposed s') (hleast : least ≤ .primary)
    (hmisread : start.misreads e = true → e.spared exposed = false)
    (hinside : f .inside = f' .inside) (hstart : least ≤ e.prec → f start = f' start) :
    placed s least start e f = placed s' least start e f' := by
  simp only [placed]
  split
  · next h =>
    have hspared : e.spared exposed = false := by
      rw [Bool.or_eq_true, decide_eq_true_iff] at h
      rcases h with hprec | h
      · -- A pattern binds as tightly as any place demands.
        rw [Bool.eq_false_iff]
        intro h
        rw [Expr.prec_of_spared h] at hprec
        exact Nat.not_lt.2 hleast hprec
      · exact hmisread h
    rw [hs.wrap e hspared, hinside]
  · next h =>
    simp only [Bool.or_eq_true, decide_eq_true_iff, not_or, Nat.not_lt] at h
    exact hstart h.1

theorem Same.inside (he : Same exposed s s' e) (hs : s.Agree exposed s')
    (hleast : least ≤ .primary) :
    placed s least .inside e (fun st => node s depth st e) =
      placed s' least .inside e (fun st => node s' depth st e) :=
  placed_congr hs hleast nofun (he depth .inside (.inl rfl)) fun _ => he depth .inside (.inl rfl)

theorem Same.first (he : Same exposed s s' e) (hs : s.Agree exposed s')
    (hplain : e.isPlain = true) (hleast : least ≤ .primary) (hassign : .assign < least) :
    placed s least start e (fun st => node s depth st e) =
      placed s' least start e (fun st => node s' depth st e) := by
  refine placed_congr hs hleast (fun _ => Expr.not_spared_of_isPlain hplain)
    (he depth .inside (.inl rfl)) fun hprec => he depth start (.inr fun h => ?_)
  rw [Expr.leads_of_prec (Nat.lt_of_lt_of_le hassign hprec)] at h
  cases h

theorem Same.wrap (he : Same exposed s s' e) (hs : s.Agree exposed s')
    (hspared : e.spared exposed = false) :
    s.wrap e (node s depth .inside e) = s'.wrap e (node s' depth .inside e) := by
  rw [hs.wrap e hspared, he depth .inside (.inl rfl)]

theorem leftLeast_le (op : BinaryOp) : leftLeast op ≤ .primary := by cases op <;> decide

theorem assign_lt_leftLeast (op : BinaryOp) : .assign < leftLeast op := by cases op <;> decide

theorem rightLeast_le (op : BinaryOp) : rightLeast op ≤ .primary := by cases op <;> decide

mutual

theorem node_same (hs : s.Agree exposed s') : ∀ e : Expr, (e.parts true).All (Keeps exposed) →
    Same exposed s s' e
  | .hole, _, _, _, _ | .ident _, _, _, _, _ | .literal _, _, _, _, _ | .this _, _, _, _, _
  | .super _, _, _, _, _ | .property _ _ _ _, _, _, _, _ => rfl
  | .template _ tag _ es, h, _, _, _ => by
    obtain ⟨⟨⟨_, haimed⟩, _⟩, htag, hes⟩ := Parts.all_node₂.1 h
    cases tag with
    | none => simp only [node, templateText_same hs es hes]
    | some t =>
      have hplain : t.isPlain = true := by simpa using haimed
      simp (disch := decide) only [node, templateText_same hs es hes,
        (node_same hs t htag).first hs hplain]
  | .array _ es, h, _, _, _ | .arrayPattern _ es, h, _, _, _ => by
    simp only [Expr.parts, Parts.all_when, Parts.all_above, Expr.all_partsList] at h
    simp only [node, texts_same hs es h.2 nofun]
  | .object _ es, h, _, _, _ | .objectPattern _ es, h, _, _, _ => by
    simp only [Expr.parts, Parts.all_when, Parts.all_above, Expr.all_partsList] at h
    simp only [node, memberTexts_same hs es h.2]
  | .spread _ x, h, _, _, _ | .rest _ x, h, _, _, _ | .unary _ _ x, h, _, _, _
  | .await _ x, h, _, _, _ => by
    simp only [Expr.parts, Parts.all_when, Parts.all_above, Expr.all_parts] at h
    simp (disch := decide) only [node, (node_same hs x h.2).inside hs]
  | .function _ (.mk _ _ ps body _ _), h, _, _, _ => by
    simp only [Expr.parts, Func.parts, Parts.all_when, Parts.all_above, Parts.all_append,
      Expr.all_partsList] at h
    simp only [node, texts_same hs ps h.2.1 nofun, blockText_same hs body h.2.2]
  | .arrow _ _ ps body, h, depth, _, _ => by
    simp only [Expr.parts, Parts.all_when, Parts.all_above, Parts.all_append,
      Expr.all_partsList] at h
    obtain ⟨⟨⟨_, haimed⟩, hexposes⟩, hps, hbody⟩ := h
    cases body with
    | block b => simp only [node, texts_same hs ps hps nofun, blockText_same hs b hbody]
    | expr e =>
      have hplain : e.isPlain = true := by
        simpa [Body.isPlain] using (Bool.and_eq_true_iff.1 haimed).2
      have he := node_same hs e hbody
      have hplaced : placed s .assign .arrowBody e (fun st => node s depth st e) =
          placed s' .assign .arrowBody e (fun st => node s' depth st e) := by
        refine placed_congr hs (by decide) (fun _ => Expr.not_spared_of_isPlain hplain)
          (he depth .inside (.inl rfl)) fun hprec => he depth .arrowBody (.inr fun hleads => ?_)
        cases e with
        | seq => exact absurd (show Prec.assign ≤ .sequence from hprec) (by decide)
        | _ => exact hexposes hleads
      simp only [node, texts_same hs ps hps nofun, hplaced]
  | .update _ _ before x, h, _, _, _ => by
    simp only [Expr.parts, Parts.all_when, Parts.all_above, Expr.all_parts] at h
    obtain ⟨⟨⟨hform, _⟩, _⟩, hx⟩ := h
    have hplain : x.isPlain = true := by cases x <;> first | rfl | cases hform
    have hx := node_same hs x hx
    cases before with
    | true => simp (disch := decide) only [node, hx.inside hs]
    | false => simp (disch := decide) only [node, hx.first hs hplain]
  | .binary _ op x y, h, _, _, _ => by
    obtain ⟨⟨⟨_, haimed⟩, _⟩, hx, hy⟩ := Parts.all_node₂.1 h
    have hplain : x.isPlain = true := by simpa using haimed
    have hx := node_same hs x hx
    have hy := node_same hs y hy
    rw [node, node, hx.first hs hplain (leftLeast_le op) (assign_lt_leftLeast op),
      hx.wrap hs (Expr.not_spared_of_isPlain hplain), hy.inside hs (rightLeast_le op)]
    by_cases hmixes : mixesNullish op y = true
    · rw [if_pos hmixes, if_pos hmixes, hy.wrap hs (by cases y <;> first | rfl | cases hmixes)]
    · rw [if_neg hmixes, if_neg hmixes]
  | .assign _ _ x y, h, depth, start, hbare => by
    simp only [Expr.parts, Parts.all_when, Parts.all_above, Parts.all_append, Expr.all_parts] at h
    have hx := node_same hs x h.2.1
    have hplaced : placed s .call start x (fun st => node s depth st x) =
        placed s' .call start x (fun st => node s' depth st x) := by
      refine placed_congr hs (by decide) (fun h => Expr.not_spared_of_misreads h hbare)
        (hx depth .inside (.inl rfl)) fun hprec => hx depth start (.inr fun h => ?_)
      rw [Expr.leads_of_prec (Nat.lt_of_lt_of_le (by decide) hprec)] at h
      cases h
    simp (disch := decide) only [node, hplaced, (node_same hs y h.2.2).inside hs]
  | .assignPattern _ x y, h, _, _, _ => by
    simp only [Expr.parts, Parts.all_above, Parts.all_append, Expr.all_parts] at h
    simp (disch := decide) only [node, (node_same hs x h.2.1).inside hs,
      (node_same hs y h.2.2).inside hs]
  | .cond _ x y z, h, _, _, _ => by
    simp only [Expr.parts, Parts.all_when, Parts.all_above, Parts.all_append] at h
    obtain ⟨⟨⟨_, haimed⟩, _⟩, ⟨hx, hy⟩, hz⟩ := h
    have hplain : x.isPlain = true := by simpa using haimed
    simp (disch := decide) only [node, (node_same hs x hx).first hs hplain,
      (node_same hs y hy).inside hs, (node_same hs z hz).inside hs]
  | .call _ x es _, h, _, _, _ => by
    obtain ⟨⟨⟨_, haimed⟩, _⟩, hx, hes⟩ := Parts.all_node₂.1 h
    have hplain : x.isPlain = true := by simpa using haimed
    simp (disch := decide) only [node, (node_same hs x hx).first hs hplain,
      texts_same hs es hes nofun]
  | .new _ x es, h, _, _, _ => by
    have h := Parts.all_node₂.1 h
    have hx := node_same hs x h.2.1
    simp (disch := decide) only [node, hx.inside hs, texts_same hs es h.2.2 nofun]
    split
    · next hcall => rw [hx.wrap hs (by cases x <;> first | rfl | cases hcall)]
    · rfl
  | .member _ x prop computed _, h, _, _, _ => by
    obtain ⟨⟨⟨_, haimed⟩, _⟩, hx, hprop⟩ := Parts.all_node₂.1 h
    have hplain : x.isPlain = true :=
      (Bool.and_eq_true_iff.1 (Bool.and_eq_true_iff.1 haimed).2).1
    have hx := node_same hs x hx
    simp (disch := decide) only [node, hx.first hs hplain,
      (node_same hs prop (Parts.all_when.1 hprop)).inside hs,
      hx.wrap hs (Expr.not_spared_of_isPlain hplain)]
  | .seq _ es, h, depth, start, hbare => by
    have h := Parts.all_above.1 h
    have hplain : ∀ e ∈ es, e.isPlain = true := by simpa using h.1.1.2
    rw [node, node, texts_same hs es h.2]
    intro hstart e he
    refine ⟨hplain e (List.mem_of_mem_head? he), fun hassign => ?_⟩
    cases es with
    | nil => cases he
    | cons x es =>
      cases he
      exact hbare.resolve_left hstart hassign
  | .yield _ _ x, h, _, _, _ => by
    have h := Parts.all_above.1 h
    rw [node, node, optText_same hs x h.2 (by decide)]

theorem optText_same (hs : s.Agree exposed s') : ∀ x : Option Expr,
    (Expr.parts? true x).All (Keeps exposed) → ∀ {depth lead least}, least ≤ Prec.primary →
    optText s depth lead least x = optText s' depth lead least x
  | none, _, _, _, _, _ => rfl
  | some e, h, _, _, _, hleast => by
    rw [optText, optText, (node_same hs e h).inside hs hleast]

theorem texts_same (hs : s.Agree exposed s') : ∀ es : List Expr,
    (Expr.partsList true es).All (Keeps exposed) → ∀ {depth start},
    (start ≠ .inside → ∀ e ∈ es.head?, e.isPlain = true ∧
      (isObjectAssign e = true → exposed = true)) →
    texts s depth start es = texts s' depth start es
  | [], _, _, _, _ => rfl
  | e :: es, h, depth, start, hfirst => by
    have h := Parts.all_append.1 h
    have he := node_same hs e h.1
    have hplaced : placed s .assign start e (fun st => node s depth st e) =
        placed s' .assign start e (fun st => node s' depth st e) := by
      by_cases hstart : start = .inside
      · subst hstart
        exact he.inside hs (by decide)
      · obtain ⟨hplain, hassign⟩ := hfirst hstart e rfl
        refine placed_congr hs (by decide) (fun _ => Expr.not_spared_of_isPlain hplain)
          (he depth .inside (.inl rfl)) fun hprec => he depth start (.inr fun hleads => ?_)
        cases e with
        | seq => exact absurd (show Prec.assign ≤ .sequence from hprec) (by decide)
        | _ => exact hassign hleads
    rw [texts, texts, hplaced, texts_same hs es h.2 nofun]

theorem memberTexts_same (hs : s.Agree exposed s') : ∀ es : List Expr,
    (Expr.partsList true es).All (Keeps exposed) → ∀ {depth},
    memberTexts s depth es = memberTexts s' depth es
  | [], _, _ => rfl
  | e :: es, h, depth => by
    have h := Parts.all_append.1 h
    have hes : memberTexts s depth es = memberTexts s' depth es := memberTexts_same hs es h.2
    have he := node_same hs e h.1
    cases e with
    | property _ shape key value =>
      simp only [Expr.parts, Parts.all_when, Parts.all_above, Parts.all_append] at h
      obtain ⟨⟨_, hkey, hvalue⟩, _⟩ := h
      have hkey : placed s (if shape.computed then .assign else .primary) .inside key
          (fun st => node s depth st key) =
          placed s' (if shape.computed then .assign else .primary) .inside key
            (fun st => node s' depth st key) :=
        (node_same hs key hkey).inside hs (by split <;> decide)
      unfold memberTexts
      rw [hes, (node_same hs value hvalue).inside hs (by decide), hkey]
      cases value with
      | function _ f =>
        obtain ⟨_, _, ps, body, _, _⟩ := f
        simp only [Expr.parts, Func.parts, Parts.all_when, Parts.all_above, Parts.all_append,
          Expr.all_partsList] at hvalue
        simp only [texts_same hs ps hvalue.2.1 nofun, blockText_same hs body hvalue.2.2]
      | _ => rfl
    | _ => simp (disch := decide) only [memberTexts, he.inside hs, hes]

theorem templateText_same (hs : s.Agree exposed s') : ∀ es : List Expr,
    (Expr.partsList true es).All (Keeps exposed) → ∀ {depth quasis},
    templateText s depth quasis es = templateText s' depth quasis es
  | [], _, _, _ => rfl
  | e :: es, h, depth, quasis => by
    have h := Parts.all_append.1 h
    cases quasis with
    | nil => rfl
    | cons q qs =>
      simp (disch := decide) only [templateText, (node_same hs e h.1).inside hs,
        templateText_same hs es h.2]

theorem declTexts_same (hs : s.Agree exposed s') : ∀ ds : List Declarator,
    (Declarator.partsList ds).All (Keeps exposed) → ∀ {depth},
    declTexts s depth ds = declTexts s' depth ds
  | [], _, _ => rfl
  | .mk _ target init :: ds, h, depth => by
    simp only [Declarator.partsList, Parts.all_append, Expr.all_parts] at h
    rw [declTexts, declTexts, (node_same hs target h.1.1).inside hs (by decide),
      optText_same hs init h.1.2 (by decide), declTexts_same hs ds h.2]

theorem headText_same (hs : s.Agree exposed s') : ∀ x : ForHead,
    (x.parts true).All (Keeps exposed) → ∀ {depth least}, least ≤ Prec.primary →
    headText s depth least x = headText s' depth least x
  | .decl (.mk _ _ ds), h, _, _, _ => by rw [headText, headText, declTexts_same hs ds h]
  | .expr e, h, _, _, hleast => by rw [headText, headText, (node_same hs e h).inside hs hleast]

theorem blockText_same (hs : s.Agree exposed s') : ∀ b : Block, b.parts.All (Keeps exposed) →
    ∀ {depth}, blockText s depth b = blockText s' depth b
  | .mk _ list, h, _ => by rw [blockText, blockText, stmtLines_same hs list h]

theorem catchText_same (hs : s.Agree exposed s') : ∀ c : Catch,
    (Catch.parts? (some c)).All (Keeps exposed) → ∀ {depth},
    catchText s depth c = catchText s' depth c
  | .mk _ param body, h, _ => by
    simp only [Catch.parts?, Parts.all_append, Expr.all_parts?] at h
    cases param with
    | none => simp only [catchText, blockText_same hs body h.2]
    | some e =>
      simp (disch := decide) only [catchText, blockText_same hs body h.2,
        (node_same hs e h.1).inside hs]

theorem caseLines_same (hs : s.Agree exposed s') : ∀ cs : List Case,
    (Case.partsList cs).All (Keeps exposed) → ∀ {depth},
    caseLines s depth cs = caseLines s' depth cs
  | [], _, _ => rfl
  | .mk _ test body :: cs, h, depth => by
    simp only [Case.partsList, Parts.all_append] at h
    cases test with
    | none => rw [caseLines, caseLines, stmtLines_same hs body h.1.2, caseLines_same hs cs h.2]
    | some e =>
      rw [caseLines, caseLines, (node_same hs e h.1.1).inside hs (by decide),
        stmtLines_same hs body h.1.2, caseLines_same hs cs h.2]

theorem stmtText_same (hs : s.Agree exposed s') : ∀ x : Stmt, x.parts.All (Keeps exposed) →
    ∀ {depth}, stmtText s depth x = stmtText s' depth x
  | .varDecl (.mk _ _ ds), h, _ => by
    simp only [Stmt.parts, VarDecl.parts, Parts.all_above] at h
    rw [stmtText, stmtText, hs.leadText, declTexts_same hs ds h.2]
  | .funcDecl _ (.mk _ _ ps body _ _), h, _ => by
    simp only [Stmt.parts, Func.parts, Parts.all_above, Parts.all_append, Expr.all_partsList] at h
    rw [stmtText, stmtText, hs.leadText, texts_same hs ps h.2.1 nofun, blockText_same hs body h.2.2]
  | .expr _ x, h, depth => by
    have h := Parts.all_above.1 h
    obtain ⟨⟨⟨_, haimed⟩, hexposes⟩, hx⟩ := h
    have hplain : x.isPlain = true := by simpa using haimed
    have hx := node_same hs x hx
    rw [stmtText, stmtText, hs.leadText, hx.wrap hs (Expr.not_spared_of_isPlain hplain)]
    split
    · rfl
    · next hassign =>
      refine congrArg (_ ++ · ++ _) (placed_congr hs (by decide)
        (fun _ => Expr.not_spared_of_isPlain hplain) (hx depth .inside (.inl rfl))
        fun _ => hx depth .statement (.inr fun hleads => ?_))
      cases x with
      | seq _ es =>
        cases es with
        | nil => cases hleads
        | cons => exact hexposes hleads
      | _ => exact absurd hleads hassign
  | .block b, h, _ => by
    have h := Parts.all_above.1 h
    rw [stmtText, stmtText, hs.leadText, blockText_same hs b h.2]
  | .labeled _ _ body, h, _ | .exportDecl _ _ body, h, _ => by
    have h := Parts.all_above.1 h
    rw [stmtText, stmtText, hs.leadText, stmtText_same hs body h.2]
  | .ret _ x, h, _ => by
    have h := Parts.all_above.1 h
    rw [stmtText, stmtText, hs.leadText, optText_same hs x h.2 (by decide)]
  | .ifElse _ test yes no, h, _ => by
    simp only [Stmt.parts, Parts.all_above, Parts.all_append] at h
    have htest := node_same hs test h.2.1.1
    cases no with
    | none =>
      rw [stmtText, stmtText, hs.leadText, htest.inside hs (by decide),
        stmtText_same hs yes h.2.1.2]
    | some no =>
      rw [stmtText, stmtText, hs.leadText, htest.inside hs (by decide),
        stmtText_same hs yes h.2.1.2, stmtText_same hs no h.2.2]
  | .forLoop _ init test post body, h, _ => by
    simp only [Stmt.parts, Parts.all_above, Parts.all_append] at h
    obtain ⟨_, ⟨⟨hinit, htest⟩, hpost⟩, hbody⟩ := h
    cases init with
    | none =>
      rw [stmtText, stmtText, hs.leadText, optText_same hs test htest (by decide),
        optText_same hs post hpost (by decide), stmtText_same hs body hbody]
    | some x =>
      rw [stmtText, stmtText, hs.leadText, headText_same hs x hinit (by decide),
        optText_same hs test htest (by decide), optText_same hs post hpost (by decide),
        stmtText_same hs body hbody]
  | .forIn _ left right body isOf _, h, _ => by
    simp only [Stmt.parts, Parts.all_above, Parts.all_append, ForHead.all_parts] at h
    obtain ⟨_, ⟨hleft, hright⟩, hbody⟩ := h
    rw [stmtText, stmtText, hs.leadText, stmtText_same hs body hbody,
      headText_same hs left hleft (by decide),
      (node_same hs right hright).inside hs (by split <;> decide)]
  | .whileLoop _ test body, h, _ => by
    have h := Parts.all_node₂.1 h
    rw [stmtText, stmtText, hs.leadText, (node_same hs test h.2.1).inside hs (by decide),
      stmtText_same hs body h.2.2]
  | .doWhile _ body test, h, _ => by
    have h := Parts.all_node₂.1 h
    rw [stmtText, stmtText, hs.leadText, (node_same hs test h.2.2).inside hs (by decide),
      stmtText_same hs body h.2.1]
  | .throw _ x, h, _ => by
    have h := Parts.all_above.1 h
    rw [stmtText, stmtText, hs.leadText, (node_same hs x h.2).inside hs (by decide)]
  | .tryCatch _ block handler finalizer, h, _ => by
    simp only [Stmt.parts, Parts.all_above, Parts.all_append] at h
    obtain ⟨_, ⟨hblock, hhandler⟩, hfinalizer⟩ := h
    cases handler with
    | none =>
      cases finalizer with
      | none => rw [stmtText, stmtText, hs.leadText, blockText_same hs block hblock]
      | some b =>
        rw [stmtText, stmtText, hs.leadText, blockText_same hs block hblock,
          blockText_same hs b hfinalizer]
    | some c =>
      cases finalizer with
      | none =>
        rw [stmtText, stmtText, hs.leadText, blockText_same hs block hblock,
          catchText_same hs c hhandler]
      | some b =>
        rw [stmtText, stmtText, hs.leadText, blockText_same hs block hblock,
          catchText_same hs c hhandler, blockText_same hs b hfinalizer]
  | .switch _ disc cases, h, _ => by
    have h := Parts.all_node₂.1 h
    rw [stmtText, stmtText, hs.leadText, (node_same hs disc h.2.1).inside hs (by decide),
      caseLines_same hs cases h.2.2]
  | .exportValue _ x, h, depth => by
    have h := Parts.all_above.1 h
    have hx := node_same hs x h.2
    rw [stmtText, stmtText, hs.leadText, hx.inside hs (by decide), hx depth .inside (.inl rfl)]
  | .branch _ _ label, _, _ => by cases label <;> simp only [stmtText, hs.leadText]
  | .empty _, _, _ | .debugger _, _, _ | .imports _ _ _, _, _ | .exportAll _ _ _, _, _
  | .exportNames _ _ _, _, _ => by rw [stmtText, stmtText, hs.leadText]

theorem stmtLines_same (hs : s.Agree exposed s') : ∀ xs : List Stmt,
    (Stmt.partsList xs).All (Keeps exposed) → ∀ {depth line},
    stmtLines s depth line xs = stmtLines s' depth line xs
  | [], _, _, _ => rfl
  | x :: xs, h, depth, line => by
    have h := Parts.all_append.1 h
    rw [stmtLines, stmtLines, hs.startLine, stmtText_same hs x h.1, stmtLines_same hs xs h.2]

end

end Agree
end Layout

namespace Program

variable {src : Text} {p : Program} {s s' : Layout.Style}

/-- What a program that was read is printed as does not depend on what stands for an array pattern
in parentheses, nor for an object pattern unless the program exposes one. -/
theorem print_eq_of_agree (h : parse src = .ok p) (hs : s.Agree p.exposes s') :
    p.print s = p.print s' := by
  have hkeeps : p.parts.All (Keeps p.exposes) := by
    intro x hx
    have hsound := (between_of_parse h).sound x hx
    exact ⟨⟨hsound.wellFormed, hsound.wellAimed⟩, fun he => List.any_eq_true.2 ⟨x, hx, he⟩⟩
  rw [print, print, stmtLines_same hs p.body hkeeps]

/-- An assignment to an object pattern as a statement, and patterns inside patterns and
parameters. -/
theorem print_eq_of_agree_nested :
    let src : Text := "(\x7b a, b: [c] \x7d = d); [e, \x7b f \x7d] = (\x7b g \x7d) => [h] = g;"
    ∃ p, parse src = .ok p ∧ p.exposes = false ∧
      p.format =
        ("(\x7b a, b: [c] \x7d = d);\n[e, \x7b f \x7d] = (\x7b g \x7d) => [h] = g;\n" : Text) ∧
      p.print (.usual true) = p.print (.sparing true) := by
  intro src
  obtain ⟨p, hp, hprint⟩ := src.exists_of_reads (fun p => decide ((p.exposes, p.format) = (false,
    ("(\x7b a, b: [c] \x7d = d);\n[e, \x7b f \x7d] = (\x7b g \x7d) => [h] = g;\n" : Text))))
    (by decide +kernel)
  obtain ⟨hexposes, hformat⟩ := Prod.mk.inj (of_decide_eq_true hprint)
  refine ⟨p, hp, hexposes, hformat, print_eq_of_agree hp ?_⟩
  rw [hexposes]
  exact Layout.Style.agree_sparing true

/-- The pattern is in parentheses, and not the assignment that is the body of the arrow. -/
theorem print_wraps_pattern :
    ∃ p, parse ("x => (\x7b a \x7d = b);" : Text) = .ok p ∧ p.exposes = true ∧
      p.format = ("x => (\x7b a \x7d) = b;\n" : Text) ∧
      p.print (.sparing true) = ("x => \x7b a \x7d = b;\n" : Text) := by
  obtain ⟨p, hp, hprint⟩ := Text.exists_of_reads "x => (\x7b a \x7d = b);"
    (fun p => decide ((p.exposes, p.format, p.print (.sparing true)) = (true,
      ("x => (\x7b a \x7d) = b;\n" : Text), ("x => \x7b a \x7d = b;\n" : Text))))
    (by decide +kernel)
  obtain ⟨hexposes, hprint⟩ := Prod.mk.inj (of_decide_eq_true hprint)
  exact ⟨p, hp, hexposes, Prod.mk.inj hprint⟩

/-- No parentheses keep an `in` apart from the head of a loop, and what is printed cannot be
read. -/
theorem format_drops_parens :
    ∃ p, parse ("for ((a in b);;) \x7b\x7d" : Text) = .ok p ∧
      p.format = ("for (a in b;;) \x7b\x7d\n" : Text) ∧ ∀ q, parse p.format ≠ .ok q := by
  obtain ⟨p, hp, hprint⟩ := Text.exists_of_reads "for ((a in b);;) \x7b\x7d"
    (fun p => decide (p.format = ("for (a in b;;) \x7b\x7d\n" : Text))) (by decide +kernel)
  have hformat := of_decide_eq_true hprint
  refine ⟨p, hp, hformat, fun q hq => ?_⟩
  rw [hformat] at hq
  have hreads : Text.reads ("for (a in b;;) \x7b\x7d\n" : Text) (fun _ => true) = false := by
    decide +kernel
  rw [Text.reads, hq] at hreads
  cases hreads

/-- A token ends on the line where it starts, also where it has a line break in it: no line is empty
in the source. -/
theorem format_adds_line :
    ∃ p, parse ("a = \x60x\ny\x60\nb" : Text) = .ok p ∧
      p.format = ("a = \x60x\ny\x60;\n\nb;\n" : Text) := by
  obtain ⟨p, hp, hprint⟩ := Text.exists_of_reads "a = \x60x\ny\x60\nb"
    (fun p => decide (p.format = ("a = \x60x\ny\x60;\n\nb;\n" : Text))) (by decide +kernel)
  exact ⟨p, hp, of_decide_eq_true hprint⟩

end Program
end LabelHooks
