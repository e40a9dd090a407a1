import LabelHooks.Proofs.Laid
import LabelHooks.Proofs.Reads

/-!
What patterns, functions and expressions are read as, one lemma for each rule: the result is of a
form that its place allows, and is laid out from the first token to the end of the last one.
-/

namespace LabelHooks
set_option autoImplicit true
attribute [local simp] Expr.outline Expr.parts Expr.attached Expr.attached? Expr.attachedList
  Stmt.outline Stmt.parts Stmt.attached Part.literals

open Token (Kind)
open Place (Leads Passed)
open Outline (ofIdent ofLiteral)

structure Ident.Read (src : Text) (p : Place) (i : Ident) (q : Place) : Prop where
  start : i.mark.span.start = p.token.pos
  passed : Passed p q
  laid : Between src p.head q.tail [ofIdent i] [] []

structure Expr.Read (src : Text) (p : Place) (e : Expr) (q : Place) : Prop where
  plain : e.isPlain = true
  laid : e.Laid src p.head q.tail

structure Expr.Bound (src : Text) (p : Place) (e : Expr) (q : Place) : Prop where
  binding : e.isBinding = true
  binds : e.binds = true
  laid : e.Laid src p.head q.tail

structure Expr.Element (src : Text) (p : Place) (e : Expr) (q : Place) : Prop where
  value : e.isValue = true
  binds : e.binds = true
  laid : e.Laid src p.head q.tail

/-- Expressions of a form between what was passed before `p` and the last token before `q`. -/
structure Expr.Row (form : Expr → Bool) (src : Text) (p : Place) (es : List Expr) (q : Place) :
    Prop where
  form : ∀ e ∈ es, form e = true
  laid : Expr.LaidAll src p.tail q.tail es

structure Expr.RestRow (form : Expr → Bool) (src : Text) (p : Place) (es : List Expr)
    (q : Place) : Prop where
  bound : ∀ e ∈ es, form e = true ∨ (e.isRest = true ∧ e.binds = true)
  form : Expr.restLast form es = true
  laid : Expr.LaidAll src p.tail q.tail es

def Stmt.Row (src : Text) (p : Place) (ss : List Stmt) (q : Place) : Prop :=
  ss = [] ∨ Stmt.LaidAll src p.head q.tail ss

abbrev Stmt.Read (src : Text) (p : Place) (s : Stmt) (q : Place) : Prop :=
  s.Stands src p.head q.tail

structure Func.Read (src : Text) (a : Point) (f : Func) (q : Place) : Prop where
  wellFormed : f.wellFormed = true
  binds : f.params.all Expr.binds = true
  laid : f.Laid src a q.tail

variable {src : Text} {hi : Int} {p q r : Place}

theorem Expr.Read.value {e : Expr} (h : e.Read src p q) : e.isValue = true :=
  Expr.isValue_of_isPlain h.plain

theorem Token.Stands.leaf (hp : p.token.Stands src hi) (h : Passed p q)
    (hspan : n.mark.span = ⟨p.token.pos, q.prevEnd⟩)
    (hname : n.kind = .ident → n.name = p.token.literal) :
    Between src p.head q.tail [Outline.leaf n] [] [] := by
  obtain ⟨u, v, hsrc, hu⟩ := hp.start h.kind
  have hstart : n.start = p.token.pos.offset := by rw [Node.start, hspan]
  have hstop : n.stop = q.prevEnd.offset := by rw [Node.stop, hspan]
  apply (Between.nil h.le).leaf hstart.symm _ (by rw [hstart, hstop]; exact h.le.1)
    (Int.le_of_eq hstop)
  intro hident
  rw [hname hident, hspan, hstart, hstop, h.stop]
  exact ⟨fun hnil => h.kind (hp.ended.2 hnil), u, v, hsrc, hu, .inl rfl⟩

theorem Token.Stands.literal (hp : p.token.Stands src hi) (h : Passed p q) (kind : LiteralKind) :
    let l : Literal := ⟨.ofSpan ⟨p.token.pos, q.prevEnd⟩, kind, p.token.literal⟩
    l.Spelled src ∧ Between src p.head q.tail [ofLiteral l] [] [] := by
  obtain ⟨_, u, v, hsrc, hu⟩ := hp.placed h.kind
  refine ⟨⟨u, v, hsrc, hu.offset, ?_⟩, hp.leaf h rfl fun hident => nomatch hident⟩
  change q.prevEnd.offset = _
  rw [h.stop, ← hu.offset]
  rfl

theorem Ident.ne_nil_of_laid {i : Ident} {lo hi : Point} (h : Between src lo hi [ofIdent i] [] []) :
    i.name ≠ [] :=
  (h.named (.ofIdent i) (by simp [ofIdent]) rfl).1

theorem Ident.laid_expr {i : Ident} {lo hi : Point} (h : Between src lo hi [ofIdent i] [] []) :
    (Expr.ident i).Laid src lo hi := by
  have hsound : Part.Sound src (.expr (.ident i)) := by
    refine ⟨?_, by simp, rfl⟩
    simpa [Part.wellFormed, Expr.wellFormed] using Ident.ne_nil_of_laid h
  simpa [Expr.Laid] using h.part hsound

theorem Ident.Read.expr (h : i.Read src p q) : (Expr.ident i).Read src p q :=
  ⟨rfl, Ident.laid_expr h.laid⟩

theorem Ident.Read.copy (h : i.Read src p q) :
    Between src p.head q.tail [ofIdent (Parse.copyIdent i)] [] [] :=
  h.laid.congr rfl (by simp)

theorem Ident.Read.before (h : i.Read src p q) (hos : Between src p.head b os ps as)
    (hle : q.tail ≤ b) : Between src p.head b (ofIdent i :: os) ps as := by
  have hmem : Node.ofIdent i ∈ Outline.nodes [ofIdent i] := by simp [ofIdent]
  have hbounds := h.laid.bounds _ hmem
  have hstart : (Node.ofIdent i).start = p.token.pos.offset := congrArg Position.offset h.start
  exact hos.leaf hstart.symm (h.laid.named _ hmem) hbounds.2.1 (Int.le_trans hbounds.2.2 hle.1)

theorem Token.Stands.ident_read (hp : p.token.Stands src hi) (h : Passed p q) :
    Ident.Read src p ⟨.ofSpan ⟨p.token.pos, q.prevEnd⟩, p.token.literal⟩ q :=
  ⟨rfl, h, hp.leaf h rfl fun _ => rfl⟩

theorem Token.Stands.literal_read (hp : p.token.Stands src hi) (h : Passed p q)
    (kind : LiteralKind) :
    (Expr.literal ⟨.ofSpan ⟨p.token.pos, q.prevEnd⟩, kind, p.token.literal⟩).Read src p q := by
  obtain ⟨hspelled, hlaid⟩ := hp.literal h kind
  refine ⟨rfl, ?_⟩
  simpa [Expr.Laid] using
    hlaid.part (x := .expr (.literal _)) ⟨rfl, by simpa using hspelled, rfl⟩

theorem Token.Stands.new_laid (hp : p.token.Stands src hi) (hk : p.token.kind = .newKw) :
    (Expr.ident ⟨.ofSpan (.point p.token.pos), "new"⟩).Laid src p.head p.head := by
  obtain ⟨u, v, hsrc, hu⟩ := hp.start (by rw [hk]; decide)
  rw [hp.reserved (by rw [hk]; decide), hk] at hsrc
  apply Ident.laid_expr
  refine (Between.nil le_rfl).leaf (n := .ofIdent ⟨.ofSpan (.point p.token.pos), "new"⟩) rfl ?_
    (Int.le_refl _) (Int.le_refl _)
  intro _
  exact ⟨show ("new" : Text) ≠ [] by decide, u, v, hsrc, hu, .inr ⟨rfl, rfl⟩⟩

namespace Expr.Row

variable {form : Expr → Bool} {es : List Expr} {e : Expr}

theorem nil : Expr.Row form src p [] p :=
  ⟨by simp, Between.nil le_rfl⟩

theorem mono (h : Expr.Row form src p es q) (hqr : Leads src hi q r) : Expr.Row form src p es r :=
  ⟨h.form, h.laid.mono le_rfl hqr.prev⟩

theorem concat (h : Expr.Row form src p es q) (he : form e = true)
    (hlaid : e.Laid src q'.head r.tail) (hqq : Leads src hi q q') :
    Expr.Row form src p (es ++ [e]) r :=
  ⟨List.forall_mem_append.2 ⟨h.form, List.forall_mem_singleton.2 he⟩, h.laid.concat hlaid hqq.gap⟩

theorem last (h : Expr.Row form src p es q) : Expr.RestRow form src p es q :=
  ⟨fun e he => .inl (h.form e he), Expr.restLast_of_all h.form, h.laid⟩

theorem concatRest (h : Expr.Row form src p es q) (he : e.isRest = true) (hbinds : e.binds = true)
    (hlaid : e.Laid src q'.head r.tail) (hqq : Leads src hi q q') :
    Expr.RestRow form src p (es ++ [e]) r := by
  refine ⟨?_, Expr.restLast_concat h.form (.inr he), h.laid.concat hlaid hqq.gap⟩
  rw [List.forall_mem_append, List.forall_mem_singleton]
  exact ⟨fun e he => .inl (h.form e he), .inr ⟨he, hbinds⟩⟩

end Expr.Row

namespace Expr.RestRow

variable {form : Expr → Bool} {es : List Expr}

theorem binds (h : Expr.RestRow (fun e => form e && e.binds) src p es q) :
    Expr.restLast form es = true ∧ es.all Expr.binds = true := by
  refine ⟨Expr.restLast_mono (fun e he => (Bool.and_eq_true_iff.1 he).1) h.form, ?_⟩
  rw [List.all_eq_true]
  intro e he
  rcases h.bound e he with h | h
  · exact (Bool.and_eq_true_iff.1 h).2
  · exact h.2

end Expr.RestRow

theorem Stmt.Row.laid (h : Stmt.Row src p ss q) (hlo : a ≤ p.head) (hle : a ≤ b)
    (hhi : q.tail ≤ b) : Stmt.LaidAll src a b ss := by
  rcases h with rfl | h
  · exact Between.nil hle
  · exact h.mono hlo hhi

namespace Parse

structure Rules.Lay (src : Text) (r : Rules) : Prop where
  expression : ∀ hi, Reads src hi r.expression (Expr.Read src)
  assign : ∀ hi, Reads src hi r.assign (Expr.Read src)
  unary : ∀ hi, Reads src hi r.unary (Expr.Read src)
  binary : ∀ least hi, Reads src hi (r.binary least) (Expr.Read src)
  newExpr : ∀ hi, Reads src hi r.newExpr fun p e q => p.token.kind = .newKw → e.Read src p q
  bindingTarget : ∀ hi, Reads src hi r.bindingTarget (Expr.Bound src)
  statement : ∀ hi, Reads src hi r.statement (Stmt.Read src)

namespace Reads

variable {rs : Rules}

section Patterns

theorem identAt {t : Token} (h : t.kind ≠ .eof) (g : Ident → α) :
    Reads src hi (do
      Parse.advance
      return g ⟨← Parse.markFrom t.pos, t.literal⟩) fun p a q => p.token = t →
        ∃ i : Ident, a = g i ∧ i.Read src p q := by
  apply bind advance
  intro _
  apply marked
  rintro q _ p hpq hpassed rfl
  exact ⟨_, rfl, hpq.source.token.ident_read (hpassed h)⟩

theorem ident : Reads src hi Parse.ident fun p i q => p.token.kind = .ident ∧ i.Read src p q := by
  apply token
  intro t
  apply ite
  · intro hk
    refine (identAt (by rw [hk]; decide) id).imp ?_
    rintro p _ q _ hx rfl
    obtain ⟨i, rfl, hi⟩ := hx rfl
    exact ⟨hk, hi⟩
  · intro _
    apply failing (failExpecting _)
    exact pure fun _ _ => trivial

theorem kind_ne_eof_of_isName {t : Token} (h : t.isName = true) : t.kind ≠ .eof := by
  intro hk
  rw [Token.isName, hk] at h
  exact absurd h (by decide)

theorem identName : Reads src hi Parse.identName (Ident.Read src) := by
  apply token
  intro t
  apply ite
  · intro hname
    refine (identAt (kind_ne_eof_of_isName hname) id).imp ?_
    rintro p _ q _ hx rfl
    obtain ⟨i, rfl, hi⟩ := hx rfl
    exact hi
  · intro _
    apply failing (failExpecting _)
    exact pure fun _ _ => trivial

theorem computedProp (hr : rs.Lay src) : Reads src hi (Parse.computedProp rs) (Expr.Read src) := by
  apply bind (expect (by decide))
  intro _
  apply bind (withNoIn (hr.expression hi) false)
  intro e
  apply bind (expect (by decide))
  intro _
  apply pure
  rintro s _ r hrs ⟨_, _⟩ q hqr he p hpq ⟨_, _⟩
  exact ⟨he.plain, he.laid.mono hpq.token hrs.prev⟩

theorem propertyKey (hr : rs.Lay src) : Reads src hi (Parse.propertyKey rs) fun p k q =>
    k.1.Read src p q ∧ (k.2 || k.1.isWord) = true ∧
      ∀ i, k.1 = .ident i → k.2 = false → i.Read src p q := by
  apply token
  intro t
  have hliteral : ∀ kind, t.kind ≠ .eof → Reads src hi (do
      Parse.advance
      return ((.literal ⟨← Parse.markFrom t.pos, kind, t.literal⟩, false) : Expr × Bool))
      fun p k q => p.token = t →
        k.1.Read src p q ∧ (k.2 || k.1.isWord) = true ∧
          ∀ i, k.1 = .ident i → k.2 = false → i.Read src p q := by
    intro kind hk
    apply bind advance
    intro _
    apply marked
    rintro q _ p hpq hpassed rfl
    exact ⟨hpq.source.token.literal_read (hpassed hk) kind, rfl, fun i h => nomatch h⟩
  split
  · apply bind (computedProp hr)
    intro e
    apply pure
    intro q _ p _ he _
    exact ⟨he, rfl, fun i _ h => nomatch h⟩
  · next hk => exact hliteral .string (by rw [hk]; decide)
  · next hk => exact hliteral .number (by rw [hk]; decide)
  · apply bind identName
    intro i
    apply pure
    intro q _ p _ hi _
    refine ⟨hi.expr, rfl, ?_⟩
    rintro _ ⟨⟩ _
    exact hi

theorem bindingElement (hr : rs.Lay src) :
    Reads src hi (Parse.bindingElement rs) (Expr.Element src) := by
  apply start
  intro o
  apply bind (hr.bindingTarget hi)
  intro target
  apply acceptThen (by decide)
  · apply bind (hr.assign hi)
    intro value
    apply marked
    rintro s _ r hrs hvalue q hqr _ _ p hpq htarget rfl
    have hlaid := htarget.laid.append hvalue.laid hqr.gap
    exact ⟨rfl, Expr.binds_default htarget.binds _ _, hlaid.expr .assignPattern le_rfl
      le_rfl
      (by simp [Expr.wellFormed, Expr.isValue_of_isBinding htarget.binding, hvalue.value])
      (by simp [Expr.IsNode, Expr.isPlace_of_binds htarget.binds])⟩
  · apply pure
    rintro q _ _ p hpq htarget _
    exact ⟨Expr.isValue_of_isBinding htarget.binding, htarget.binds, htarget.laid⟩

theorem restThen (hr : rs.Lay src) (g : Expr → α) :
    Reads src hi (do
      let o ← Parse.start
      Parse.advance
      let target ← rs.bindingTarget
      return g (.rest (← Parse.markFrom o) target)) fun p a q => p.token.kind = .ellipsis →
        ∃ e : Expr, a = g e ∧ e.isRest = true ∧ e.binds = true ∧
          e.Laid src p.head q.tail := by
  apply start
  intro o
  apply bind advance
  intro _
  apply bind (hr.bindingTarget hi)
  intro target
  apply marked
  rintro r _ q hqr htarget p hpq hpassed rfl hk
  refine ⟨_, rfl, rfl, htarget.binds, htarget.laid.expr .restElem hpq.token le_rfl ?_
    (by simp [Expr.IsNode, Expr.isPlace_of_binds htarget.binds])⟩
  exact Expr.isValue_of_isBinding htarget.binding

theorem arrayStep (hr : rs.Lay src) (es : List Expr) : Reads src hi (Parse.arrayStep rs es)
    (Round src hi (Expr.Row (fun e => e.isSlot && e.binds) src)
      (Expr.RestRow (fun e => e.isSlot && e.binds) src) es) := by
  apply stopped
  · exact pure fun q _ _ p _ hes => hes.last
  · apply acceptThen (by decide)
    · apply pure
      intro r _ q hqr _ hpassed _ p hpq hes
      exact hes.concat rfl (Between.nil hpassed.le) (.refl hqr.source)
    · apply checkThen
      · refine (restThen hr fun e => Sum.inr (es ++ [e])).imp ?_
        intro q _ r hqr hrest hk _ _ p hpq hes
        obtain ⟨e, rfl, he, hbinds, hlaid⟩ := hrest hk
        exact hes.concatRest he hbinds hlaid (.refl hqr.source)
      · apply bind (bindingElement hr)
        intro e
        apply check
        intro _
        apply maybe fun _ => expect (by decide)
        apply pure
        intro s _ r hrs _ _ _ q hqr he _ _ _ p hpq hes
        have hslot := Expr.isSlot_of_isValue he.value
        exact (hes.concat (by simp [hslot, he.binds]) he.laid (.refl hqr.source)).mono hrs

theorem arrayPattern (hr : rs.Lay src) :
    Reads src hi (Parse.arrayPattern rs) (Expr.Bound src) := by
  apply start
  intro o
  apply bind (expect (by decide))
  intro _
  apply bind (loop (arrayStep hr) fun _ _ => .nil)
  intro es
  apply bind (expect (by decide))
  intro _
  apply marked
  rintro s _ r hrs _ q hqr hes p hpq ⟨_, hpassed⟩ rfl
  obtain ⟨hform, hbinds⟩ := hes.binds
  have hplaces : ∀ e ∈ es, e.isPlace = true := fun e he =>
    Expr.isPlace_of_binds (List.all_eq_true.1 hbinds e he)
  exact ⟨rfl, Expr.binds_elems hbinds, hes.laid.expr .arrayPattern hpassed.le hrs.prev hform
    (by simpa [Expr.IsNode] using hplaces)⟩

theorem shorthand (hi : i.Read src p q) (hvalue : value.isValue = true)
    (hlaid : value.Laid src p.head r.tail) (hqr : q.tail ≤ r.tail) (ha : a ≤ p.head) :
    (Expr.property (.ofSpan ⟨a.pos, r.prevEnd⟩) shape (.ident i) value).Laid src a r.tail := by
  have hsound : Part.Sound src (.expr (.ident i)) := hi.expr.laid.sound _ (by simp [Expr.parts])
  refine ((hi.before hlaid hqr).part hsound).expr .property ha le_rfl ?_
    (by simp [Expr.IsNode, Expr.isWord])
  simp [Expr.wellFormed, hvalue]

theorem patternProperty (hr : rs.Lay src) : Reads src hi (Parse.patternProperty rs) fun p x q =>
    ∃ e : Expr, x = some e ∧ e.isField = true ∧ e.binds = true ∧
      e.Laid src p.head q.tail := by
  apply start
  intro o
  apply token
  intro keyToken
  apply bind (propertyKey hr)
  rintro ⟨key, computed⟩
  apply acceptThen (by decide)
  · apply bind (bindingElement hr)
    intro value
    apply marked
    rintro s _ r hrs hvalue q hqr _ _ p hpq ⟨hkey, hword, _⟩ _ rfl
    refine ⟨_, rfl, rfl, hvalue.binds, (hkey.laid.append hvalue.laid hqr.gap).expr .property
      le_rfl le_rfl ?_
      (by simpa [Expr.IsNode, Parse.patternShape] using hword)⟩
    simp [Expr.wellFormed, hkey.value, hvalue.value]
  · have hmissing : Reads src hi (do
          Parse.fail .invalidBinding
          return (none : Option Expr)) fun _ _ _ => False := by
      apply failing (fail _)
      exact pure fun _ _ => trivial
    split
    · next i =>
      apply ite
      · intro _
        exact hmissing.imp fun _ _ _ _ h => h.elim
      · intro hshort
        simp only [Bool.or_eq_true, not_or, Bool.not_eq_true] at hshort
        apply acceptThen (by decide)
        · apply bind (hr.assign hi)
          intro value
          apply markFrom
          intro e
          apply marked
          rintro s _ rfl r hrs hvalue q hqr _ _ _ p hpq ⟨_, _, hident⟩ _ rfl
          have hi := hident _ rfl hshort.1
          have hcopy := Ident.laid_expr hi.copy
          have hdefault := (hcopy.append hvalue.laid hqr.gap).expr (a := p.head)
            (e := .assignPattern (.ofSpan ⟨p.token.pos, s.prevEnd⟩) (.ident (copyIdent i)) value)
            .assignPattern le_rfl le_rfl
            (by simp [Expr.wellFormed, hvalue.value])
            (by simp [Expr.IsNode, Expr.isPlace])
          exact ⟨_, rfl, rfl, rfl, shorthand hi rfl hdefault (hqr.trans hrs).prev
            le_rfl⟩
        · apply marked
          rintro q _ _ _ p hpq ⟨_, _, hident⟩ _ rfl
          have hi := hident _ rfl hshort.1
          exact ⟨_, rfl, rfl, rfl, shorthand hi rfl (Ident.laid_expr hi.copy) le_rfl
            le_rfl⟩
    · exact hmissing.imp fun _ _ _ _ h => h.elim

theorem objectStep (hr : rs.Lay src) (es : List Expr) : Reads src hi (Parse.objectStep rs es)
    (Round src hi (Expr.Row (fun e => e.isField && e.binds) src)
      (Expr.RestRow (fun e => e.isField && e.binds) src) es) := by
  apply stopped
  · exact pure fun q _ _ p _ hes => hes.last
  · apply checkThen
    · apply start
      intro o
      apply bind advance
      intro _
      apply bind ident
      intro i
      apply marked
      rintro s _ r hrs ⟨_, hi⟩ q hqr _ rfl _ _ p hpq hes
      have hrest := hi.expr.laid.expr (a := q.head) (b := s.tail)
        (e := .rest (.ofSpan ⟨q.token.pos, s.prevEnd⟩) (.ident i)) .restElem hqr.token
        le_rfl rfl
        (by simp [Expr.IsNode, Expr.isPlace])
      exact hes.concatRest rfl rfl hrest (.refl hqr.source)
    · apply bind (patternProperty hr)
      intro x
      cases x with
      | none =>
        apply pure
        rintro r _ q _ ⟨e, he, _⟩
        cases he
      | some e =>
        apply acceptThen (by decide)
        · apply pure
          rintro s _ r hrs _ _ q hqr ⟨_, ⟨⟩, he, hbinds, hlaid⟩ _ _ p hpq hes
          exact (hes.concat (by simp [he, hbinds]) hlaid (.refl hqr.source)).mono hrs
        · apply pure
          rintro r _ _ q hqr ⟨_, ⟨⟩, he, hbinds, hlaid⟩ _ _ p hpq hes
          exact (hes.concat (by simp [he, hbinds]) hlaid (.refl hqr.source)).last

theorem objectPattern (hr : rs.Lay src) :
    Reads src hi (Parse.objectPattern rs) (Expr.Bound src) := by
  apply start
  intro o
  apply bind (expect (by decide))
  intro _
  apply bind (loop (objectStep hr) fun _ _ => .nil)
  intro es
  apply bind (expect (by decide))
  intro _
  apply marked
  rintro s _ r hrs _ q hqr hes p hpq ⟨_, hpassed⟩ rfl
  obtain ⟨hform, hbinds⟩ := hes.binds
  have hplaces : ∀ e ∈ es, e.isPlace = true := fun e he =>
    Expr.isPlace_of_binds (List.all_eq_true.1 hbinds e he)
  exact ⟨rfl, Expr.binds_elems hbinds, hes.laid.expr .objectPattern hpassed.le hrs.prev hform
    (by simpa [Expr.IsNode] using hplaces)⟩

theorem bindingTarget (hr : rs.Lay src) :
    Reads src hi (Parse.bindingTarget rs) (Expr.Bound src) := by
  apply token
  intro t
  split
  · exact (arrayPattern hr).imp fun _ _ _ _ h _ => h
  · exact (objectPattern hr).imp fun _ _ _ _ h _ => h
  · apply bind ident
    intro i
    apply pure
    rintro q _ p _ ⟨_, hi⟩ _
    exact ⟨rfl, rfl, hi.expr.laid⟩
  · apply failing (fail _)
    apply start
    intro o
    exact pure fun _ _ _ => trivial

end Patterns
section Functions

theorem statementStep (hr : rs.Lay src) (stop : Kind) (ss : List Stmt) :
    Reads src hi (Parse.statementStep rs stop ss)
      (Round src hi (Stmt.Row src) (Stmt.Row src) ss) := by
  apply check
  intro _
  apply check
  intro _
  apply failed
  intro _
  apply ite
  · intro _
    exact pure fun q _ _ _ p _ hss => hss
  · intro _
    apply start
    intro o
    apply bind (takeComments _)
    intro cs
    apply bind (hr.statement hi)
    intro s
    apply pure
    rintro r _ _ hqr hs q hgap ⟨rfl, hcs⟩ rfl _ _ p hpq hss
    have hlaid := Stmt.laid_addLead (a := q.head) hs hcs
    right
    rcases hss with rfl | hss
    · have hnil : Stmt.LaidAll src p.head p.head [] := Between.nil le_rfl
      exact hnil.concatStmt hlaid hpq.token
    · exact hss.concatStmt hlaid hgap.source.gap

theorem statementList (hr : rs.Lay src) (stop : Kind) :
    Reads src hi (Parse.statementList rs stop) (Stmt.Row src) :=
  loop (statementStep hr stop) fun _ _ => .inl rfl

theorem markedBlock (hr : rs.Lay src) : Reads src hi (Parse.block rs) fun p b q =>
    b.mark = .ofSpan ⟨p.token.pos, q.prevEnd⟩ ∧ b.Laid src p.head q.tail := by
  apply start
  intro o
  apply bind (expect (by decide))
  intro _
  apply bind (statementList hr _)
  intro ss
  apply bind (expect (by decide))
  intro _
  apply marked
  rintro s _ r hrs _ q hqr hss p hpq ⟨_, hpassed⟩ rfl
  have hlaid := hss.laid hpq.token (b := s.tail) (by grind) hrs.prev
  refine ⟨rfl, ?_⟩
  simpa [Block.Laid, Block.outline, Block.parts, Block.attached] using
    hlaid.node (a := p.head) (b := s.tail) .blockStmt le_rfl le_rfl
      (by decide)

theorem block (hr : rs.Lay src) : Reads src hi (Parse.block rs) fun p b q =>
    b.Laid src p.head q.tail :=
  (markedBlock hr).imp fun _ _ _ _ h => h.2

theorem paramStep (hr : rs.Lay src) (es : List Expr) : Reads src hi (Parse.paramStep rs es)
    (Round src hi (Expr.Row (fun e => e.isValue && e.binds) src)
      (Expr.RestRow (fun e => e.isValue && e.binds) src) es) := by
  apply stopped
  · exact pure fun q _ _ p _ hes => hes.last
  · apply checkThen
    · refine (restThen hr fun e => Sum.inr (es ++ [e])).imp ?_
      intro q _ r hqr hrest hk _ p hpq hes
      obtain ⟨e, rfl, he, hbinds, hlaid⟩ := hrest hk
      exact hes.concatRest he hbinds hlaid (.refl hqr.source)
    · apply bind (bindingElement hr)
      intro e
      apply acceptThen (by decide)
      · apply pure
        intro s _ r hrs _ _ q hqr he _ _ p hpq hes
        exact (hes.concat (by simp [he.value, he.binds]) he.laid (.refl hqr.source)).mono hrs
      · apply pure
        intro r _ _ q hqr he _ _ p hpq hes
        exact (hes.concat (by simp [he.value, he.binds]) he.laid (.refl hqr.source)).last

theorem params (hr : rs.Lay src) : Reads src hi (Parse.params rs) fun p es q =>
    (Expr.restLast Expr.isValue es = true ∧ es.all Expr.binds = true) ∧
      Expr.LaidAll src p.head q.tail es := by
  apply bind (expect (by decide))
  intro _
  apply bind (loop (paramStep hr) fun _ _ => .nil)
  intro es
  apply bind (expect (by decide))
  intro _
  apply pure
  rintro s _ r hrs _ q hqr hes p hpq ⟨_, hpassed⟩
  exact ⟨hes.binds, hes.laid.mono hpassed.le hrs.prev⟩

theorem functionRest (hr : rs.Lay src) (o : Position) (name : Option Ident)
    (isAsync generator : Bool) :
    Reads src hi (Parse.functionRest rs o name isAsync generator) fun p f q =>
      ∀ a c : Point, a.pos = o → c ≤ p.head → Between src a c (name.toList.map ofIdent) [] [] →
        f.name? = name ∧ f.Read src a q := by
  apply withNoIn
  apply bind (params hr)
  intro es
  apply bind (block hr)
  intro b
  apply marked
  rintro r _ q hqr hb p hpq ⟨⟨hform, hbinds⟩, hes⟩ a c rfl hc hname
  refine ⟨rfl, hform, hbinds, ?_⟩
  have hlaid := (hname.append hes hc).append hb hqr.source.gap
  simpa [Func.Laid, Func.outline, Func.parts, Func.attached] using
    hlaid.node (a := a) (b := r.tail) .function le_rfl le_rfl (by decide)

theorem function (hr : rs.Lay src) (isAsync named : Bool) :
    Reads src hi (Parse.function rs isAsync named) fun p f q =>
      (named = true → f.name?.isSome = true) ∧ f.Read src p.head q := by
  apply start
  intro o
  apply maybe fun _ => advance
  apply bind (expect (by decide))
  intro _
  apply bind (accept (by decide))
  intro generator
  apply check
  intro b
  apply ite
  · intro _
    apply bind ident
    intro name
    refine (functionRest hr o (some name) isAsync generator).imp ?_
    rintro u f v huv hf t htu ⟨_, hname⟩ _ s hst _ r hrs _ q hqr _ _ rfl
    have hbefore : Between src q.head u.tail [ofIdent name] [] [] :=
      hname.laid.mono (by grind) le_rfl
    obtain ⟨hsome, hread⟩ := hf q.head _ rfl huv.source.gap hbefore
    exact ⟨fun _ => by rw [hsome]; rfl, hread⟩
  · intro hunnamed
    refine (functionRest hr o none isAsync generator).imp ?_
    rintro u f v huv hf _ s hst _ r hrs _ q hqr _ _ rfl
    obtain ⟨_, hread⟩ := hf q.head q.head rfl (by grind) (Between.nil le_rfl)
    refine ⟨fun hnamed => ?_, hread⟩
    rw [hnamed, Bool.true_or] at hunnamed
    exact absurd rfl hunnamed

theorem spreadable (hr : rs.Lay src) : Reads src hi (Parse.spreadable rs) fun p e q =>
    e.isPlainArgument = true ∧ e.Laid src p.head q.tail := by
  apply checkThen
  · apply start
    intro o
    apply bind advance
    intro _
    apply bind (hr.assign hi)
    intro x
    apply marked
    rintro r _ q hqr hx p hpq _ rfl _
    exact ⟨hx.plain, hx.laid.expr .spreadElem hpq.token le_rfl hx.value
      (by simp [Expr.IsNode])⟩
  · refine (hr.assign hi).imp fun p e q _ he _ => ⟨?_, he.laid⟩
    exact Expr.isPlainArgument_of_isPlain he.plain

theorem argumentStep (hr : rs.Lay src) (es : List Expr) : Reads src hi (Parse.argumentStep rs es)
    (Round src hi (Expr.Row Expr.isPlainArgument src) (Expr.Row Expr.isPlainArgument src) es) := by
  apply stopped
  · exact pure fun q _ _ p _ hes => hes
  · apply bind (spreadable hr)
    intro e
    apply acceptThen (by decide)
    · apply pure
      rintro s _ r hrs _ _ q hqr ⟨he, hlaid⟩ _ p hpq hes
      exact (hes.concat he hlaid (.refl hqr.source)).mono hrs
    · apply pure
      rintro r _ _ q hqr ⟨he, hlaid⟩ _ p hpq hes
      exact hes.concat he hlaid (.refl hqr.source)

theorem arguments (hr : rs.Lay src) : Reads src hi (Parse.arguments rs) fun p es q =>
    (∀ e ∈ es, e.isPlainArgument = true) ∧
      Expr.LaidAll src p.head q.tail es := by
  apply bind (expect (by decide))
  intro _
  apply withNoIn
  apply bind (loop (argumentStep hr) fun _ _ => .nil)
  intro es
  apply bind (expect (by decide))
  intro _
  apply pure
  rintro s _ r hrs _ q hqr hes p hpq ⟨_, hpassed⟩
  exact ⟨hes.form, hes.laid.mono hpassed.le hrs.prev⟩

end Functions
section Primaries

@[simp] theorem expr_plain (e : Expr) : (Parse.plain e).expr = e := rfl

theorem reporting (cause : Cause) (x : Except Crash (α × List Mark)) :
    Reads src hi (Parse.reporting cause x) fun p a q => q = p ∧ x = .ok (a, []) := by
  intro s a s' hrun hclean
  match x with
  | .error c => cases hrun
  | .ok (b, ms) =>
    rw [run_reporting_ok] at hrun
    cases hrun
    obtain ⟨hfaults, hlexical⟩ := hclean
    rw [List.append_eq_nil_iff, List.map_eq_nil_iff] at hfaults
    obtain ⟨hfaults, rfl⟩ := hfaults
    refine ⟨⟨hfaults, hlexical⟩, fun hs => ?_⟩
    exact ⟨⟨hs.place, hs.peek, hs.peek2, hs.lexer, hs.before_peek, hs.before_peek2,
      hs.before_lexer⟩, .refl hs.place, rfl, rfl⟩

theorem toTarget (e : Expr) :
    Reads src hi (Parse.toPattern false e) fun p e' q => q = p ∧ ∀ a b, e.Laid src a b →
      e.isPlain = true → e'.Laid src a b ∧ e'.isValue = true ∧ e'.isTarget = true := by
  rw [toPattern_eq]
  refine (reporting _ _).imp ?_
  rintro p e' q _ ⟨rfl, hpattern⟩
  refine ⟨rfl, fun a b he hplain => ?_⟩
  obtain ⟨hrecast, hvalue⟩ := Expr.recast_pattern false e e' hpattern he.sound
  exact ⟨hrecast.between he, (hvalue (Expr.isValue_of_isPlain hplain)).1,
    Expr.isTarget_of_pattern hpattern (fun x hx => (he.sound x hx).wellAimed) hplain⟩

def Cover (es : List Expr) : Prop :=
  Expr.restLast Expr.isPlainArgument es = true ∧
    ∀ e ∈ es, e.isPlainArgument = true ∨ (e.isRest = true ∧ e.binds = true)

theorem toParams (es : List Expr) :
    Reads src hi (Parse.toParams es) fun p es' q => q = p ∧ ∀ a b, Expr.LaidAll src a b es →
      Cover es → Expr.LaidAll src a b es' ∧ Expr.restLast Expr.isValue es' = true ∧
        ∀ e ∈ es', (e.leaves false).all (Expr.fits true) = true := by
  rw [toParams_eq]
  refine (reporting _ _).imp ?_
  rintro p es' q _ ⟨rfl, hparams⟩
  refine ⟨rfl, fun a b hes hcover => ?_⟩
  have hform := Expr.restLast_mono (fun e => Expr.isArgument_of_isPlainArgument) hcover.1
  obtain ⟨hrecast, hlast⟩ := Expr.recast_params es es' hparams hes.sound hform
  exact ⟨hrecast.between hes, hlast,
    Expr.fits_params es es' hparams (fun x hx => (hes.sound x hx).wellAimed) hcover.2⟩

theorem arrowBody (hr : rs.Lay src) : Reads src hi (Parse.arrowBody rs) fun p b q =>
    b.isPlain = true ∧ b.Laid src p.head q.tail := by
  apply checkThen
  · apply bind (withNoIn (block hr) false)
    intro b
    apply pure
    intro q _ p _ hb _
    exact ⟨rfl, by simpa [Body.Laid, Body.outline, Body.parts, Body.attached] using hb⟩
  · apply bind (hr.assign hi)
    intro e
    apply pure
    intro q _ p _ he _
    exact ⟨he.plain, by simpa [Body.Laid, Body.outline, Body.parts, Body.attached] using he.laid⟩

theorem identArrow (hr : rs.Lay src) (o : Position) (isAsync : Bool) :
    Reads src hi (Parse.identArrow rs o isAsync) fun q x r => ∀ p : Place,
      p.token.pos = o → p.head ≤ q.head → x.expr.Read src p r := by
  apply bind ident
  intro i
  apply bind (expect (by decide))
  intro _
  apply bind (arrowBody hr)
  intro b
  apply marked
  rintro t _ s hst ⟨hbody, hb⟩ r hrs _ q hqr ⟨_, hi⟩ p rfl hp
  refine ⟨rfl, (hi.expr.laid.append hb hrs.gap).expr .arrowFunc hp le_rfl ?_
    (by simp [Expr.IsNode, Expr.outlineList, Expr.partsList, Expr.leaves, Expr.fits,
      Expr.isIdent, hbody])⟩
  simp [Expr.wellFormed, Expr.restLast, Body.wellFormed_of_isPlain hbody]

theorem atArrowThen (hx : Reads src hi x Q) (hy : Reads src hi y Q) :
    Reads src hi (do if ← Parse.atArrow then x else y) Q := by
  simp only [Parse.atArrow, bind_assoc, pure_bind]
  apply check
  intro b
  apply token
  intro t
  apply ite
  · intro _
    exact hx.imp fun _ _ _ _ h _ _ => h
  · intro _
    exact hy.imp fun _ _ _ _ h _ _ => h

theorem arrowAfter (hr : rs.Lay src) (o : Position) (isAsync : Bool) (es : List Expr) :
    Reads src hi (Parse.arrowAfter rs o isAsync es) fun q x r =>
      ∀ p : Place, p.token.pos = o → Cover es → Expr.LaidAll src p.head q.tail es →
        x.expr.Read src p r := by
  apply bind advance
  intro _
  apply bind (toParams es)
  intro ps
  apply bind (arrowBody hr)
  intro b
  apply marked
  rintro t _ s hst ⟨hbody, hb⟩ r hrs ⟨rfl, hps⟩ q hqr _ p rfl hcover hes
  obtain ⟨hps, hlast, hfits⟩ := hps _ _ hes hcover
  refine ⟨rfl, (hps.append hb hqr.gap).expr .arrowFunc le_rfl le_rfl ?_
    (by simpa [Expr.IsNode, hbody] using hfits)⟩
  simp [Expr.wellFormed, hlast, Body.wellFormed_of_isPlain hbody]

structure GroupRow (src : Text) (p : Place) (g : Group) (q : Place) : Prop where
  items : Expr.RestRow Expr.isPlain src p g.items q
  plain : g.onlyParams = false → ∀ e ∈ g.items, e.isPlain = true

theorem groupStep (hr : rs.Lay src) (g : Group) : Reads src hi (Parse.groupStep rs g)
    (Round src hi (fun p g q => Expr.Row Expr.isPlain src p g.items q) (GroupRow src) g) := by
  apply stopped
  · exact pure fun q _ _ p _ hes => ⟨hes.last, fun _ => hes.form⟩
  · apply checkThen
    · refine (restThen hr fun e => Sum.inr (⟨g.items ++ [e], true⟩ : Group)).imp ?_
      intro q _ r hqr hrest hk _ p hpq hes
      obtain ⟨e, rfl, he, hbinds, hlaid⟩ := hrest hk
      exact ⟨hes.concatRest he hbinds hlaid (.refl hqr.source), fun h => nomatch h⟩
    · apply bind (hr.assign hi)
      intro e
      apply acceptThen (by decide)
      · apply pure
        intro s _ r hrs _ _ q hqr he _ _ p hpq hes
        exact (hes.concat he.plain he.laid (.refl hqr.source)).mono hrs
      · apply pure
        intro r _ _ q hqr he _ _ p hpq hes
        have hes := hes.concat he.plain he.laid (.refl hqr.source)
        exact ⟨hes.last, fun _ => hes.form⟩

theorem parenthesized (hr : rs.Lay src) :
    Reads src hi (Parse.parenthesized rs) fun p x q => x.expr.Read src p q := by
  apply start
  intro o
  apply bind (expect (by decide))
  intro _
  apply withNoIn
  apply bind (loop (groupStep hr) fun _ _ => .nil)
  intro g
  apply bind (expect (by decide))
  intro _
  apply atArrowThen
  · refine (arrowAfter hr o false g.items).imp ?_
    rintro s x t hst hx r hrs _ q hqr hg p hpq ⟨_, hpassed⟩ rfl
    have hcover : Cover g.items :=
      ⟨Expr.restLast_mono (fun _ => Expr.isPlainArgument_of_isPlain) hg.items.form,
        fun e he => (hg.items.bound e he).imp_left Expr.isPlainArgument_of_isPlain⟩
    exact hx p rfl hcover (hg.items.laid.mono hpassed.le hrs.prev)
  · split
    · next x hitems honly =>
      apply pure
      rintro s _ r hrs _ q hqr hg p hpq ⟨_, hpassed⟩ rfl
      have hplain := hg.plain honly
      have hlaid := hg.items.laid
      rw [hitems] at hplain hlaid
      simp only [Expr.LaidAll, Expr.outlineList, Expr.partsList, Expr.attachedList,
        List.append_nil, Parts.append_nil] at hlaid
      exact ⟨hplain x (.head _), hlaid.mono hpassed.le hrs.prev⟩
    · next x y more hitems honly =>
      apply marked
      rintro s _ r hrs _ q hqr hg p hpq ⟨_, hpassed⟩ rfl
      have hplain := hg.plain honly
      have hlaid := hg.items.laid
      rw [hitems] at hplain hlaid
      refine ⟨rfl, hlaid.expr .seqExpr hpassed.le hrs.prev ?_
        (by simpa [Expr.IsNode] using hplain)⟩
      simpa [Expr.wellFormed] using fun e he => Expr.isValue_of_isPlain (hplain e he)
    · apply failing (failExpecting _)
      apply markFrom
      intro e
      exact pure fun _ _ _ => trivial

theorem asyncCall (hr : rs.Lay src) :
    Reads src hi (Parse.asyncCall rs) fun p x q => x.expr.Read src p q := by
  apply start
  intro o
  apply bind ident
  intro i
  apply bind (arguments hr)
  intro es
  apply atArrowThen
  · refine (arrowAfter hr o true es).imp ?_
    rintro r x s hrs hx q hqr ⟨hform, hes⟩ p hpq _ rfl
    have hcover : Cover es := ⟨Expr.restLast_of_all hform, fun e he => .inl (hform e he)⟩
    exact hx p rfl hcover (hes.mono hpq.token le_rfl)
  · apply marked
    rintro r _ q hqr ⟨hform, hes⟩ p hpq ⟨_, hi⟩ rfl
    refine ⟨rfl, (hi.expr.laid.append hes hqr.source.gap).expr .callExpr le_rfl le_rfl ?_
      (by simp [Expr.IsNode, hi.expr.plain])⟩
    simpa [Expr.wellFormed] using fun e he => Expr.isArgument_of_isPlainArgument (hform e he)

theorem functionExpr (hr : rs.Lay src) (isAsync : Bool) :
    Reads src hi (Parse.functionExpr rs isAsync) fun p x q => x.expr.Read src p q := by
  apply start
  intro o
  apply bind (function hr isAsync false)
  intro f
  apply marked
  rintro q _ p hpq ⟨_, hf⟩ rfl
  exact ⟨rfl, hf.laid.expr .funcExpr le_rfl le_rfl hf.wellFormed
    (by simpa [Expr.IsNode] using hf.binds)⟩

theorem elementStep (hr : rs.Lay src) (es : List Expr) : Reads src hi (Parse.elementStep rs es)
    (Round src hi (Expr.Row Expr.isPlainElement src) (Expr.Row Expr.isPlainElement src) es) := by
  apply stopped
  · exact pure fun q _ _ p _ hes => hes
  · apply acceptThen (by decide)
    · apply pure
      intro r _ q hqr _ hpassed _ p hpq hes
      exact hes.concat rfl (Between.nil hpassed.le) (.refl hqr.source)
    · apply bind (spreadable hr)
      intro e
      apply check
      intro _
      apply maybe fun _ => expect (by decide)
      apply pure
      rintro s _ r hrs _ _ _ q hqr ⟨he, hlaid⟩ _ _ p hpq hes
      exact (hes.concat (Expr.isPlainElement_of_isPlainArgument he) hlaid
        (.refl hqr.source)).mono hrs

theorem arrayLiteral (hr : rs.Lay src) :
    Reads src hi (Parse.arrayLiteral rs) (Expr.Read src) := by
  apply start
  intro o
  apply bind (expect (by decide))
  intro _
  apply withNoIn
  apply bind (loop (elementStep hr) fun _ _ => .nil)
  intro es
  apply bind (expect (by decide))
  intro _
  apply marked
  rintro s _ r hrs _ q hqr hes p hpq ⟨_, hpassed⟩ rfl
  refine ⟨rfl, hes.laid.expr .arrayLit hpassed.le hrs.prev ?_
    (by simpa [Expr.IsNode] using hes.form)⟩
  exact List.all_eq_true.2 fun e he => Expr.isElement_of_isPlainElement (hes.form e he)

theorem propertyModifier : Reads src hi Parse.propertyModifier fun _ _ _ => True := by
  apply token
  intro t
  apply peek
  intro next
  have hadvance : ∀ x : PropKind × Bool, Reads src hi (do
      Parse.advance
      return x) fun p _ _ => p.token = t → True := by
    intro x
    apply bind advance
    intro _
    exact pure fun _ _ _ _ _ _ => trivial
  have hstay : ∀ x : PropKind × Bool, Reads src hi (Pure.pure x) fun p _ _ => p.token = t → True :=
    fun x => pure fun _ _ _ => trivial
  apply ite
  · intro _
    exact hstay _
  · intro _
    apply ite
    · intro _
      exact hadvance _
    · intro _
      apply ite
      · intro _
        exact hadvance _
      · intro _
        apply ite
        · intro _
          exact hadvance _
        · intro _
          exact hstay _

theorem shorthandValue (hr : rs.Lay src) (i : Ident) :
    Reads src hi (Parse.shorthandValue rs i) fun q e r => ∀ p, i.Read src p q →
      e.Read src p r := by
  apply acceptThen (by decide)
  · apply bind (hr.assign hi)
    intro init
    apply marked
    rintro s _ r hrs hinit q hqr _ _ p hi
    rw [hi.start]
    refine ⟨rfl, ((Ident.laid_expr hi.copy).append hinit.laid hqr.gap).expr .assignExpr
      le_rfl le_rfl ?_
      (by simp [Expr.IsNode, Expr.isTarget_ident])⟩
    simp [Expr.wellFormed, hinit.value]
  · apply pure
    intro q _ _ p hi
    exact ⟨rfl, Ident.laid_expr hi.copy⟩

theorem property (hr : rs.Lay src) : Reads src hi (Parse.property rs) fun p e q =>
    e.isPlainMember = true ∧ e.Laid src p.head q.tail := by
  apply start
  intro o
  apply checkThen
  · apply bind advance
    intro _
    apply bind (hr.assign hi)
    intro x
    apply marked
    rintro r _ q hqr hx p hpq _ _ rfl
    exact ⟨hx.plain, hx.laid.expr .spreadElem hpq.token le_rfl hx.value
      (by simp [Expr.IsNode])⟩
  · apply bind propertyModifier
    rintro ⟨kind, isAsync⟩
    apply bind (accept (by decide))
    intro generator
    apply token
    intro keyToken
    apply bind (propertyKey hr)
    rintro ⟨key, computed⟩
    apply check
    intro _
    apply ite
    · intro _
      apply start
      intro o'
      apply bind (functionRest hr o' none isAsync generator)
      intro f
      apply markFrom
      intro e
      apply marked
      rintro u _ rfl t htu hf rfl _ s hst ⟨hkey, hword, _⟩ _ r hrs _ q hqr _ _ rfl
      obtain ⟨_, hf⟩ := hf t.head t.head rfl le_rfl (Between.nil le_rfl)
      have hvalue := hf.laid.expr (e := .function (.ofSpan ⟨t.token.pos, u.prevEnd⟩) f)
        .funcExpr le_rfl le_rfl hf.wellFormed
        (by simpa [Expr.IsNode] using hf.binds)
      refine ⟨rfl, (hkey.laid.append hvalue htu.source.gap).expr .property (by grind)
        le_rfl ?_
        (by simpa [Expr.IsNode] using hword)⟩
      simp [Expr.wellFormed, hkey.value]
    · intro _
      apply acceptThen (by decide)
      · apply bind (hr.assign hi)
        intro value
        apply marked
        rintro v _ u huv hvalue t htu _ _ _ s hst ⟨hkey, hword, _⟩ _ r hrs _ q hqr _ _ rfl
        refine ⟨hvalue.plain, (hkey.laid.append hvalue.laid htu.gap).expr .property (by grind)
          le_rfl ?_
          (by simpa [Expr.IsNode] using hword)⟩
        simp [Expr.wellFormed, hkey.value, hvalue.value]
      · dsimp only
        split
        · next i hshort =>
          simp only [Bool.and_eq_true, Bool.not_eq_true'] at hshort
          apply bind (shorthandValue hr i)
          intro value
          apply marked
          rintro u _ t htu hvalue _ _ s hst ⟨_, _, hident⟩ _ r hrs _ q hqr _ _ rfl
          have hi := hident i rfl hshort.1
          have hvalue := hvalue s hi
          exact ⟨hvalue.plain, shorthand hi hvalue.value hvalue.laid htu.prev (by grind)⟩
        · apply failing (failExpecting _)
          apply markFrom
          intro e
          exact pure fun _ _ _ => trivial

theorem memberStep (hr : rs.Lay src) (es : List Expr) : Reads src hi (Parse.memberStep rs es)
    (Round src hi (Expr.Row Expr.isPlainMember src) (Expr.Row Expr.isPlainMember src) es) := by
  apply stopped
  · exact pure fun q _ _ p _ hes => hes
  · apply bind (property hr)
    intro e
    apply acceptThen (by decide)
    · apply pure
      rintro s _ r hrs _ _ q hqr ⟨he, hlaid⟩ _ p hpq hes
      exact (hes.concat he hlaid (.refl hqr.source)).mono hrs
    · apply pure
      rintro r _ _ q hqr ⟨he, hlaid⟩ _ p hpq hes
      exact hes.concat he hlaid (.refl hqr.source)

theorem objectLiteral (hr : rs.Lay src) :
    Reads src hi (Parse.objectLiteral rs) (Expr.Read src) := by
  apply start
  intro o
  apply bind (expect (by decide))
  intro _
  apply withNoIn
  apply bind (loop (memberStep hr) fun _ _ => .nil)
  intro es
  apply bind (expect (by decide))
  intro _
  apply marked
  rintro s _ r hrs _ q hqr hes p hpq ⟨_, hpassed⟩ rfl
  refine ⟨rfl, hes.laid.expr .objectLit hpassed.le hrs.prev ?_
    (by simpa [Expr.IsNode] using hes.form)⟩
  exact List.all_eq_true.2 fun e he => Expr.isMember_of_isPlainMember (hes.form e he)

end Primaries
section Templates

theorem next_of_run_advance (h : Parse.advance.run s >>= f = .ok b) :
    ∃ t l, s.lexer.next = .ok (t, l) ∧ f ((), shifted s t l) = .ok b := by
  cases hnext : s.lexer.next with
  | error c =>
    rw [run_advance_error hnext] at h
    cases h
  | ok out =>
    rw [run_advance hnext] at h
    exact ⟨out.1, out.2, rfl, h⟩

theorem next_of_ofLexer (h : Reader.ofLexer l = .ok s) :
    ∃ l₁ l₂, l.next = .ok (s.token, l₁) ∧ l₁.next = .ok (s.peek, l₂) ∧
      l₂.next = .ok (s.peek2, s.lexer) ∧ s.prevEnd = .none := by
  simp only [Reader.ofLexer, StateT.run_bind, bind_assoc] at h
  obtain ⟨t₁, l₁, h₁, h⟩ := next_of_run_advance h
  obtain ⟨t₂, l₂, h₂, h⟩ := next_of_run_advance h
  obtain ⟨t₃, l₃, h₃, h⟩ := next_of_run_advance h
  cases h
  exact ⟨l₁, l₂, h₁, h₂, h₃, rfl⟩

theorem stands_ofLexer (h : Reader.ofLexer l = .ok s) (hs : s.Clean) (hl : l.Stands src hi)
    (hoffset : 0 ≤ l.cursor.pos.offset) (hhi : 0 ≤ hi) :
    s.Stands src hi ∧ l.cursor.pos.offset ≤ s.token.pos.offset := by
  obtain ⟨l₁, l₂, h₁, h₂, h₃, hprev⟩ := next_of_ofLexer h
  have ht₁ := Lexer.taken h₁
  have ht₂ := Lexer.taken h₂
  have ht₃ := Lexer.taken h₃
  have hf₂ : l₂.faults = [] := List.prefix_nil.1 (hs.2 ▸ ht₃.faults)
  have hf₁ : l₁.faults = [] := List.prefix_nil.1 (hf₂ ▸ ht₂.faults)
  obtain ⟨hl₁, hs₁⟩ := hl.next h₁ hf₁
  obtain ⟨hl₂, hs₂⟩ := hl₁.next h₂ hf₂
  obtain ⟨hl₃, hs₃⟩ := hl₂.next h₃ hs.2
  refine ⟨⟨⟨hs₁, ?_, ?_, ?_⟩, hs₂, hs₃, hl₃, ?_, ?_, Int.le_of_eq ht₃.stop.symm⟩, ht₁.start⟩
  · exact Int.le_of_eq (congrArg Position.offset hprev).symm
  · exact ⟨Int.le_trans (Int.le_of_eq (congrArg Position.offset hprev))
      (Int.le_trans hoffset ht₁.start), .refl _⟩
  · exact Int.le_trans (Int.le_of_eq (congrArg Position.offset hprev)) hhi
  · exact Int.le_trans (Int.le_of_eq ht₁.stop.symm) ht₂.start
  · exact Int.le_trans (Int.le_of_eq ht₂.stop.symm) ht₃.start

theorem fragment (hr : rs.Lay src) : Reads src hi (Lockstep.fragment rs) (Expr.Read src) := by
  apply bind (hr.expression hi)
  intro e
  apply check
  intro _
  apply failed
  intro _
  apply ite
  · intro _
    apply token
    intro t
    apply failing (fail _)
    exact pure fun _ _ => trivial
  · intro _
    exact pure fun q _ _ p _ he => he

theorem substitution (hr : rs.Lay src) (sub : Substitution) :
    Reads src hi (Parse.substitution rs sub) fun p e q => q = p ∧ (0 ≤ sub.pos.offset →
      (Lexer.ofFragment sub.source sub.pos).Stands src (sub.pos.offset + sub.source.length) →
        e.isValue = true ∧ ∀ cs, Between src (.of sub.pos.offset cs)
          (.of (sub.pos.offset + sub.source.length) cs) e.outline (e.parts true).flat []) := by
  intro s e s' hrun hclean
  rw [Lockstep.run_substitution] at hrun
  obtain ⟨inner, hinner, hrun⟩ := exists_of_bind_eq_ok hrun
  obtain ⟨⟨e', inner'⟩, hfragment, hrun⟩ := exists_of_bind_eq_ok hrun
  cases hrun
  obtain ⟨hfaults, hlexical⟩ := hclean
  rw [List.append_eq_nil_iff] at hfaults
  obtain ⟨hfaults, hfault⟩ := hfaults
  have hfault : inner'.fault? = none := by simpa using hfault
  refine ⟨⟨hfaults, hlexical⟩, fun hs => ?_⟩
  refine ⟨⟨hs.place, hs.peek, hs.peek2, hs.lexer, hs.before_peek, hs.before_peek2,
    hs.before_lexer⟩, .refl hs.place, rfl, fun hnonneg hstands => ?_⟩
  have hreads : Reads src (sub.pos.offset + sub.source.length) (Lockstep.fragment rs) _ :=
    fragment hr
  obtain ⟨hinner', hread⟩ := hreads hfragment (Reader.clean_of_fault? hfault)
  have hoffset : (Lexer.ofFragment sub.source sub.pos).cursor.pos.offset = sub.pos.offset :=
    Lexer.ofText_offset _ _
  obtain ⟨hplace, hstart⟩ := stands_ofLexer hinner hinner' hstands (by omega) (by omega)
  obtain ⟨hplace', _, he⟩ := hread hplace
  exact ⟨he.value, fun cs => he.laid.apart (by rw [← hoffset]; exact hstart) hplace'.place.le
    (.refl _)⟩

theorem substitutions (hr : rs.Lay src) (subs : List Substitution) :
    Reads src hi (Parse.substitutions rs subs) fun p es q => q = p ∧
      es.length = subs.length ∧ ∀ a b, 0 ≤ a → Substitution.Row src b a subs →
        (∀ e ∈ es, e.isValue = true) ∧ ∀ cs, Between src (.of a cs) (.of b cs)
          (Expr.outlineList es) (Expr.partsList true es).flat [] := by
  induction subs with
  | nil =>
    apply pure
    intro p _
    exact ⟨rfl, rfl, fun a b _ hab => ⟨by simp, fun _ => Between.nil ⟨hab, .refl _⟩⟩⟩
  | cons sub subs ih =>
    apply bind (substitution hr sub)
    intro e
    apply bind ih
    intro es
    apply pure
    rintro _ _ _ _ ⟨rfl, hlength, hes⟩ p _ ⟨rfl, he⟩
    refine ⟨rfl, congrArg (· + 1) hlength, fun a b hnonneg hrow => ?_⟩
    obtain ⟨ha, hstands, hrest⟩ := hrow
    obtain ⟨hvalue, hlaid⟩ := he (Int.le_trans hnonneg ha) hstands
    obtain ⟨hvalues, hlaids⟩ := hes _ _ (by omega) hrest
    refine ⟨List.forall_mem_cons.2 ⟨hvalue, hvalues⟩, fun cs => ?_⟩
    have : Between src (.of a cs) _ _ _ _ :=
      ((hlaid cs).append (hlaids cs) le_rfl).mono ⟨ha, .refl _⟩ le_rfl
    simpa [Expr.outlineList, Expr.partsList] using this

theorem template (hr : rs.Lay src) (o : Position) (tag : Option Expr) :
    Reads src hi (Parse.template rs o tag) fun q e r => q.token.kind = .template →
      ∀ (p : Place) (a : Point), p.token.pos = o → a ≤ q.head → Expr.Laid? src p.head a tag →
        tag.all Expr.isPlain = true → e.Read src p r := by
  apply token
  intro t
  apply bind advance
  intro _
  apply markFrom
  intro e
  cases hraw : TemplateParts.ofRaw t.literal t.pos with
  | error c => exact throw c
  | ok parts =>
    change Reads src hi (do
      return Expr.template (.ofSpan ⟨o, e⟩) tag parts.quasis
        (← Parse.substitutions rs parts.substitutions)) _
    apply bind (substitutions hr _)
    intro es
    apply pure
    rintro s _ r hrs ⟨rfl, hlength, hes⟩ rfl q hqr hpassed rfl hk p a rfl ha htag hplain
    obtain ⟨hrow, hquasis⟩ := TemplateParts.ofRaw_row hraw hqr.source.token hk
    obtain ⟨hvalues, hlaid⟩ := hes _ _
      (Int.le_trans hqr.source.nonneg hqr.source.gap.1) hrow
    have hpassed := hpassed (by rw [hk]; decide)
    have hstop : q.token.stop.offset = s.prevEnd.offset := by rw [hpassed.stop]
    have hlaid : Between src q.head s.tail _ _ [] := (hlaid q.settled).mono
      ⟨Int.le_refl _, .refl _⟩ ⟨Int.le_of_eq hstop, hpassed.settled⟩
    refine ⟨rfl, (htag.append hlaid ha).expr .templateLit le_rfl le_rfl ?_
      (by simp [Expr.IsNode, hplain])⟩
    simp only [Expr.wellFormed, Bool.and_eq_true, List.all_eq_true, decide_eq_true_eq]
    refine ⟨⟨?_, by omega⟩, hvalues⟩
    rw [Option.all_eq_true] at hplain ⊢
    exact fun x hx => Expr.isValue_of_isPlain (hplain x hx)

end Templates
section Expressions

theorem asLiteral (t : Token) (kind : LiteralKind) (hk : t.kind ≠ .eof) :
    Reads src hi (Parse.asLiteral t kind) fun p x q => p.token = t → x.expr.Read src p q := by
  apply bind advance
  intro _
  apply marked
  rintro q _ p hpq hpassed rfl
  exact hpq.source.token.literal_read (hpassed hk) kind

theorem named (hr : rs.Lay src) (t : Token) (hk : t.kind ≠ .eof) :
    Reads src hi (Parse.named rs t) fun p x q => p.token = t → x.expr.Read src p q := by
  apply peek
  intro next
  apply ite
  · intro _
    refine (identArrow hr t.pos false).imp ?_
    rintro p x q _ hx rfl
    exact hx p rfl le_rfl
  · intro _
    dsimp only
    apply ite
    · intro _
      exact (functionExpr hr true).imp fun _ _ _ _ hx _ => hx
    · intro _
      apply get
      intro s
      apply ite
      · intro _
        apply bind advance
        intro _
        refine (identArrow hr t.pos true).imp ?_
        rintro q x r _ hx p hpq _ _ rfl
        exact hx p rfl hpq.token
      · intro _
        apply ite
        · intro _
          exact (asyncCall hr).imp fun _ _ _ _ hx _ _ => hx
        · intro _
          refine (identAt hk fun i => Parse.plain (.ident i)).imp ?_
          rintro p x q _ hx _ rfl
          obtain ⟨i, rfl, hi⟩ := hx rfl
          exact hi.expr

theorem primary (hr : rs.Lay src) :
    Reads src hi (Parse.primary rs) fun p x q => x.expr.Read src p q := by
  apply token
  intro t
  split
  · next hk => exact named hr t (by rw [hk]; decide)
  · next hk => exact asLiteral t _ (by rw [hk]; decide)
  · next hk => exact asLiteral t _ (by rw [hk]; decide)
  · next hk => exact asLiteral t _ (by rw [hk]; decide)
  · next hk => exact asLiteral t _ (by rw [hk]; decide)
  · next hk => exact asLiteral t _ (by rw [hk]; decide)
  · next hk => exact asLiteral t _ (by rw [hk]; decide)
  · next hk =>
    apply bind advance
    intro _
    apply marked
    rintro q _ p hpq hpassed rfl
    have hle := (hpassed (by rw [hk]; decide)).le
    exact ⟨rfl, (Between.nil hle).expr .thisExpr le_rfl le_rfl rfl
      ⟨rfl, rfl, rfl, by decide, rfl, rfl⟩⟩
  · next hk =>
    apply bind advance
    intro _
    apply marked
    rintro q _ p hpq hpassed rfl
    have hle := (hpassed (by rw [hk]; decide)).le
    exact ⟨rfl, (Between.nil hle).expr .superExpr le_rfl le_rfl rfl
      ⟨rfl, rfl, rfl, by decide, rfl, rfl⟩⟩
  · next hk =>
    apply bind advance
    intro _
    apply marked
    rintro q _ p hpq hpassed rfl
    have hident := hpq.source.token.ident_read (hpassed (by rw [hk]; decide))
    rw [hpq.source.token.reserved (by rw [hk]; decide), hk] at hident
    exact hident.expr
  · next hk =>
    apply bind (template hr t.pos none)
    intro x
    apply pure
    rintro q _ p _ hx rfl
    exact hx hk p _ rfl le_rfl (Between.nil le_rfl) rfl
  · exact (parenthesized hr).imp fun _ _ _ _ hx _ => hx
  · apply bind (arrayLiteral hr)
    intro x
    exact pure fun _ _ p _ hx _ => hx
  · apply bind (objectLiteral hr)
    intro x
    exact pure fun _ _ p _ hx _ => hx
  · exact (functionExpr hr false).imp fun _ _ _ _ hx _ => hx
  · apply failing (fail _)
    exact pure fun _ _ => trivial
  · apply failing (fail _)
    exact pure fun _ _ => trivial

/-- An expression that was read from `p`, where the token is at `o`. -/
def From (src : Text) (o : Position) (p : Place) (x : Expr) (q : Place) : Prop :=
  p.token.pos = o ∧ x.Read src p q

theorem tailStep (hr : rs.Lay src) (o : Position) (calls : Bool) (x : Expr) :
    Reads src hi (Parse.tailStep rs o calls x)
      (Round src hi (From src o) (From src o) x) := by
  have hmember : ∀ {y : Expr} {computed optional : Bool} {p q r s : Place}, Leads src hi q r →
      From src o p x q → y.Read src r s → (computed || y.isWord) = true →
      From src o p (.member (.ofSpan ⟨o, s.prevEnd⟩) x y computed optional) s := by
    rintro y computed optional p q r s hqr ⟨rfl, hx⟩ hy hword
    refine ⟨rfl, rfl, (hx.laid.append hy.laid hqr.gap).expr .memberExpr le_rfl le_rfl ?_
      (by simpa [Expr.IsNode, hx.plain] using hword)⟩
    simp [Expr.wellFormed, hx.value, hy.value]
  have hcall : ∀ {es : List Expr} {optional : Bool} {p q r s : Place}, Leads src hi q r →
      From src o p x q → (∀ e ∈ es, e.isPlainArgument = true) ∧
        Expr.LaidAll src r.head s.tail es →
      From src o p (.call (.ofSpan ⟨o, s.prevEnd⟩) x es optional) s := by
    rintro es optional p q r s hqr ⟨rfl, hx⟩ ⟨hform, hes⟩
    refine ⟨rfl, rfl, (hx.laid.append hes hqr.gap).expr .callExpr le_rfl le_rfl ?_
      (by simp [Expr.IsNode, hx.plain])⟩
    simpa [Expr.wellFormed, hx.value] using
      fun e he => Expr.isArgument_of_isPlainArgument (hform e he)
  apply failedThen
  · exact pure fun _ _ => trivial
  · apply token
    intro t
    split
    · apply bind advance
      intro _
      apply bind identName
      intro i
      apply marked
      rintro s _ r hrs hi q hqr _ _ p hpq hx
      exact hmember hqr hx hi.expr rfl
    · apply bind advance
      intro _
      apply checkThen
      · apply bind (arguments hr)
        intro es
        apply marked
        rintro s _ r hrs hes _ q hqr _ _ p hpq hx
        exact hcall hqr hx hes
      · apply checkThen
        · apply bind (computedProp hr)
          intro y
          apply marked
          rintro s _ r hrs hy _ _ q hqr _ _ p hpq hx
          exact hmember hqr hx hy rfl
        · apply bind identName
          intro i
          apply marked
          rintro s _ r hrs hi _ _ q hqr _ _ p hpq hx
          exact hmember hqr hx hi.expr rfl
    · apply bind (computedProp hr)
      intro y
      apply marked
      rintro r _ q hqr hy _ p hpq hx
      exact hmember (.refl hqr.source) hx hy rfl
    · apply ite
      · intro _
        exact pure fun q _ _ p _ hx => hx
      · intro _
        apply bind (arguments hr)
        intro es
        apply marked
        rintro r _ q hqr hes _ p hpq hx
        exact hcall (.refl hqr.source) hx hes
    · next hk =>
      apply bind (template hr o (some x))
      intro y
      apply pure
      rintro r _ q hqr hy rfl p hpq ⟨ho, hx⟩
      exact ⟨ho, hy hk p _ ho hqr.source.gap hx.laid (by simpa using hx.plain)⟩
    · exact pure fun q _ _ p _ hx => hx

theorem tail (hr : rs.Lay src) (o : Position) (calls : Bool) (x : Expr) :
    Reads src hi (Parse.tail rs o calls x) fun q e r => ∀ p, Leads src hi p q →
      From src o p x q → From src o p e r :=
  iterate (tailStep hr o calls) rs.rounds x

theorem newExpr (hr : rs.Lay src) : Reads src hi (Parse.newExpr rs) fun p e q =>
    p.token.kind = .newKw → e.Read src p q := by
  apply start
  intro o
  apply bind advance
  intro _
  apply acceptThen (by decide)
  · apply bind identName
    intro i
    apply marked
    rintro s _ r hrs hi q hqr _ _ p hpq _ rfl hk
    have hlaid := (hpq.source.token.new_laid hk).append hi.expr.laid (hpq.trans hqr).token
    exact ⟨rfl, hlaid.expr .memberExpr le_rfl le_rfl rfl
      (by simp [Expr.IsNode, Expr.isWord, Expr.isPlain,
        Expr.isValue, Expr.isPattern])⟩
  · -- The arguments come after a callee that is itself `new` or a primary expression.
    have hrest : ∀ x : Expr, Reads src hi (do
        let callee ← Parse.tail rs o false x
        let args ← if ← Parse.check .lparen then Parse.arguments rs else Pure.pure []
        return Expr.new (← Parse.markFrom o) callee args) fun q e r => ∀ p, Leads src hi p q →
          From src o p x q → e.Read src p r := by
      intro x
      apply bind (tail hr o false x)
      intro callee
      apply checkThen
      · apply bind (arguments hr)
        intro es
        apply marked
        rintro s _ r hrs ⟨hform, hes⟩ _ q hqr htail p hpq hx
        obtain ⟨rfl, hcallee⟩ := htail p hpq hx
        refine ⟨rfl, (hcallee.laid.append hes hrs.source.gap).expr .newExpr le_rfl le_rfl ?_
          (by simp [Expr.IsNode])⟩
        simpa [Expr.wellFormed, hcallee.value] using
          fun e he => Expr.isArgument_of_isPlainArgument (hform e he)
      · simp only [pure_bind]
        apply marked
        rintro r _ _ q hqr htail p hpq hx
        obtain ⟨rfl, hcallee⟩ := htail p hpq hx
        refine ⟨rfl, hcallee.laid.expr .newExpr le_rfl le_rfl ?_
          (by simp [Expr.IsNode, Expr.outlineList, Expr.partsList])⟩
        simpa [Expr.wellFormed] using hcallee.value
    apply checkThen
    · apply bind (hr.newExpr hi)
      intro x
      refine (hrest x).imp ?_
      rintro r e s hrs he q hqr hx hk _ p hpq _ rfl _
      have hx := hx hk
      exact he p (hpq.trans hqr) ⟨rfl, hx.plain, hx.laid.mono hpq.token le_rfl⟩
    · apply bind (primary hr)
      intro x
      refine (hrest x.expr).imp ?_
      rintro r e s hrs he q hqr hx _ _ p hpq _ rfl _
      exact he p (hpq.trans hqr) ⟨rfl, hx.plain, hx.laid.mono hpq.token le_rfl⟩

theorem leftHandSide (hr : rs.Lay src) :
    Reads src hi (Parse.leftHandSide rs) (Expr.Read src) := by
  apply start
  intro o
  apply checkThen
  · apply bind (newExpr hr)
    intro x
    refine (tail hr o true x).imp ?_
    rintro q e r hqr he p hpq hx hk ho
    exact (he p hpq ⟨ho, hx hk⟩).2
  · apply bind (primary hr)
    intro x
    apply ite
    · intro _
      exact pure fun q _ p _ hx _ _ => hx
    · intro _
      refine (tail hr o true x.expr).imp ?_
      rintro q e r hqr he p hpq hx _ ho
      exact (he p hpq ⟨ho, hx⟩).2

theorem postfixed (hr : rs.Lay src) : Reads src hi (Parse.postfixed rs) (Expr.Read src) := by
  apply start
  intro o
  apply bind (leftHandSide hr)
  intro x
  apply token
  intro t
  cases hop : UpdateOp.ofKind? t.kind with
  | none => exact pure fun q _ _ p _ hx _ => hx
  | some op =>
    apply ite
    · intro _
      exact pure fun q _ _ p _ hx _ => hx
    · intro _
      apply refusing (fail _)
      apply bind advance
      intro _
      apply marked
      rintro r _ q hqr _ htarget _ p hpq hx rfl
      refine ⟨rfl, hx.laid.expr .updateExpr le_rfl hqr.prev ?_
        (by simp [Expr.IsNode])⟩
      simpa [Expr.wellFormed] using htarget

theorem unary (hr : rs.Lay src) : Reads src hi (Parse.unary rs) (Expr.Read src) := by
  apply start
  intro o
  apply token
  intro t
  cases hunary : UnaryOp.ofKind? t.kind with
  | some op =>
    apply bind advance
    intro _
    apply bind (hr.unary hi)
    intro x
    apply marked
    rintro r _ q hqr hx p hpq _ _ rfl
    exact ⟨rfl, hx.laid.expr .unaryExpr hpq.token le_rfl hx.value
      (by simp [Expr.IsNode])⟩
  | none =>
    cases hupdate : UpdateOp.ofKind? t.kind with
    | some op =>
      apply bind advance
      intro _
      apply bind (hr.unary hi)
      intro x
      apply refusing (failAt _ _)
      apply marked
      rintro r _ htarget q hqr hx p hpq _ _ rfl
      refine ⟨rfl, hx.laid.expr .updateExpr hpq.token le_rfl ?_
        (by simp [Expr.IsNode])⟩
      simpa [Expr.wellFormed] using htarget
    | none =>
      apply ite
      · intro _
        apply bind advance
        intro _
        apply bind (hr.unary hi)
        intro x
        apply marked
        rintro r _ q hqr hx p hpq _ _ rfl
        exact ⟨rfl, hx.laid.expr .awaitExpr hpq.token le_rfl hx.value
          (by simp [Expr.IsNode])⟩
      · intro _
        exact (postfixed hr).imp fun _ _ _ _ hx _ _ => hx

theorem operatorThen (hf : ∀ op, Reads src hi (f op) Q) :
    Reads src hi (Parse.operator? >>= f) Q := by
  rw [Parse.operator?, bind_assoc]
  apply get
  intro s
  split
  · simp only [pure_bind]
    exact (hf none).imp fun _ _ _ _ h _ => h
  · simp only [pure_bind]
    exact (hf _).imp fun _ _ _ _ h _ => h

theorem binaryStep (hr : rs.Lay src) (o : Position) (least : Prec) (x : Expr) :
    Reads src hi (Parse.binaryStep rs o least x)
      (Round src hi (From src o) (From src o) x) := by
  apply failedThen
  · exact pure fun _ _ => trivial
  · apply operatorThen
    intro op
    match op with
    | none => exact pure fun q _ p _ hx => hx
    | some op =>
      apply ite
      · intro _
        exact pure fun q _ p _ hx => hx
      · intro _
        apply bind advance
        intro _
        apply bind (hr.binary _ hi)
        intro y
        apply marked
        rintro s _ r hrs hy q hqr _ p hpq ⟨rfl, hx⟩
        refine ⟨rfl, rfl, (hx.laid.append hy.laid hqr.gap).expr .binaryExpr le_rfl le_rfl ?_
          (by simp [Expr.IsNode, hx.plain])⟩
        simp [Expr.wellFormed, hx.value, hy.value]

theorem binary (hr : rs.Lay src) (least : Prec) :
    Reads src hi (Parse.binary rs least) (Expr.Read src) := by
  apply start
  intro o
  apply bind (unary hr)
  intro x
  refine (iterate (binaryStep hr o least) rs.rounds x).imp ?_
  rintro q e r hqr he p hpq hx ho
  exact (he p hpq ⟨ho, hx⟩).2

theorem conditional (hr : rs.Lay src) : Reads src hi (Parse.conditional rs) (Expr.Read src) := by
  apply start
  intro o
  apply bind (binary hr _)
  intro x
  apply acceptThen (by decide)
  · apply bind (withNoIn (hr.assign hi) false)
    intro y
    apply bind (expect (by decide))
    intro _
    apply bind (hr.assign hi)
    intro z
    apply marked
    rintro u _ t htu hz s hst _ r hrs hy q hqr _ _ p hpq hx rfl
    have hlaid := (hx.laid.append hy.laid hqr.gap).append hz.laid hst.gap
    refine ⟨rfl, hlaid.expr .condExpr le_rfl le_rfl ?_
      (by simp [Expr.IsNode, hx.plain])⟩
    simp [Expr.wellFormed, hx.value, hy.value, hz.value]
  · exact pure fun q _ _ p _ hx _ => hx

theorem yieldExpr (hr : rs.Lay src) : Reads src hi (Parse.yieldExpr rs) fun p e q =>
    p.token.kind = .yieldKw → e.Read src p q := by
  apply start
  intro o
  apply bind advance
  intro _
  apply token
  intro t
  apply ite
  · intro _
    apply marked
    rintro q _ _ p hpq hpassed rfl hk
    have hle := (hpassed (by rw [hk]; decide)).le
    exact ⟨rfl, (Between.nil hle).expr .yieldExpr le_rfl le_rfl rfl
      (by simp [Expr.IsNode, Expr.outline?, Expr.parts?])⟩
  · intro _
    apply bind (accept (by decide))
    intro delegate
    apply bind (hr.assign hi)
    intro x
    apply marked
    rintro s _ r hrs hx q hqr _ _ p hpq _ rfl _
    refine ⟨rfl, hx.laid.expr .yieldExpr (hpq.trans hqr).token le_rfl ?_
      (by simp [Expr.IsNode, Expr.outline?, Expr.parts?])⟩
    simpa [Expr.wellFormed] using hx.value

theorem assign (hr : rs.Lay src) : Reads src hi (Parse.assign rs) (Expr.Read src) := by
  apply start
  intro o
  apply checkThen
  · exact (yieldExpr hr).imp fun p e q _ he hk _ => he hk
  · apply bind (conditional hr)
    intro left
    apply token
    intro t
    cases hop : AssignOp.ofKind? t.kind with
    | none => exact pure fun q _ _ p _ hx _ _ => hx
    | some op =>
      have hrest : ∀ target : Expr, Reads src hi (do
          Parse.advance
          let right ← rs.assign
          return Expr.assign (← Parse.markFrom o) op target right) fun q e r => ∀ p : Place,
            p.token.pos = o → target.Laid src p.head q.tail →
              target.isValue = true → target.isTarget = true →
                (op = .set ∨ Parse.isSimpleTarget target = true) → e.Read src p r := by
        intro target
        apply bind advance
        intro _
        apply bind (hr.assign hi)
        intro right
        apply marked
        rintro s _ r hrs hright q hqr _ p rfl hlaid hvalue htarget hop
        refine ⟨rfl, (hlaid.append hright.laid hqr.gap).expr .assignExpr le_rfl le_rfl ?_
          (by simpa [Expr.IsNode] using htarget)⟩
        simpa [Expr.wellFormed, hvalue, hright.value] using hop
      apply ite
      · intro hset
        apply bind (toTarget left)
        intro target
        apply refusing (fail _)
        refine (hrest target).imp ?_
        rintro r e s _ he _ q _ ⟨rfl, hpattern⟩ _ p _ hleft _ ho
        obtain ⟨hlaid, hvalue, htarget⟩ := hpattern _ _ hleft.laid hleft.plain
        exact he p ho hlaid hvalue htarget (.inl hset)
      · intro hset
        simp only [pure_bind]
        apply refusing (fail _)
        refine (hrest left).imp ?_
        rintro q e r _ he htarget _ p _ hleft _ ho
        have hsimple : Parse.isSimpleTarget left = true := by simpa [hset] using htarget
        exact he p ho hleft.laid hleft.value (Expr.isTarget_of_isSimpleTarget hsimple)
          (.inr hsimple)

/-- The expressions of a sequence; before the first comma there is only one. -/
structure Sequence (src : Text) (p : Place) (es : List Expr) (q : Place) : Prop where
  plain : ∀ e ∈ es, e.isPlain = true
  laid : Expr.LaidAll src p.head q.tail es
  length : 2 ≤ es.length ∨ (es.length = 1 ∧ q.token.kind = .comma)

theorem sequenceStep (hr : rs.Lay src) (es : List Expr) :
    Reads src hi (Parse.sequenceStep rs es) (Round src hi (Sequence src)
      (fun p es q => Sequence src p es q ∧ 2 ≤ es.length) es) := by
  apply failedThen
  · exact pure fun _ _ => trivial
  · apply acceptThen (by decide)
    · apply bind (hr.assign hi)
      intro e
      apply pure
      intro s _ r hrs he q hqr _ _ p hpq hes
      refine ⟨?_, hes.laid.concat he.laid hqr.gap, .inl ?_⟩
      · exact List.forall_mem_append.2 ⟨hes.plain, List.forall_mem_singleton.2 he.plain⟩
      · have := hes.length
        simp only [List.length_append, List.length_singleton]
        omega
    · apply pure
      intro q _ hk p _ hes
      exact ⟨hes, hes.length.resolve_right fun h => hk h.2⟩

theorem expression (hr : rs.Lay src) : Reads src hi (Parse.expression rs) (Expr.Read src) := by
  apply start
  intro o
  apply bind (assign hr)
  intro x
  apply checkThen
  · apply bind (iterate (sequenceStep hr) rs.rounds [x])
    intro es
    apply marked
    rintro r _ q hqr hloop hk p hpq hx rfl
    have hstart : Sequence src p [x] q := by
      refine ⟨by simpa using hx.plain, ?_, .inr ⟨rfl, hk⟩⟩
      simpa [Expr.LaidAll, Expr.outlineList, Expr.partsList] using hx.laid
    obtain ⟨hes, hlength⟩ := hloop p hpq hstart
    refine ⟨rfl, hes.laid.expr .seqExpr le_rfl le_rfl ?_
      (by simpa [Expr.IsNode] using hes.plain)⟩
    simpa [Expr.wellFormed, hlength] using fun e he => Expr.isValue_of_isPlain (hes.plain e he)
  · exact pure fun q _ _ p _ hx _ => hx

end Expressions
end Reads
end Parse
end LabelHooks
