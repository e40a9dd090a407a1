import LabelHooks.Proofs.Between

/-!
Expressions and statements laid out in a source: lists of them, nodes above them, and patterns,
which stand where the expressions stood that they were read from.
-/

namespace LabelHooks
set_option autoImplicit true

open Outline (bareList)
open List

theorem Expr.outlineList_append (es fs : List Expr) :
    Expr.outlineList (es ++ fs) = Expr.outlineList es ++ Expr.outlineList fs := by
  induction es with
  | nil => rfl
  | cons e es ih => rw [cons_append, Expr.outlineList, Expr.outlineList, ih, append_assoc]

@[simp] theorem Expr.partsList_append (seen : Bool) (es fs : List Expr) :
    partsList seen (es ++ fs) = partsList seen es ++ partsList seen fs := by
  induction es with
  | nil => rfl
  | cons e es ih => rw [cons_append, partsList, partsList, ih, Parts.append_assoc]

theorem Stmt.partsList_append (ss ts : List Stmt) :
    Stmt.partsList (ss ++ ts) = Stmt.partsList ss ++ Stmt.partsList ts := by
  induction ss with
  | nil => rfl
  | cons s ss ih => rw [cons_append, Stmt.partsList, Stmt.partsList, ih, Parts.append_assoc]

theorem Stmt.outlineList_append (ss ts : List Stmt) :
    Stmt.outlineList (ss ++ ts) = Stmt.outlineList ss ++ Stmt.outlineList ts := by
  induction ss with
  | nil => rfl
  | cons s ss ih => rw [cons_append, Stmt.outlineList, Stmt.outlineList, ih, append_assoc]

theorem Declarator.outlineList_append (ds es : List Declarator) :
    Declarator.outlineList (ds ++ es) = Declarator.outlineList ds ++ Declarator.outlineList es := by
  induction ds with
  | nil => rfl
  | cons d ds ih =>
    cases d
    rw [cons_append, Declarator.outlineList, Declarator.outlineList, ih, append_assoc]

theorem Declarator.partsList_append (ds es : List Declarator) :
    Declarator.partsList (ds ++ es) = Declarator.partsList ds ++ Declarator.partsList es := by
  induction ds with
  | nil => rfl
  | cons d ds ih =>
    cases d
    rw [cons_append, Declarator.partsList, Declarator.partsList, ih]
    simp only [Parts.append_assoc]

theorem Case.outlineList_append (cs ds : List Case) :
    Case.outlineList (cs ++ ds) = Case.outlineList cs ++ Case.outlineList ds := by
  induction cs with
  | nil => rfl
  | cons c cs ih =>
    cases c
    rw [cons_append, Case.outlineList, Case.outlineList, ih, append_assoc]

theorem Case.partsList_append (cs ds : List Case) :
    Case.partsList (cs ++ ds) = Case.partsList cs ++ Case.partsList ds := by
  induction cs with
  | nil => rfl
  | cons c cs ih =>
    cases c
    rw [cons_append, Case.partsList, Case.partsList, ih]
    simp only [Parts.append_assoc]

section Laid

variable (src : Text) (lo hi : Point)

abbrev Expr.Laid (e : Expr) : Prop :=
  Between src lo hi e.outline (e.parts true).flat e.attached

abbrev Expr.LaidAll (es : List Expr) : Prop :=
  Between src lo hi (Expr.outlineList es) (Expr.partsList true es).flat (Expr.attachedList es)

abbrev Expr.Laid? (x : Option Expr) : Prop :=
  Between src lo hi (Expr.outline? x) (Expr.parts? true x).flat (Expr.attached? x)

abbrev Stmt.Laid (s : Stmt) : Prop := Between src lo hi s.outline s.parts.flat s.attached

abbrev Stmt.LaidAll (ss : List Stmt) : Prop :=
  Between src lo hi (Stmt.outlineList ss) (Stmt.partsList ss).flat (Stmt.attachedList ss)

abbrev Block.Laid (b : Block) : Prop := Between src lo hi b.outline b.parts.flat b.attached

abbrev Body.Laid (b : Body) : Prop := Between src lo hi b.outline b.parts.flat b.attached

abbrev Func.Laid (f : Func) : Prop := Between src lo hi f.outline f.parts.flat f.attached

abbrev VarDecl.Laid (d : VarDecl) : Prop := Between src lo hi d.outline d.parts.flat d.attached

abbrev ForHead.Laid (h : ForHead) : Prop :=
  Between src lo hi h.outline (h.parts true).flat h.attached

abbrev Declarator.LaidAll (ds : List Declarator) : Prop :=
  Between src lo hi (Declarator.outlineList ds) (Declarator.partsList ds).flat
    (Declarator.attachedList ds)

abbrev Case.LaidAll (cs : List Case) : Prop :=
  Between src lo hi (Case.outlineList cs) (Case.partsList cs).flat (Case.attachedList cs)

end Laid

/-- A statement as it was read, without comments yet. -/
structure Stmt.Stands (src : Text) (a b : Point) (s : Stmt) : Prop where
  mark : s.mark = .ofSpan ⟨a.pos, b.pos⟩
  laid : s.Laid src a b

/-- The outline of an expression is one node above `os`, its parts are the expression and `ps`, and
it holds `as`. It has the targets that its place allows. -/
def Expr.IsNode (e : Expr) (k : NodeKind) (span : Span) (os : List Outline) (ps : List Part)
    (as : List Attachment) : Prop :=
  e.outline = Outline.above ⟨k, .ofSpan span, []⟩ os ∧ (e.parts true).flat = .expr e :: ps ∧
    e.attached = as ∧ k ≠ .ident ∧ Part.literals (.expr e) = [] ∧ Part.wellAimed (.expr e) = true

def Stmt.IsNode (s : Stmt) (k : NodeKind) (span : Span) (os : List Outline) (ps : List Part)
    (as : List Attachment) : Prop :=
  s.mark = .ofSpan span ∧ s.outline = Outline.above ⟨k, .ofSpan span, []⟩ os ∧
    s.parts.flat = .stmt s :: ps ∧ s.attached = as ∧ k ≠ .ident ∧ Part.wellAimed (.stmt s) = true

namespace Between

variable {src : Text} {lo mid mid' hi a b : Point} {os : List Outline} {ps : List Part}
  {as : List Attachment}

theorem concat (h : Expr.LaidAll src lo mid es) (he : e.Laid src mid' hi) (hmid : mid ≤ mid') :
    Expr.LaidAll src lo hi (es ++ [e]) := by
  have := h.append he hmid
  simpa [Expr.LaidAll, Expr.outlineList_append, Expr.outlineList, Expr.partsList,
    Expr.attachedList] using this

theorem concatStmt (h : Stmt.LaidAll src lo mid ss) (hs : s.Laid src mid' hi) (hmid : mid ≤ mid') :
    Stmt.LaidAll src lo hi (ss ++ [s]) := by
  have := h.append hs hmid
  simpa [Stmt.LaidAll, Stmt.outlineList_append, Stmt.outlineList, Stmt.partsList_append,
    Stmt.partsList, Stmt.attachedList] using this

theorem node (k : NodeKind) (h : Between src lo hi os ps as) (hlo : a ≤ lo) (hhi : hi ≤ b)
    (hk : k ≠ .ident) :
    Between src a b (Outline.above ⟨k, .ofSpan ⟨a.pos, b.pos⟩, []⟩ os) ps as :=
  (h.mono hlo hhi).above rfl rfl fun hident => absurd hident hk

theorem expr {e : Expr} (k : NodeKind) (h : Between src lo hi os ps as) (hlo : a ≤ lo)
    (hhi : hi ≤ b) (he : e.wellFormed = true) (hnode : e.IsNode k ⟨a.pos, b.pos⟩ os ps as) :
    e.Laid src a b := by
  obtain ⟨houtline, hparts, rfl, hk, hliterals, haimed⟩ := hnode
  have hsound : Part.Sound src (.expr e) := ⟨he, by simp [hliterals], haimed⟩
  have := (h.node k hlo hhi hk).part hsound
  rwa [← houtline, ← hparts] at this

theorem stmt (k : NodeKind) (h : Between src lo hi os ps as) (hlo : a ≤ lo) (hhi : hi ≤ b)
    (hs : s.wellFormed = true) (hnode : s.IsNode k ⟨a.pos, b.pos⟩ os ps as)
    (hliterals : ∀ l ∈ Part.literals (.stmt s), l.Spelled src) : s.Stands src a b := by
  obtain ⟨hmark, houtline, hparts, rfl, hk, haimed⟩ := hnode
  have hsound : Part.Sound src (.stmt s) := ⟨hs, hliterals, haimed⟩
  have := (h.node k hlo hhi hk).part hsound
  rw [← houtline, ← hparts] at this
  exact ⟨hmark, this⟩

end Between

/-! Comments. -/

namespace Stmt

variable {s : Stmt} {m : Mark}

theorem bareList_withMark (h : m.span = s.mark.span) :
    bareList (s.withMark m).outline = bareList s.outline := by
  cases s with
  | varDecl d =>
    cases d
    simp_all [withMark, VarDecl.withMark, outline, VarDecl.outline, Node.bare, mark, VarDecl.mark]
  | block b =>
    cases b
    simp_all [withMark, outline, Block.outline, Node.bare, mark, Block.mark]
  | empty | debugger =>
    simp_all [withMark, outline, Node.bare, mark, Outline.leaf, bareList, Outline.bare]
  | _ => simp_all [withMark, outline, Node.bare, mark]

theorem flat_parts_withMark : ∃ ps, s.parts.flat = .stmt s :: ps ∧
    (s.withMark m).parts.flat = .stmt (s.withMark m) :: ps := by
  cases s with
  | varDecl d =>
    cases d
    simp [withMark, parts, VarDecl.withMark, VarDecl.parts]
  | block b =>
    cases b
    simp [withMark, parts, Block.parts]
  | _ => simp [withMark, parts]

theorem literals_withMark : Part.literals (.stmt (s.withMark m)) = Part.literals (.stmt s) := by
  cases s with
  | block b =>
    cases b
    rfl
  | _ => rfl

theorem wellAimed_withMark : Part.wellAimed (.stmt (s.withMark m)) = Part.wellAimed (.stmt s) := by
  cases s with
  | varDecl d =>
    cases d
    rfl
  | block b =>
    cases b
    rfl
  | _ => rfl

theorem laid_addLead (h : s.Stands src ⟨a.pos, a.settled ++ cs⟩ b)
    (hcs : ∀ c ∈ cs, c.span.stop.offset ≤ a.offset) : (s.addLead cs).Laid src a b := by
  obtain ⟨hmark, h⟩ := h
  have hspan : ({ s.mark with lead := s.mark.lead ++ cs } : Mark).span = s.mark.span := rfl
  obtain ⟨ps, hps, hps'⟩ := flat_parts_withMark (s := s)
    (m := { s.mark with lead := s.mark.lead ++ cs })
  have hsound := h.sound
  rw [hps, forall_mem_cons] at hsound
  obtain ⟨⟨hs, hliterals, haimed⟩, hrest⟩ := hsound
  have hsame : Between src ⟨a.pos, a.settled ++ cs⟩ b (s.addLead cs).outline
      (s.addLead cs).parts.flat s.attached := by
    refine h.congr (bareList_withMark hspan) ?_
    rw [addLead, hps', forall_mem_cons]
    refine ⟨⟨?_, ?_, ?_⟩, hrest⟩
    · exact (wellFormed_withMark hspan).trans hs
    · rw [literals_withMark]
      exact hliterals
    · rw [wellAimed_withMark]
      exact haimed
  have hattached := attached_addLead hmark cs
  refine { hsame with held := ?_, before := ?_ }
  · simpa [hattached, Function.comp_def] using h.held
  · rw [hattached, forall_mem_append, forall_mem_map]
    exact ⟨hcs, h.before⟩

end Stmt

/-! Patterns. -/

/-- The parts on the right are sound, what they hold is the same as on the left, and their outlines
differ in kinds only. -/
structure Recast (src : Text) (os os' : List Outline) (ps : List Part) (as as' : List Attachment) :
    Prop where
  bare : bareList os' = bareList os
  attached : as' = as
  sound : ∀ x ∈ ps, x.Sound src

abbrev Expr.Recasts (src : Text) (e e' : Expr) : Prop :=
  Recast src e.outline e'.outline (e'.parts true).flat e.attached e'.attached

abbrev Expr.RecastsAll (src : Text) (es es' : List Expr) : Prop :=
  Recast src (Expr.outlineList es) (Expr.outlineList es') (Expr.partsList true es').flat
    (Expr.attachedList es) (Expr.attachedList es')

namespace Recast

variable {src : Text} {os os' qs qs' : List Outline} {ps rs : List Part}
  {as as' bs bs' : List Attachment}

theorem refl (h : ∀ x ∈ ps, x.Sound src) : Recast src os os ps as as := ⟨rfl, rfl, h⟩

theorem append (h : Recast src os os' ps as as') (h' : Recast src qs qs' rs bs bs') :
    Recast src (os ++ qs) (os' ++ qs') (ps ++ rs) (as ++ bs) (as' ++ bs') := by
  refine ⟨?_, congrArg₂ _ h.attached h'.attached, forall_mem_append.2 ⟨h.sound, h'.sound⟩⟩
  rw [Outline.bareList_append, Outline.bareList_append, h.bare, h'.bare]

theorem cons (h : e.Recasts src e') (h' : Expr.RecastsAll src es es') :
    Expr.RecastsAll src (e :: es) (e' :: es') := by
  simpa [Expr.RecastsAll, Expr.outlineList, Expr.partsList, Expr.attachedList] using h.append h'

theorem above (h : Recast src os os' ps as as') (hk : k ≠ .ident) (hl : l ≠ .ident)
    (hx : x.Sound src) :
    Recast src (Outline.above ⟨k, m, []⟩ os) (Outline.above ⟨l, m, []⟩ os') (x :: ps) as as' := by
  refine ⟨?_, h.attached, forall_mem_cons.2 ⟨hx, h.sound⟩⟩
  rw [Outline.bareList_above, Outline.bareList_above, h.bare]
  simp [Node.bare, hk, hl]

theorem between (h : Recast src os os' ps as as') (hos : Between src a b os rs as) :
    Between src a b os' ps as' := by
  rw [h.attached]
  exact hos.congr h.bare h.sound

end Recast

variable {src : Text}

theorem Expr.recast_spread (hs : ∀ y ∈ ((Expr.spread m x).parts true).flat, y.Sound src)
    (h : (∀ y ∈ (x.parts true).flat, y.Sound src) → x.Recasts src x' ∧
      (x.isValue = true → x'.isValue = true ∧ x'.isPlace = true)) :
    (Expr.spread m x).Recasts src (.rest m x') ∧ (Expr.rest m x').isPlace = true := by
  simp only [Expr.parts, Parts.flat_when, Parts.flat_above, forall_mem_cons] at hs
  obtain ⟨hrecast, hvalue⟩ := h hs.2
  obtain ⟨hvalue, hplace⟩ := hvalue hs.1.wellFormed
  have := hrecast.above (m := m) (k := .spreadElem) (l := .restElem) (x := .expr (.rest m x'))
    (by decide) (by decide) ⟨hvalue, by simp [Part.literals], hplace⟩
  refine ⟨?_, hplace⟩
  simpa [Expr.Recasts, Expr.outline, Expr.parts, Expr.attached] using this

theorem Expr.recast_property
    (hs : ∀ y ∈ ((Expr.property m shape key x).parts true).flat, y.Sound src)
    (h : (∀ y ∈ (x.parts true).flat, y.Sound src) → x.Recasts src x' ∧
      (x.isValue = true → x'.isValue = true ∧ x'.isPlace = true)) :
    (Expr.property m shape key x).Recasts src (.property m shape key x') ∧
      (Expr.property m shape key x').isPlace = true := by
  simp only [Expr.parts, Parts.flat_when, Parts.flat_above, Parts.flat_append,
    forall_mem_cons, forall_mem_append] at hs
  obtain ⟨hproperty, hkey, hx⟩ := hs
  have hvalues : key.isValue = true ∧ x.isValue = true := by
    simpa [Part.wellFormed, Expr.wellFormed] using hproperty.wellFormed
  obtain ⟨hrecast, hvalue⟩ := h hx
  have hkey : key.Recasts src key := .refl hkey
  have := (hkey.append hrecast).above (m := m) (k := .property) (l := .property)
    (x := .expr (.property m shape key x')) (by decide) (by decide)
    ⟨by simp [Part.wellFormed, Expr.wellFormed, hvalues.1, (hvalue hvalues.2).1],
      by simp [Part.literals], hproperty.wellAimed⟩
  refine ⟨?_, (hvalue hvalues.2).2⟩
  simpa [Expr.Recasts, Expr.outline, Expr.parts, Expr.attached] using this

mutual

theorem Expr.recast_pattern (binding : Bool) : ∀ e e' : Expr, e.pattern binding = .ok (e', []) →
    (∀ x ∈ (e.parts true).flat, x.Sound src) →
    e.Recasts src e' ∧ (e.isValue = true → e'.isValue = true ∧ e'.isPlace = true)
  | e, e', h, hs => by
    cases e with
    | ident | arrayPattern | objectPattern | assignPattern =>
      cases h
      exact ⟨.refl hs, fun _ => ⟨rfl, rfl⟩⟩
    | rest =>
      cases h
      exact ⟨.refl hs, nofun⟩
    | array m es =>
      obtain ⟨es', hes, rfl⟩ := pair_of_bind_eq_ok h
      rw [Expr.parts, Parts.flat_when, Parts.flat_above, forall_mem_cons] at hs
      obtain ⟨hrecast, hlast, hplaces⟩ := Expr.recast_elems binding es es' hes hs.2
        (all_eq_true.1 hs.1.wellFormed)
      refine ⟨?_, fun _ => ⟨rfl, rfl⟩⟩
      have := hrecast.above (m := m) (k := .arrayLit) (l := .arrayPattern)
        (x := .expr (.arrayPattern m es')) (by decide) (by decide)
        ⟨hlast, by simp [Part.literals], all_eq_true.2 hplaces⟩
      simpa [Expr.Recasts, Expr.outline, Expr.parts, Expr.attached] using this
    | object m es =>
      obtain ⟨es', hes, rfl⟩ := pair_of_bind_eq_ok h
      rw [Expr.parts, Parts.flat_when, Parts.flat_above, forall_mem_cons] at hs
      obtain ⟨hrecast, hlast, hplaces⟩ := Expr.recast_members binding es es' hes hs.2
        (all_eq_true.1 hs.1.wellFormed)
      refine ⟨?_, fun _ => ⟨rfl, rfl⟩⟩
      have := hrecast.above (m := m) (k := .objectLit) (l := .objectPattern)
        (x := .expr (.objectPattern m es')) (by decide) (by decide)
        ⟨hlast, by simp [Part.literals], all_eq_true.2 hplaces⟩
      simpa [Expr.Recasts, Expr.outline, Expr.parts, Expr.attached] using this
    | assign m op left right =>
      cases op with
      | set =>
        rw [Expr.pattern] at h
        obtain ⟨left', hleft, rfl⟩ :=
          pair_of_bind_eq_ok (f := fun l => Expr.assignPattern m l right) h
        simp only [Expr.parts, Parts.flat_when, Parts.flat_above, Parts.flat_append,
          Expr.flat_parts, forall_mem_cons, forall_mem_append] at hs
        obtain ⟨hassign, hsleft, hsright⟩ := hs
        have hvalues : left.isValue = true ∧ right.isValue = true := by
          simpa [Part.wellFormed, Expr.wellFormed] using hassign.wellFormed
        obtain ⟨hrecast, hvalue⟩ := Expr.recast_pattern binding left left' hleft hsleft
        obtain ⟨hvalue, hplace⟩ := hvalue hvalues.1
        refine ⟨?_, fun _ => ⟨rfl, rfl⟩⟩
        have hright : right.Recasts src right := .refl hsright
        have := (hrecast.append hright).above (m := m) (k := .assignExpr) (l := .assignPattern)
          (x := .expr (.assignPattern m left' right)) (by decide) (by decide)
          ⟨by simp [Part.wellFormed, Expr.wellFormed, hvalue, hvalues.2],
            by simp [Part.literals], hplace⟩
        simpa [Expr.Recasts, Expr.outline, Expr.parts, Expr.attached] using this
      | _ => cases h
    | member _ _ _ _ optional =>
      cases optional with
      | false =>
        rw [Expr.pattern] at h
        obtain ⟨rfl, _⟩ := Prod.mk.inj (Except.ok.inj h)
        exact ⟨.refl hs, fun _ => ⟨rfl, rfl⟩⟩
      | true => cases h
    | _ => cases h

theorem Expr.recast_elems (binding : Bool) : ∀ es es' : List Expr,
    Expr.patternElems binding es = .ok (es', []) →
    (∀ x ∈ (Expr.partsList true es).flat, x.Sound src) → (∀ e ∈ es, e.isElement = true) →
    Expr.RecastsAll src es es' ∧ Expr.restLast Expr.isSlot es' = true ∧
      ∀ e ∈ es', e.isPlace = true
  | [], _, h, hs, _ => by
    cases h
    exact ⟨.refl hs, rfl, nofun⟩
  | e :: es, es', h, hs, he => by
    rw [Expr.partsList, Parts.flat_append, forall_mem_append] at hs
    rw [forall_mem_cons] at he
    have hrest := fun es' h => Expr.recast_elems binding es es' h hs.2 he.2
    cases e with
    | hole =>
      rw [Expr.patternElems] at h
      obtain ⟨es', hes, rfl⟩ := pair_of_bind_eq_ok (f := (Expr.hole :: ·)) h
      obtain ⟨hrecast, hlast, hplaces⟩ := hrest es' hes
      exact ⟨Recast.cons (.refl hs.1) hrecast, Expr.restLast_cons.2 ⟨.inl rfl, hlast⟩,
        forall_mem_cons.2 ⟨rfl, hplaces⟩⟩
    | spread m x =>
      rw [Expr.patternElems] at h
      obtain ⟨x', es', hx, hes, rfl, hempty⟩ :=
        pairs_of_bind_eq_ok (f := fun x es => Expr.rest m x :: es) h
      obtain ⟨hrecast, hlast, hplaces⟩ := hrest es' hes
      obtain ⟨hspread, hplace⟩ := Expr.recast_spread hs.1 (Expr.recast_pattern binding x x' hx)
      refine ⟨hspread.cons hrecast, Expr.restLast_cons.2 ⟨.inr ⟨rfl, ?_⟩, hlast⟩,
        forall_mem_cons.2 ⟨hplace, hplaces⟩⟩
      have : es = [] := by simpa using hempty
      cases this
      cases hes
      rfl
    | property | rest => cases he.1
    | _ =>
      rw [Expr.patternElems_cons rfl] at h
      obtain ⟨e', es', hx, hes, rfl, _⟩ := pairs_of_bind_eq_ok (f := cons) (m := []) h
      obtain ⟨hrecast, hlast, hplaces⟩ := hrest es' hes
      obtain ⟨hrecast', hvalue⟩ := Expr.recast_pattern binding _ e' hx hs.1
      obtain ⟨hvalue, hplace⟩ := hvalue rfl
      exact ⟨hrecast'.cons hrecast,
        Expr.restLast_cons.2 ⟨.inl (Expr.isSlot_of_isValue hvalue), hlast⟩,
        forall_mem_cons.2 ⟨hplace, hplaces⟩⟩

theorem Expr.recast_members (binding : Bool) : ∀ es es' : List Expr,
    Expr.patternMembers binding es = .ok (es', []) →
    (∀ x ∈ (Expr.partsList true es).flat, x.Sound src) → (∀ e ∈ es, e.isMember = true) →
    Expr.RecastsAll src es es' ∧ Expr.restLast Expr.isField es' = true ∧
      ∀ e ∈ es', e.isPlace = true
  | [], _, h, hs, _ => by
    cases h
    exact ⟨.refl hs, rfl, nofun⟩
  | e :: es, es', h, hs, he => by
    rw [Expr.partsList, Parts.flat_append, forall_mem_append] at hs
    rw [forall_mem_cons] at he
    have hrest := fun es' h => Expr.recast_members binding es es' h hs.2 he.2
    cases e with
    | spread m x =>
      rw [Expr.patternMembers] at h
      obtain ⟨x', es', hx, hes, rfl, hempty⟩ :=
        pairs_of_bind_eq_ok (f := fun x es => Expr.rest m x :: es) h
      obtain ⟨hrecast, hlast, hplaces⟩ := hrest es' hes
      obtain ⟨hspread, hplace⟩ := Expr.recast_spread hs.1 (Expr.recast_pattern binding x x' hx)
      refine ⟨hspread.cons hrecast, Expr.restLast_cons.2 ⟨.inr ⟨rfl, ?_⟩, hlast⟩,
        forall_mem_cons.2 ⟨hplace, hplaces⟩⟩
      have : es = [] := by simpa using hempty
      cases this
      cases hes
      rfl
    | property m shape key value =>
      rw [Expr.patternMembers] at h
      split at h
      · -- A method or an accessor is a fault.
        obtain ⟨⟨es', ms⟩, _, h⟩ := exists_of_bind_eq_ok h
        cases h
      · next hshape =>
        obtain ⟨value', es', hvalue, hes, rfl, _⟩ :=
          pairs_of_bind_eq_ok (f := fun x es => Expr.property m shape key x :: es) (m := []) h
        obtain ⟨hrecast, hlast, hplaces⟩ := hrest es' hes
        obtain ⟨hproperty, hplace⟩ :=
          Expr.recast_property hs.1 (Expr.recast_pattern binding value value' hvalue)
        have hfield : (Expr.property m shape key value').isField = true := by
          simpa [Expr.isField, and_comm] using hshape
        exact ⟨hproperty.cons hrecast, Expr.restLast_cons.2 ⟨.inl hfield, hlast⟩,
          forall_mem_cons.2 ⟨hplace, hplaces⟩⟩
    | _ => cases he.1

end

theorem Expr.recast_params (es : List Expr) : ∀ es' : List Expr,
    Expr.patternParams es = .ok (es', []) →
    (∀ x ∈ (Expr.partsList true es).flat, x.Sound src) →
    Expr.restLast Expr.isArgument es = true →
    Expr.RecastsAll src es es' ∧ Expr.restLast Expr.isValue es' = true := by
  induction es with
  | nil =>
    intro es' h hs _
    cases h
    exact ⟨.refl hs, rfl⟩
  | cons e es ih =>
    intro es' h hs he
    rw [Expr.partsList, Parts.flat_append, forall_mem_append] at hs
    rw [Expr.restLast_cons] at he
    by_cases hvalue : e.isValue = true
    · rw [Expr.patternParams_cons hvalue] at h
      obtain ⟨e', es', hx, hes, rfl, _⟩ := pairs_of_bind_eq_ok (f := cons) (m := []) h
      obtain ⟨hrecast, hlast⟩ := ih es' hes hs.2 he.2
      obtain ⟨hrecast', hvalue'⟩ := Expr.recast_pattern true _ e' hx hs.1
      exact ⟨hrecast'.cons hrecast, Expr.restLast_cons.2 ⟨.inl (hvalue' hvalue).1, hlast⟩⟩
    · cases e with
      | spread m x =>
        obtain ⟨x', es', hx, hes, rfl, hempty⟩ :=
          pairs_of_bind_eq_ok (f := fun x es => Expr.rest m x :: es) h
        obtain ⟨hrecast, hlast⟩ := ih es' hes hs.2 he.2
        obtain ⟨hspread, _⟩ := Expr.recast_spread hs.1 (Expr.recast_pattern true x x' hx)
        refine ⟨hspread.cons hrecast, Expr.restLast_cons.2 ⟨.inr ⟨rfl, ?_⟩, hlast⟩⟩
        have : es = [] := by simpa using hempty
        cases this
        cases hes
        rfl
      | rest m x =>
        rcases he.1 with hargument | ⟨_, rfl⟩
        · cases hargument
        · cases h
          exact ⟨Recast.cons (.refl hs.1) (.refl hs.2), rfl⟩
      | _ =>
        rcases he.1 with hargument | ⟨hrest, _⟩
        · exact absurd hargument hvalue
        · cases hrest

end LabelHooks
