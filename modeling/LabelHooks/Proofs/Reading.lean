import LabelHooks.Proofs.ReadsStatements
import LabelHooks.Proofs.Relayout

/-!
What an accepted source is read as. Its statements are laid out in it. Nothing but words stands
where the pass does not look: targets are patterns or references, operands of an update are
references, and names of members and properties are names unless they are computed. Comments are
attached to the statements behind them.
-/

namespace LabelHooks
set_option autoImplicit true

def Part.Aimed (x : Part) : Prop := x.wellFormed = true ∧ x.wellAimed = true

namespace Parts

@[simp] theorem visited_nil : Visited .nil := rfl

@[simp] theorem visited_true : (when true ps).Visited ↔ ps.Visited := Iff.rfl

theorem visited_when {seen : Bool} {e : Expr} (h : (seen || e.isWord) = true)
    (he : (e.parts true).Visited) : (when seen (e.parts true)).Visited := by
  cases seen with
  | true => exact he
  | false =>
    rw [when, visited_skip]
    cases e with
    | ident | literal =>
      rw [Expr.parts, flat_when]
      rintro x (_ | ⟨_, ⟨⟩⟩)
      rfl
    | _ => cases h

/-- Parts that are all as they are read; then nothing but words is skipped. -/
def Looked (ps : Parts) : Prop := ps.All Part.Aimed → ps.Visited

namespace Looked

theorem nil : Looked .nil := fun _ => rfl

theorem append (hx : Looked ps) (hy : Looked qs) : Looked (ps ++ qs) := by
  intro hs
  rw [all_append] at hs
  exact visited_append.2 ⟨hx hs.1, hy hs.2⟩

theorem above (h : x.Aimed → Looked ps) : Looked (.above x ps) := by
  intro hs
  rw [all_above] at hs
  exact visited_above.2 (h hs.1 hs.2)

theorem word {e : Expr} (hword : (seen || e.isWord) = true) (h : Looked (e.parts true)) :
    Looked (when seen (e.parts true)) :=
  fun hs => visited_when hword (h (all_when.1 hs))

theorem value {e : Expr} (h : seen = true ∨ e.isPlace = true) (he : e.isPlace = false)
    (hlooked : Looked (e.parts true)) : Looked (e.parts seen) := by
  rw [he] at h
  rwa [h.resolve_right nofun]

end Looked
end Parts

open Parts Parts.Looked in
mutual

theorem Expr.visited (seen : Bool) : ∀ e : Expr, seen = true ∨ e.isPlace = true →
    Looked (e.parts seen)
  | .hole, _ => nil
  | .ident _, _ => fun _ => by cases seen <;> rfl
  | .literal _, h | .this _, h | .super _, h => value h rfl fun _ => rfl
  | .template _ tag _ es, h => value h rfl (above fun _ =>
    (Expr.visited? true tag (.inl rfl)).append (Expr.visitedList true es (.inl rfl)))
  | .array _ es, h | .object _ es, h | .seq _ es, h =>
    value h rfl (above fun _ => Expr.visitedList true es (.inl rfl))
  | .property _ shape key v, h => above fun ⟨_, haimed⟩ =>
    (word (by simpa using haimed) (key.visited true (.inl rfl))).append (v.visited seen h)
  | .spread _ x, h | .unary _ _ x, h | .await _ x, h =>
    value h rfl (above fun _ => x.visited true (.inl rfl))
  | .function _ f, h => value h rfl (above fun ⟨_, haimed⟩ => f.visited (by simpa using haimed))
  | .arrow _ _ ps body, h => value h rfl (above fun ⟨_, haimed⟩ => by
    have hfits : ∀ e ∈ ps, (e.leaves false).all (Expr.fits true) = true := by
      simpa using (Bool.and_eq_true_iff.1 haimed).1
    exact (Expr.visitedList false ps (.inr fun e he => Expr.isPlace_of_fits (hfits e he))).append
      body.visited)
  | .update _ _ _ x, h => value h rfl (above fun ⟨hform, _⟩ => by
    have hx := x.visited false
    cases x with
    | ident | member => exact hx (.inr rfl)
    | _ => cases hform)
  | .binary _ _ x y, h =>
    value h rfl (above fun _ => (x.visited true (.inl rfl)).append (y.visited true (.inl rfl)))
  | .assign _ _ x y, h => value h rfl (above fun ⟨_, haimed⟩ =>
    (x.visited false (.inr (Expr.isPlace_of_isTarget (by simpa using haimed)))).append
      (y.visited true (.inl rfl)))
  | .cond _ x y z, h => value h rfl (above fun _ =>
    ((x.visited true (.inl rfl)).append (y.visited true (.inl rfl))).append
      (z.visited true (.inl rfl)))
  | .call _ x es _, h | .new _ x es, h => value h rfl (above fun _ =>
    (x.visited true (.inl rfl)).append (Expr.visitedList true es (.inl rfl)))
  | .member _ x prop _ _, _ => above fun ⟨_, haimed⟩ => (x.visited true (.inl rfl)).append
    (word (by simpa using (Bool.and_eq_true_iff.1 (Bool.and_eq_true_iff.1 haimed).2).2)
      (prop.visited true (.inl rfl)))
  | .yield _ _ x, h => value h rfl (above fun _ => Expr.visited? true x (.inl rfl))
  | .arrayPattern _ es, _ | .objectPattern _ es, _ => above fun ⟨_, haimed⟩ =>
    Expr.visitedList false es (.inr (by simpa using haimed))
  | .assignPattern _ x y, _ => above fun ⟨_, haimed⟩ =>
    (x.visited false (.inr (by simpa using haimed))).append (y.visited true (.inl rfl))
  | .rest _ x, _ => above fun ⟨_, haimed⟩ => x.visited false (.inr (by simpa using haimed))

theorem Expr.visited? (seen : Bool) : ∀ x : Option Expr,
    (seen = true ∨ ∀ e ∈ x, e.isPlace = true) → Looked (Expr.parts? seen x)
  | none, _ => nil
  | some e, h => e.visited seen (h.imp_right fun h => h e rfl)

theorem Expr.visitedList (seen : Bool) : ∀ es : List Expr,
    (seen = true ∨ ∀ e ∈ es, e.isPlace = true) → Looked (Expr.partsList seen es)
  | [], _ => nil
  | e :: es, h => by
    rw [List.forall_mem_cons] at h
    exact (e.visited seen (h.imp_right And.left)).append
      (Expr.visitedList seen es (h.imp_right And.right))

theorem Body.visited : ∀ b : Body, Looked b.parts
  | .block b => b.visited
  | .expr e => e.visited true (.inl rfl)

theorem Func.visited : ∀ f : Func, (∀ e ∈ f.params, e.binds = true) → Looked f.parts
  | .mk _ _ ps body _ _, h =>
    (Expr.visitedList false ps (.inr fun e he => Expr.isPlace_of_binds (h e he))).append
      body.visited

theorem Block.visited : ∀ b : Block, Looked b.parts
  | .mk _ list => Stmt.visitedList list

theorem Block.visited? : ∀ b : Option Block, Looked (Block.parts? b)
  | none => nil
  | some b => b.visited

theorem Declarator.visitedList : ∀ ds : List Declarator,
    (∀ e ∈ ds.map Declarator.target, e.binds = true) → Looked (Declarator.partsList ds)
  | [], _ => nil
  | .mk _ target init :: ds, h => by
    rw [List.map_cons, List.forall_mem_cons] at h
    exact ((target.visited false (.inr (Expr.isPlace_of_binds h.1))).append
      (Expr.visited? true init (.inl rfl))).append (Declarator.visitedList ds h.2)

theorem VarDecl.visited : ∀ d : VarDecl, (∀ e ∈ d.targets, e.binds = true) → Looked d.parts
  | .mk _ _ ds, h => Declarator.visitedList ds h

theorem ForHead.visited (seen : Bool) : ∀ x : ForHead, seen = true ∨ x.isTarget = true →
    (∀ e ∈ x.targets, e.binds = true) → Looked (x.parts seen)
  | .decl d, _, hbinds => d.visited hbinds
  | .expr e, h, _ => e.visited seen (h.imp_right Expr.isPlace_of_isTarget)

theorem ForHead.visited? : ∀ x : Option ForHead,
    (∀ e ∈ x.toList.flatMap ForHead.targets, e.binds = true) → Looked (ForHead.parts? x)
  | none, _ => nil
  | some x, h => x.visited true (.inl rfl) (by simpa using h)

theorem Catch.visited? : ∀ c : Option Catch,
    (∀ e ∈ c.toList.flatMap Catch.targets, e.binds = true) → Looked (Catch.parts? c)
  | none, _ => nil
  | some (.mk _ param body), h => by
    have hplace : ∀ e ∈ param, e.isPlace = true := fun e he =>
      Expr.isPlace_of_binds (h e (by simpa [Catch.targets] using he))
    exact (Expr.visited? false param (.inr hplace)).append body.visited

theorem Case.visitedList : ∀ cs : List Case, Looked (Case.partsList cs)
  | [] => nil
  | .mk _ test body :: cs =>
    ((Expr.visited? true test (.inl rfl)).append (Stmt.visitedList body)).append
      (Case.visitedList cs)

theorem Stmt.visited : ∀ s : Stmt, Looked s.parts
  | .varDecl d => above fun ⟨_, haimed⟩ => d.visited (by simpa using haimed)
  | .funcDecl _ f => above fun ⟨_, haimed⟩ => f.visited (by simpa using haimed)
  | .expr _ x | .throw _ x | .exportValue _ x => above fun _ => x.visited true (.inl rfl)
  | .block b => above fun _ => b.visited
  | .labeled _ _ body | .exportDecl _ _ body => above fun _ => body.visited
  | .ret _ x => above fun _ => Expr.visited? true x (.inl rfl)
  | .ifElse _ test yes no => above fun _ =>
    ((test.visited true (.inl rfl)).append yes.visited).append (Stmt.visited? no)
  | .forLoop _ init test post body => above fun ⟨_, haimed⟩ => by
    have hbinds : ∀ e ∈ init.toList.flatMap ForHead.targets, e.binds = true := by
      rw [← List.all_eq_true]
      simpa using haimed
    exact (((ForHead.visited? init hbinds).append (Expr.visited? true test (.inl rfl))).append
      (Expr.visited? true post (.inl rfl))).append body.visited
  | .forIn _ left right body _ _ => above fun ⟨_, haimed⟩ => by
    have hhead : (∀ e ∈ left.targets, e.binds = true) ∧ left.isTarget = true := by
      simpa using haimed
    exact ((left.visited false (.inr hhead.2) hhead.1).append
      (right.visited true (.inl rfl))).append body.visited
  | .whileLoop _ test body => above fun _ => (test.visited true (.inl rfl)).append body.visited
  | .doWhile _ body test => above fun _ => body.visited.append (test.visited true (.inl rfl))
  | .tryCatch _ block handler finalizer => above fun ⟨_, haimed⟩ => by
    have hbinds : ∀ e ∈ handler.toList.flatMap Catch.targets, e.binds = true := by
      rw [← List.all_eq_true]
      simpa using haimed
    exact (block.visited.append (Catch.visited? handler hbinds)).append
      (Block.visited? finalizer)
  | .switch _ disc cases => above fun _ =>
    (disc.visited true (.inl rfl)).append (Case.visitedList cases)
  | .branch _ _ _ | .empty _ | .debugger _ | .imports _ _ _ | .exportAll _ _ _
  | .exportNames _ _ _ => above fun _ => nil

theorem Stmt.visited? : ∀ s : Option Stmt, Looked (Stmt.parts? s)
  | none => nil
  | some s => s.visited

theorem Stmt.visitedList : ∀ ss : List Stmt, Looked (Stmt.partsList ss)
  | [] => nil
  | s :: ss => s.visited.append (Stmt.visitedList ss)

end

namespace Parse

theorem Reads.program (hr : rs.Lay src) : Reads src hi (Parse.program rs) fun p x q =>
      x.mark.span = ⟨p.token.pos, q.prevEnd⟩ ∧ Stmt.Row src p x.body q ∧
        q.settled.Sublist (x.comments.filter (!·.isPure)) := by
  apply start
  intro o
  apply bind (statementList hr .eof)
  intro body
  apply look (P := fun p b => b.place = p)
  · intro s b s' hrun
    cases hrun
    exact ⟨rfl, rfl⟩
  · intro b
    apply pure
    rintro q _ hb p _ hbody rfl
    rw [← hb] at hbody ⊢
    exact ⟨rfl, hbody, (List.take_sublist _ _).filter _⟩

end Parse

/-- The text is read as a program of which `f` holds. -/
def Text.reads (src : Text) (f : Program → Bool) : Bool :=
  match Program.parse src with
  | .error _ => false
  | .ok p => f p

theorem Text.exists_of_reads (src : Text) (f : Program → Bool) (h : src.reads f = true) :
    ∃ p, Program.parse src = .ok p ∧ f p = true := by
  unfold reads at h
  split at h
  · cases h
  · next p hp => exact ⟨p, hp, h⟩

namespace Program

variable {src : Text} {p : Program}

theorem laid_of_parse (h : parse src = .ok p) : p.body = [] ∨
    (0 ≤ p.mark.span.start.offset ∧ p.mark.span.stop.offset ≤ src.length ∧
      Stmt.LaidAll src ⟨p.mark.span.start, []⟩
        ⟨p.mark.span.stop, p.comments.filter (!·.isPure)⟩ p.body) := by
  rw [parse, Parse.whole_eq] at h
  cases hlexer : Reader.ofLexer (.ofText src) with
  | error c =>
    rw [hlexer] at h
    cases h
  | ok s =>
    rw [hlexer] at h
    change Parse.outcome ((Parse.program (Parse.rulesFor src)).run s) = .ok p at h
    cases hrun : (Parse.program (Parse.rulesFor src)).run s with
    | error c =>
      rw [hrun] at h
      cases h
    | ok out =>
      obtain ⟨x, s'⟩ := out
      rw [hrun, Parse.outcome] at h
      split at h
      · cases h
      · next hfault =>
        cases h
        have hread : Parse.Reads src src.length (Parse.program (Parse.rulesFor src)) _ :=
          .program (Parse.Rules.lay_rules src _ _)
        obtain ⟨hclean, hstands⟩ := hread hrun (Reader.clean_of_fault? hfault)
        have hoffset : (Lexer.ofText src).cursor.pos.offset = 0 := Lexer.ofText_offset src .first
        obtain ⟨hs, hfirst⟩ := Parse.Reads.stands_ofLexer hlexer hclean (Lexer.stands_ofText src)
          (Int.le_of_eq hoffset.symm) (Int.natCast_nonneg _)
        obtain ⟨hs', _, hspan, hbody, hsettled⟩ := hstands hs
        rw [hspan]
        rcases hbody with hnil | hlaid
        · exact .inl hnil
        · rw [hoffset] at hfirst
          exact .inr ⟨hfirst, hs'.place.le, hlaid.mono ⟨Int.le_refl _, List.nil_sublist _⟩
            ⟨Int.le_refl _, hsettled⟩⟩

theorem between_of_parse (h : parse src = .ok p) : Between src (.of 0 [])
    (.of src.length (p.comments.filter (!·.isPure))) (Stmt.outlineList p.body) p.parts.flat
    p.attached := by
  rcases laid_of_parse h with hnil | ⟨hstart, hstop, hlaid⟩
  · rw [parts, attached, hnil]
    exact Between.nil ⟨Int.natCast_nonneg _, List.nil_sublist _⟩
  · exact hlaid.mono ⟨hstart, .refl _⟩ ⟨hstop, .refl _⟩

theorem visited_of_parse (h : parse src = .ok p) : p.parts.Visited :=
  Stmt.visitedList p.body fun x hx =>
    have hsound := (between_of_parse h).sound x hx
    ⟨hsound.wellFormed, hsound.wellAimed⟩

/-- Comments are attached in the order of the source, each at most once, and only to statements
behind them. -/
theorem parse_attached {src : Text} {p : Program} (h : parse src = .ok p) :
    (p.attached.map Attachment.comment).Sublist (p.comments.filter (!·.isPure)) ∧
      ∀ a ∈ p.attached, a.comment.span.stop.offset ≤ a.start.offset := by
  have hbetween := between_of_parse h
  exact ⟨by simpa [Point.of] using hbetween.held, hbetween.before⟩

/-- A statement, another one in a function inside it, and a pure annotation between them. -/
theorem parse_attached_nested :
    let src : Text := "/*a*/ f(/* #__PURE__ */ () => \x7b /*c*/ g; \x7d);"
    ∃ p, parse src = .ok p ∧ p.comments.length = 3 ∧
      p.attached.map (·.comment.text) = (["/*a*/", "/*c*/"] : List Text) ∧
      (p.attached.map Attachment.comment).Sublist (p.comments.filter (!·.isPure)) ∧
      ∀ a ∈ p.attached, a.comment.span.stop.offset ≤ a.start.offset := by
  intro src
  obtain ⟨p, hp, h⟩ := src.exists_of_reads (fun p => decide ((p.comments.length,
    p.attached.map (·.comment.text)) = (3, (["/*a*/", "/*c*/"] : List Text)))) (by decide +kernel)
  obtain ⟨hlength, htexts⟩ := Prod.mk.inj (of_decide_eq_true h)
  exact ⟨p, hp, hlength, htexts, parse_attached hp⟩

/-- No comment is taken before a statement of a case. -/
theorem parse_case_unattached :
    let src : Text := "switch (a) \x7b case 1: /*c*/ b; \x7d"
    ∃ p, parse src = .ok p ∧ p.comments.map Comment.text = (["/*c*/"] : List Text) ∧
      p.attached.length = 0 := by
  intro src
  obtain ⟨p, hp, h⟩ := src.exists_of_reads (fun p => decide ((p.comments.map Comment.text,
    p.attached.length) = ((["/*c*/"] : List Text), 0))) (by decide +kernel)
  exact ⟨p, hp, Prod.mk.inj (of_decide_eq_true h)⟩

end Program
end LabelHooks
