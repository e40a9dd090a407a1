import LabelHooks.Proofs.Relayout

/-!
Reading ends. A reader in lockstep with itself never meets the bound on its steps, for a bound
that is computed from the length of the text; what it reads a substitution from is shorter than
the template literal around it.
-/

namespace LabelHooks
set_option autoImplicit true

theorem Lexer.exists_shows_ofText (src : Text) : ∃ ts e,
    (ofText src).Shows id ts e ∧ feedWeight ts ≤ src.length := by
  have hshifted : Shifted 0 (ofText src) (ofText src) :=
    .ofFragment (Int.add_zero _).symm src
  have hstraight : Straight id 0 (ofText src).limit := by
    intro o _ _
    simp
  have hbehind : (ofText src).Behind := by
    intro f hf
    cases hf
  have hbase : (ofText src).base ≤ (ofText src).cursor.pos.offset := by
    simp [ofText, ofFragment]
  obtain ⟨ts, e, hshows, _, hweight⟩ := hshifted.exists_shows
    (fun o _ _ => congrArg id (Int.add_zero o)) hstraight hbehind (Int.le_refl 0) hbase
    (Int.le_refl _)
  exact ⟨ts, e, hshows, hweight⟩

namespace Parse

theorem Lockstep.soleExpression (hr : InStep v v' n r r') (hσ : σ.weight < n) :
    Lockstep v v' σ (Parse.soleExpression r) (Parse.soleExpression r') fun _ _ _ => True := by
  apply bind (expression hr (by omega))
  intro e e' τ he _ _ _
  apply check
  apply failed
  apply ite
  · intro _
    apply bind (failExpecting _)
    intro _ _ ρ _ _ _ _
    exact pure he trivial
  · intro _
    exact pure he trivial

theorem run_ne_exhausted [Seen α] (src : Text) (rule : Rules → Parse α) (rounds depth : Nat)
    (hrounds : src.length + 2 ≤ rounds) (hdepth : src.length + 2 ≤ depth)
    (hrule : ∀ {n r} {σ : Window}, InStep id id n r r → σ.weight < n →
      Lockstep id id σ (rule r) (rule r) fun _ _ _ => True) :
    (Reader.ofLexer (.ofText src) >>= (rule (rules rounds depth)).run) ≠ .error .exhausted := by
  obtain ⟨ts, e, hshows, hweight⟩ := Lexer.exists_shows_ofText src
  have hr : InStep id id (src.length + 1) (rules rounds depth) (rules rounds depth) :=
    .rules strictMono_id strictMono_id (by omega) (by omega) (by omega) (by omega)
  have hreader := Lockstep.ofLexer hshows rfl
  generalize ((Lockstep.fresh .blank ts e).advanced.bind _).bind _ = window at hreader
  cases window with
  | none =>
    rw [show Reader.ofLexer _ = .error .overrun from hreader]
    exact fun h => nomatch h
  | some σ =>
    obtain ⟨s, hs, hσ, hle⟩ := hreader
    rw [hs]
    change (rule (rules rounds depth)).run s ≠ _
    intro hrun
    have halike := hrule hr (by omega) hσ hσ
    rw [hrun] at halike
    cases halike with
    | crash hc => exact hc rfl

theorem outcome_ne_exhausted (h : x ≠ .error .exhausted) :
    outcome x ≠ .error (.crashed .exhausted) := by
  intro hx
  match x, hx with
  | .error c, hx =>
    cases hx
    exact h rfl
  | .ok (a, s), hx =>
    rw [outcome] at hx
    split at hx <;> cases hx

/-- Source files and single expressions are read in a number of steps that is bounded by the length
of the text: with that many rounds of a loop and that many uses of a rule inside another, or more,
the bound is never met. The source of a substitution is shorter than its template literal. -/
theorem ends (src : Text) :
    (∀ rounds depth, src.length + 2 ≤ rounds → src.length + 2 ≤ depth →
      (Reader.ofLexer (.ofText src) >>= (program (rules rounds depth)).run) ≠ .error .exhausted ∧
      (Reader.ofLexer (.ofText src) >>= (soleExpression (rules rounds depth)).run) ≠
        .error .exhausted) ∧
    Program.parse src ≠ .error (.crashed .exhausted) ∧
    Expr.parse src ≠ .error (.crashed .exhausted) ∧
    ∀ raw p parts, TemplateParts.ofRaw raw p = .ok parts →
      ∀ sub ∈ parts.substitutions, sub.source.length < raw.length := by
  have hprogram := fun rounds depth hr hd => run_ne_exhausted src program rounds depth hr hd
    fun hr hσ => Lockstep.program hr hσ
  have hexpression := fun rounds depth hr hd =>
    run_ne_exhausted src soleExpression rounds depth hr hd
      fun hr hσ => Lockstep.soleExpression hr hσ
  refine ⟨fun rounds depth hr hd => ⟨hprogram _ _ hr hd, hexpression _ _ hr hd⟩, ?_, ?_, ?_⟩
  · rw [Program.parse, whole_eq]
    exact outcome_ne_exhausted (hprogram _ _ (Nat.le_refl _) (Nat.le_refl _))
  · rw [Expr.parse, whole_eq]
    exact outcome_ne_exhausted (hexpression _ _ (Nat.le_refl _) (Nat.le_refl _))
  · intro raw p parts hparts sub hsub
    obtain ⟨i, hpos, _, hreach, _⟩ := TemplateParts.ofRaw_inside hparts hsub
    have := sub.source.length_le_reach
    omega

/-- A template literal inside another one, in a text that ends too early. -/
theorem ends_nested : let src : Text := "\x60a$\x7b\x60$\x7bb\x7d\x60\x7d\x60 + ("
    Program.parse src ≠ .error (.crashed .exhausted) ∧
    Expr.parse src ≠ .error (.crashed .exhausted) ∧
    (Reader.ofLexer (.ofText src) >>= (program (rules 20 30)).run) ≠ .error .exhausted ∧
    (∃ parts, TemplateParts.ofRaw (src.take 13) .first = .ok parts ∧
      parts.substitutions.map (·.source) = [("\x60$\x7bb\x7d\x60" : Text)] ∧
      ∀ sub ∈ parts.substitutions, sub.source.length < (src.take 13).length) := by
  intro src
  obtain ⟨hruns, hprogram, hexpression, hinside⟩ := ends src
  have hparts : (TemplateParts.ofRaw (src.take 13) .first).map
      (fun parts => parts.substitutions.map (·.source)) = .ok [("\x60$\x7bb\x7d\x60" : Text)] := by
    decide +kernel
  refine ⟨hprogram, hexpression, (hruns 20 30 (by decide) (by decide)).1, ?_⟩
  cases h : TemplateParts.ofRaw (src.take 13) .first with
  | error c =>
    rw [h] at hparts
    cases hparts
  | ok parts =>
    rw [h] at hparts
    exact ⟨parts, rfl, Except.ok.inj hparts, hinside _ _ _ h⟩

end Parse
end LabelHooks
