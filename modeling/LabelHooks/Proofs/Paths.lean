import LabelHooks.Grammar.Module
import LabelHooks.Layout.Print
import LabelHooks.Reactive.Pass
import Mathlib.Tactic.Common

/-!
Options that the pass accepts, and what it makes of the dotted paths among them.
-/

namespace LabelHooks

open List

namespace Text

variable {sep : UInt8} {t : Text}

theorem splitOn_ne_nil (sep : UInt8) (t : Text) : splitOn sep t ≠ [] := by
  cases t with
  | nil => exact cons_ne_nil _ _
  | cons b t =>
    rw [splitOn]
    split
    · exact cons_ne_nil _ _
    · split <;> exact cons_ne_nil _ _

/-- The pieces with the separator between them are the text again. -/
theorem flatMap_of_splitOn {first : Text} {more : List Text} (h : splitOn sep t = first :: more) :
    first ++ more.flatMap (sep :: ·) = t := by
  induction t generalizing first more with
  | nil =>
    cases h
    rfl
  | cons b t ih =>
    rw [splitOn] at h
    split at h
    · next hb =>
      obtain ⟨rfl, rfl⟩ := cons.inj h
      cases hrest : splitOn sep t with
      | nil => exact absurd hrest (splitOn_ne_nil sep t)
      | cons first more =>
        rw [nil_append, flatMap_cons, cons_append, ih hrest, hb]
    · split at h
      · next hnil => exact absurd hnil (splitOn_ne_nil sep t)
      · next first more hrest =>
        obtain ⟨rfl, rfl⟩ := cons.inj h
        rw [cons_append, ih hrest]

theorem mem_splitOn {b : UInt8} (sep : UInt8) (h : b ∈ t) :
    b = sep ∨ ∃ piece ∈ splitOn sep t, b ∈ piece := by
  cases hsplit : splitOn sep t with
  | nil => exact absurd hsplit (splitOn_ne_nil sep t)
  | cons first more =>
    rw [← flatMap_of_splitOn hsplit, mem_append, mem_flatMap] at h
    obtain h | ⟨piece, hpiece, h⟩ := h
    · exact .inr ⟨first, mem_cons_self, h⟩
    · obtain rfl | h := mem_cons.1 h
      · exact .inl rfl
      · exact .inr ⟨piece, .tail _ hpiece, h⟩

end Text

namespace Options

variable {o o' : Options}

theorem words_of_validate (h : o.validate = .ok ()) :
    (isWord o.stateLabel = true ∧ isWord o.watchLabel = true) ∧
      isPath o.stateFactory = true ∧ isPath o.effectFactory = true ∧
      isPath o.memoFactory = true := by
  have hlabel : ∀ {field value}, checkLabel field value = .ok () → isWord value = true := by
    intro field value hcheck
    rw [checkLabel] at hcheck
    grind
  have hfactory : ∀ {field value}, checkFactory field value = .ok () → isPath value = true := by
    intro field value hcheck
    rw [checkFactory] at hcheck
    grind
  have hbind : ∀ {x : Except OptionError Unit} {f : Unit → Except OptionError Unit},
      (x >>= f) = .ok () → x = .ok () ∧ f () = .ok () := by
    intro x f hx
    cases x with
    | error e => cases hx
    | ok _ => exact ⟨rfl, hx⟩
  obtain ⟨hs, h⟩ := hbind h
  obtain ⟨hw, h⟩ := hbind h
  dsimp only at h
  split at h
  · cases h
  obtain ⟨hf, h⟩ := hbind h
  obtain ⟨he, hm⟩ := hbind h
  exact ⟨⟨hlabel hs, hlabel hw⟩, hfactory hf, hfactory he, hfactory hm⟩

theorem validate_of_complete (h : o.complete = .ok o') : o.withDefaults.validate = .ok () := by
  unfold complete at h
  dsimp only at h
  cases hv : o.withDefaults.validate with
  | error e =>
    rw [hv] at h
    cases h
  | ok u => rfl

end Options

namespace Expr

variable {span : Span} {parts : List Text}

/-- Extending an expression by parts makes a member of it and writes each part behind it. -/
theorem foldl_extend_some (h : ∀ part ∈ parts, part.isEmpty = false) (x : Expr) :
    ∃ e, parts.foldl (extend span) (some x) = some e ∧
      (e = x ∧ parts = [] ∨ ∃ m y prop, e = .member m y prop false false) ∧
      (Layout.isNumber x = false → ¬ x.prec < .call →
        e.format = x.format ++ parts.flatMap (byte '.' :: ·)) := by
  induction parts generalizing x with
  | nil => exact ⟨x, rfl, .inl ⟨rfl, rfl⟩, fun _ _ => (append_nil _).symm⟩
  | cons part parts ih =>
    obtain ⟨hpart, hparts⟩ := forall_mem_cons.1 h
    obtain ⟨e, he, hshape, hformat⟩ :=
      ih hparts (.member (.ofSpan span) x (.ofName part span) false false)
    refine ⟨e, ?_, .inr ?_, ?_⟩
    · rw [foldl_cons, ← he]
      simp [extend, hpart]
    · obtain ⟨rfl, -⟩ | hshape := hshape
      · exact ⟨_, _, _, rfl⟩
      · exact hshape
    · intro hn hp
      have hlowest (e : Expr) : ¬ e.prec < .lowest := Nat.not_lt_zero _
      have hprimary (i : Ident) : ¬ (ident i).prec < .primary := Nat.lt_irrefl _
      have hdot : Text.ofString "." = [byte '.'] := rfl
      rw [hformat rfl (Nat.lt_irrefl _)]
      simp [format, Layout.placed, Layout.node, hlowest, hprimary, hdot, hn, hp,
        Layout.Start.misreads, ofName, Ident.ofName]

end Expr

namespace Pass

theorem factory_of_isPath {path : Text} (h : Options.isPath path = true) (span : Span) :
    (factory path span = .ofName path span ∨
      ∃ m y prop, factory path span = .member m y prop false false) ∧
      (factory path span).format = path := by
  have hempty : ∀ part ∈ Text.splitOn (byte '.') path, part.isEmpty = false := by
    intro part hpart
    have hword := all_eq_true.1 h part hpart
    cases part with
    | nil => cases hword
    | cons => rfl
  unfold factory Expr.ofPath?
  cases hsplit : Text.splitOn (byte '.') path with
  | nil => exact absurd hsplit (Text.splitOn_ne_nil _ _)
  | cons first more =>
    rw [hsplit, forall_mem_cons] at hempty
    have hfirst : Expr.extend span none first = some (.ofName first span) := by
      simp [Expr.extend, hempty.1]
    have hpath := Text.flatMap_of_splitOn hsplit
    obtain ⟨e, hmore, hshape, hformat⟩ := Expr.foldl_extend_some hempty.2 (.ofName first span)
    rw [foldl_cons, hfirst, hmore, Option.getD_some]
    refine ⟨?_, (hformat rfl (show ¬ Prec.primary < .call by decide)).trans hpath⟩
    obtain ⟨rfl, rfl⟩ | hmember := hshape
    · rw [← hpath, flatMap_nil, append_nil]
      exact .inl rfl
    · exact .inr hmember

end Pass

namespace Options

/-- The tree made of an accepted factory is written as the factory. -/
theorem format_factory {o : Options} (h : o.validate = .ok ()) (span : Span) {path : Text}
    (hpath : path ∈ [o.stateFactory, o.effectFactory, o.memoFactory]) :
    (Pass.factory path span).format = path := by
  obtain ⟨-, hs, he, hm⟩ := words_of_validate h
  have hisPath : isPath path = true := by grind
  exact (Pass.factory_of_isPath hisPath span).2

/-- Factories are not compared with the reserved words, so what is written need not be read. -/
theorem parse_factory_reserved :
    let o : Options := { default with stateFactory := "if" }
    o.validate = .ok () ∧ (Expr.parse o.stateFactory).isOk = false := by
  exact ⟨rfl, rfl⟩

end Options
end LabelHooks
