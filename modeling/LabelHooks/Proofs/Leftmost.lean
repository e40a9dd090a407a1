import LabelHooks.Layout.Print

/-!
Which expression the printer wraps at the start of a statement, a body or an export. The printer
hands the place of an expression down to its first operand; the rule it follows looks for the
leftmost expression and decides about that one alone. The two come to the same text.
-/

namespace LabelHooks
set_option autoImplicit true

open Layout

namespace Expr

/-- The operand that is printed first, and the precedence that its place demands. -/
def first? : Expr → Option (Expr × Prec)
  | .binary _ op x _ => if mixesNullish op x then none else some (x, leftLeast op)
  | .assign _ _ x _ | .call _ x _ _ | .member _ x _ _ _ | .template _ (some x) _ _ =>
    some (x, .call)
  | .cond _ x _ _ => some (x, .nullish)
  | .seq _ (x :: _) => some (x, .assign)
  | .update _ _ false x => some (x, .postfixed)
  | _ => none

theorem sizeOf_first {e : Expr} (h : e.first? = some (x, least)) : sizeOf x < sizeOf e := by
  unfold first? at h
  split at h
  · split at h
    · cases h
    · cases h
      simp +arith
  all_goals
    cases h
  all_goals
    simp +arith

/-- The expression that is printed first, or one around it that is put in parentheses anyway. -/
def leftmost (e : Expr) : Expr :=
  match _h : e.first? with
  | none => e
  | some (x, least) => if x.prec < least then e else x.leftmost
termination_by sizeOf e
decreasing_by exact sizeOf_first _h

theorem leftmost_of_none {e : Expr} (h : e.first? = none) : e.leftmost = e := by
  rw [leftmost]
  split <;> simp_all

theorem leftmost_of_some {e : Expr} (h : e.first? = some (x, least)) :
    e.leftmost = if x.prec < least then e else x.leftmost := by
  rw [leftmost]
  split <;> simp_all

/-- What has to be in parentheses when the expression is a statement. -/
def statementWrap? (x : Expr) : Option Expr :=
  if isObjectAssign x then some x
  else if Start.statement.misreads x.leftmost then some x.leftmost
  else none

theorem not_misreads_of_first {e : Expr} (h : e.first? = some y) (start : Start) :
    start.misreads e = false := by
  cases e <;> cases start <;> first | rfl | cases h

end Expr

namespace Layout

variable {style : Style} {depth : Nat} {start : Start} {least : Prec}

/-- Only the first operand sees where an expression stands, and not even a number before a dot
does, which is in parentheses everywhere. -/
theorem node_first (style : Style) (depth : Nat) (e : Expr) :
    ((e.first?.all fun y => isNumber y.1) = true ∧
      ∀ start, node style depth start e = node style depth .inside e) ∨
    ∃ x least tail, e.first? = some (x, least) ∧ ∀ start, node style depth start e =
      placed style least start x (fun s => node style depth s x) ++ tail := by
  cases e with
  | binary m op x y =>
    by_cases hmixes : mixesNullish op x = true
    · exact .inl ⟨by simp [Expr.first?, hmixes], fun start => by simp only [node, hmixes, if_true]⟩
    · exact .inr ⟨x, leftLeast op, _, by simp [Expr.first?, hmixes], fun start => by
        simp only [node, hmixes, List.append_assoc]; rfl⟩
  | member m x prop computed optional =>
    by_cases hx : isNumber x = true
    · exact .inl ⟨hx, fun start => by simp only [node, hx, if_true]⟩
    · exact .inr ⟨x, _, _, rfl, fun start => by simp only [node, hx, List.append_assoc]; rfl⟩
  | template m tag quasis es =>
    cases tag with
    | none => exact .inl ⟨rfl, fun start => by simp only [node]⟩
    | some x => exact .inr ⟨x, _, _, rfl, fun start => by simp only [node, List.append_assoc]; rfl⟩
  | update m op before x =>
    cases before with
    | false => exact .inr ⟨x, _, _, rfl, fun start => by simp only [node]; rfl⟩
    | true => exact .inl ⟨rfl, fun start => by simp only [node]⟩
  | seq m es =>
    match es with
    | [] => exact .inl ⟨rfl, fun start => by simp only [node, texts]⟩
    | [x] => exact .inr ⟨x, _, [], rfl, fun start => by simp [node, texts, commas, Text.join]⟩
    | x :: y :: es =>
      exact .inr ⟨x, _, _, rfl, fun start => by
        simp only [node, texts, commas, Text.join, List.append_assoc]; rfl⟩
  | assign m op x y | call m x args optional | cond m x y z =>
    exact .inr ⟨x, _, _, rfl, fun start => by simp only [node, List.append_assoc]; rfl⟩
  | function m f =>
    cases f
    exact .inl ⟨rfl, fun start => by simp only [node]⟩
  | arrow m isAsync params body => cases body <;> exact .inl ⟨rfl, fun start => by simp only [node]⟩
  | _ => exact .inl ⟨rfl, fun start => by simp only [node]⟩

/-- `t'` is `t`, with parentheses around the first expression `w` if it would be misread. -/
def Leads (style : Style) (depth : Nat) (start : Start) (w : Expr) (t t' : Text) : Prop :=
  if start.misreads w then ∃ rest, t = node style depth .inside w ++ rest ∧
    t' = style.wrap w (node style depth .inside w) ++ rest
  else t' = t

theorem Leads.append (h : Leads style depth start w t t') (u : Text) :
    Leads style depth start w (t ++ u) (t' ++ u) := by
  unfold Leads at h ⊢
  split at h
  · next hw =>
    obtain ⟨rest, rfl, rfl⟩ := h
    rw [if_pos hw]
    exact ⟨rest ++ u, List.append_assoc _ _ _, List.append_assoc _ _ _⟩
  · next hw => rw [if_neg hw, h]

/-- The start that is handed down puts the leftmost expression in parentheses, and nothing else. -/
theorem placed_leftmost (e : Expr) (hleast : least ≤ e.prec) :
    Leads style depth start e.leftmost (node style depth .inside e)
      (placed style least start e fun s => node style depth s e) := by
  induction e using Expr.leftmost.induct generalizing least with
  | case1 e h =>
    obtain ⟨-, hsame⟩ | ⟨x, l, tail, hfirst, -⟩ := node_first style depth e
    · rw [Expr.leftmost_of_none h, Leads, placed, hsame start]
      split
      · next hw => exact ⟨[], (List.append_nil _).symm, by simp [hw]⟩
      · next hw => simp [hw, Nat.not_lt.2 hleast]
    · cases h.symm.trans hfirst
  | case2 e x l h hx =>
    have hplain := Expr.not_misreads_of_first h start
    rw [Expr.leftmost_of_some h, if_pos hx, Leads, if_neg (by simp [hplain]), placed, hplain]
    obtain ⟨-, hsame⟩ | ⟨_, _, tail, hfirst, htail⟩ := node_first style depth e
    · simp [Nat.not_lt.2 hleast, hsame start]
    · cases h.symm.trans hfirst
      simp [Nat.not_lt.2 hleast, htail start, htail .inside, placed, hx]
  | case3 e x l h hx ih =>
    have hstart : (placed style least start e fun s => node style depth s e) =
        node style depth start e := by
      simp [placed, Expr.not_misreads_of_first h start, Nat.not_lt.2 hleast]
    rw [Expr.leftmost_of_some h, if_neg hx, hstart]
    obtain ⟨hnumber, hsame⟩ | ⟨_, _, tail, hfirst, htail⟩ := node_first style depth e
    · rw [h] at hnumber
      cases x with
      | literal l =>
        have hplain : start.misreads (Expr.literal l) = false := by cases start <;> rfl
        rw [Expr.leftmost_of_none rfl, Leads, if_neg (by simp [hplain])]
        exact hsame start
      | _ => cases hnumber
    · cases h.symm.trans hfirst
      have hinside : placed style l .inside x (fun s => node style depth s x) =
          node style depth .inside x := by
        simp [placed, hx, Start.misreads]
      rw [htail start, htail .inside, hinside]
      exact (ih (Nat.not_lt.1 hx)).append tail

/-- A statement is printed with parentheses around what has to be wrapped in it, and around nothing
else. -/
theorem stmtText_expr (m : Mark) (x : Expr) : ∃ t,
    stmtText style depth (.expr m x) = leadText style depth (.expr m x) ++ t ++ (";" : Text) ∧
      match x.statementWrap? with
      | none => t = node style depth .inside x
      | some w => ∃ rest, node style depth .inside x = node style depth .inside w ++ rest ∧
        t = style.wrap w (node style depth .inside w) ++ rest := by
  refine ⟨_, by rw [stmtText], ?_⟩
  have hleads : Leads style depth .statement x.leftmost _
      (placed style .lowest .statement x fun s => node style depth s x) :=
    placed_leftmost x (Nat.zero_le _)
  rw [Leads] at hleads
  rw [Expr.statementWrap?]
  by_cases hassign : isObjectAssign x = true
  · rw [if_pos hassign, if_pos hassign]
    exact ⟨[], (List.append_nil _).symm, (List.append_nil _).symm⟩
  · rw [if_neg hassign, if_neg hassign]
    split at hleads
    · next hw =>
      rw [if_pos hw]
      exact hleads
    · next hw =>
      rw [if_neg hw]
      exact hleads

end Layout
end LabelHooks
