import LabelHooks.Proofs.Rejection

/-!
The trees of accepted sources. Every part is well-formed and binds names, and what the spans say
is so: they nest and come in order, the names and literals of the tree stand in the source where
its spans are, and so do lines and columns, but for the lines after a substitution that starts
with a line break.
-/

namespace LabelHooks
set_option autoImplicit true

open Token (Kind)

namespace Text

def slice (src : Text) (a b : Int) : Text := (src.drop a.toNat).take (b - a).toNat

theorem slice_append (u w v : Text) :
    slice (u ++ (w ++ v)) u.length (u.length + w.length) = w := by
  have hlength : ((u.length : Int) + w.length - u.length).toNat = w.length := by omega
  rw [slice, hlength, Int.toNat_natCast, List.drop_left, List.take_left]

end Text

namespace Program

variable {src : Text} {p : Program}

theorem nodes_eq (p : Program) :
    p.nodes = ⟨.program, p.mark, []⟩ :: Outline.nodes (Stmt.outlineList p.body) := by
  simp [nodes, walk, outline, Outline.walk]

theorem outline_nested (h : parse src = .ok p) : p.outline.Nested := by
  rw [outline, Outline.Nested, Outline.nestedIn_iff]
  rcases laid_of_parse h with hnil | ⟨_, _, hlaid⟩
  · rw [hnil]
    intro o ho
    cases ho
  · intro o ho
    have hbounds := hlaid.bounds _ (Outline.node_mem_nodes ho)
    exact ⟨hbounds.1, hbounds.2.2, hlaid.nested o ho⟩

theorem nodes_sorted (h : parse src = .ok p) :
    p.nodes.Pairwise fun m n => m.start ≤ n.start := by
  rw [nodes_eq, List.pairwise_cons]
  rcases laid_of_parse h with hnil | ⟨_, _, hlaid⟩
  · rw [hnil]
    exact ⟨fun n hn => absurd hn List.not_mem_nil, List.Pairwise.nil⟩
  · exact ⟨fun n hn => (hlaid.bounds n hn).1, hlaid.sorted⟩

theorem nodes_named (h : parse src = .ok p) : ∀ n ∈ p.nodes, n.Named src := by
  rw [nodes_eq, List.forall_mem_cons]
  exact ⟨(nomatch ·), (between_of_parse h).named⟩

/-- Accepted sources have trees that are well-formed: names are not empty, and every part has the
children that it cannot do without, in the forms that their places allow. -/
theorem parse_wellFormed (h : parse src = .ok p) :
    (∀ n ∈ p.nodes, n.kind = .ident → n.name ≠ []) ∧ ∀ x ∈ p.parts.flat, x.wellFormed = true := by
  constructor
  · intro n hn hkind
    exact (nodes_named h n hn hkind).1
  · intro x hx
    exact ((between_of_parse h).sound x hx).1

/-- Patterns with defaults and a rest, a template literal and a compound assignment. -/
theorem parse_wellFormed_patterns :
    let src : Text := "for (let [a = 1,, ...b] of c) a += \x60x$\x7bb\x7dy$\x7ba--\x7d\x60;"
    ∃ p, parse src = .ok p ∧ p.nodes.length = 18 ∧ p.parts.flat.length = 15 ∧
      (∀ n ∈ p.nodes, n.kind = .ident → n.name ≠ []) ∧
      ∀ x ∈ p.parts.flat, x.wellFormed = true := by
  intro src
  obtain ⟨p, hp, hcounts⟩ := src.exists_of_reads
    (fun p => decide ((p.nodes.length, p.parts.flat.length) = (18, 15))) (by decide +kernel)
  obtain ⟨hnodes, hparts⟩ := Prod.mk.inj (of_decide_eq_true hcounts)
  exact ⟨p, hp, hnodes, hparts, parse_wellFormed hp⟩

/-- Functions, methods, declarations and handlers bind names only. So do arrows, but for a member
inside a pattern of theirs that has a default: it was the target of an assignment first. -/
theorem parse_binds_names (h : parse src = .ok p) : ∀ x ∈ p.parts.flat,
    (∀ e ∈ x.bindings, ∀ l ∈ e.leaves false, l.2.isIdent = true) ∧
    ∀ e ∈ x.arrowParams, ∀ l ∈ e.leaves false,
      l.2.isIdent = true ∨ (l.1 = true ∧ Parse.isSimpleTarget l.2 = true) := by
  intro x hx
  have haimed := ((between_of_parse h).sound x hx).wellAimed
  simp only [Part.wellAimed, Bool.and_eq_true, List.all_eq_true] at haimed
  obtain ⟨⟨hbindings, harrow⟩, _⟩ := haimed
  refine ⟨fun e he => List.all_eq_true.1 (hbindings e he), fun e he l hl => ?_⟩
  simpa [Expr.fits] using harrow e he l hl

/-- A handler, a declaration and a method inside an arrow with a default. -/
theorem parse_binds_names_arrow :
    let src : Text :=
      "([x.y] = z) => \x7btry\x7b\x7dcatch([a])\x7blet \x7bb\x7d = \x7bf(...c)\x7b\x7d\x7d\x7d\x7d"
    ∃ p, parse src = .ok p ∧ (p.parts.flat.flatMap Part.bindings).length = 3 ∧
      (p.parts.flat.flatMap Part.arrowParams).length = 1 ∧ ∀ x ∈ p.parts.flat,
        (∀ e ∈ x.bindings, ∀ l ∈ e.leaves false, l.2.isIdent = true) ∧
        ∀ e ∈ x.arrowParams, ∀ l ∈ e.leaves false,
          l.2.isIdent = true ∨ (l.1 = true ∧ Parse.isSimpleTarget l.2 = true) := by
  intro src
  obtain ⟨p, hp, hcounts⟩ := src.exists_of_reads
    (fun p => decide (((p.parts.flat.flatMap Part.bindings).length,
      (p.parts.flat.flatMap Part.arrowParams).length) = (3, 1))) (by decide +kernel)
  obtain ⟨hbindings, harrow⟩ := Prod.mk.inj (of_decide_eq_true hcounts)
  exact ⟨p, hp, hbindings, harrow, parse_binds_names hp⟩

/-- A member is a parameter of an arrow if its pattern has a default. -/
theorem parse_binds_member :
    let src : Text := "([x.y] = z) => 1"
    ∃ p, parse src = .ok p ∧ ∃ x ∈ p.parts.flat, ∃ e ∈ x.arrowParams, ∃ l ∈ e.leaves false,
      l.2.isIdent = false := by
  intro src
  obtain ⟨p, hp, hmember⟩ := src.exists_of_reads
    (fun p => p.parts.flat.any fun x => x.arrowParams.any fun e =>
      (e.leaves false).any fun l => !l.2.isIdent) (by decide +kernel)
  simp only [List.any_eq_true, Bool.not_eq_true'] at hmember
  exact ⟨p, hp, hmember⟩

/-- The spans of an accepted source are right: they lie in the source, below the top, nest as the
nodes do and come in the order of a walk; the source has the names and literals of the tree there.
The `new` of `new.target` stands before its word. -/
theorem parse_spans (h : parse src = .ok p) :
    (∀ n ∈ p.nodes.tail, 0 ≤ n.start ∧ n.start ≤ n.stop ∧ n.stop ≤ src.length) ∧
    p.outline.Nested ∧ p.nodes.Pairwise (fun m n => m.start ≤ n.start) ∧
    (∀ n ∈ p.nodes, n.kind = .ident → src.slice n.start n.stop = n.name ∨
      (n.stop = n.start ∧ n.name = ("new" : Text) ∧ n.name <+: src.drop n.start.toNat)) ∧
    ∃ ls : List Literal, p.nodes.filter Node.isLiteral = ls.map .ofLiteral ∧
      (∀ x ∈ p.parts.flat, ∀ l ∈ x.literals, l ∈ ls) ∧
      ∀ l ∈ ls, src.slice l.mark.span.start.offset l.mark.span.stop.offset = l.raw := by
  have hbetween := between_of_parse h
  refine ⟨?_, outline_nested h, nodes_sorted h, ?_, _, nodes_filter_isLiteral p, ?_, ?_⟩
  · rw [nodes_eq, List.tail_cons]
    exact hbetween.bounds
  · intro n hn hkind
    obtain ⟨_, u, v, hsrc, hu, hstop | ⟨hstop, hname⟩⟩ := nodes_named h n hn hkind
    · left
      rw [hstop, Node.start, hu.offset, hsrc, Text.slice_append]
    · right
      refine ⟨hstop, hname, ?_⟩
      rw [Node.start, hu.offset, hsrc, Int.toNat_natCast, List.drop_left]
      exact List.prefix_append _ _
  · intro x hx l hl
    exact List.mem_flatMap.2 ⟨x, hx, hl⟩
  · intro l hl
    obtain ⟨x, hx, hlx⟩ := List.mem_flatMap.1 hl
    obtain ⟨u, v, hsrc, hstart, hstop⟩ := (hbetween.sound x hx).2 l hlx
    rw [hstart, hstop, hsrc, Text.slice_append]

example : Text.reads "f(a,\n  b.c)" (fun p => decide
    ((p.nodes.filter (·.kind = .ident)).map (fun n => (n.start, n.stop)) =
      [(0, 1), (2, 3), (7, 8), (9, 10)])) = true := by
  decide +kernel

/-- Names and literals inside substitutions, and `new.target`. -/
theorem parse_spans_nested :
    let src : Text := "a(\x60x$\x7bb + \x60$\x7b 'c' \x7d\x60\x7d\x60, new.target);"
    ∃ p, parse src = .ok p ∧
      (p.nodes.filter (·.kind = .ident)).map (fun n => (n.start, n.stop, n.name)) =
        ([(0, 1, "a"), (6, 7, "b"), (24, 24, "new"), (28, 34, "target")] :
          List (Int × Int × Text)) ∧
      (∀ n ∈ p.nodes.tail, 0 ≤ n.start ∧ n.start ≤ n.stop ∧ n.stop ≤ src.length) ∧
      p.outline.Nested ∧ p.nodes.Pairwise (fun m n => m.start ≤ n.start) ∧
      (∀ n ∈ p.nodes, n.kind = .ident → src.slice n.start n.stop = n.name ∨
        (n.stop = n.start ∧ n.name = ("new" : Text) ∧ n.name <+: src.drop n.start.toNat)) ∧
      ∃ ls : List Literal, p.nodes.filter Node.isLiteral = ls.map .ofLiteral ∧
        (∀ x ∈ p.parts.flat, ∀ l ∈ x.literals, l ∈ ls) ∧
        ∀ l ∈ ls, src.slice l.mark.span.start.offset l.mark.span.stop.offset = l.raw := by
  intro src
  obtain ⟨p, hp, hnames⟩ := src.exists_of_reads
    (fun p => decide ((p.nodes.filter (·.kind = .ident)).map
      (fun n => (n.start, n.stop, n.name)) =
        ([(0, 1, "a"), (6, 7, "b"), (24, 24, "new"), (28, 34, "target")] :
          List (Int × Int × Text)))) (by decide +kernel)
  exact ⟨p, hp, of_decide_eq_true hnames, parse_spans hp⟩

/-- Where identifiers start: the column is right everywhere, and so is the line if no substitution
around the identifier starts with a line break; each that does can add one to it. -/
theorem parse_positions (h : parse src = .ok p) : ∀ n ∈ p.nodes, n.kind = .ident →
    ∃ k ≤ src.length, n.mark.span.start.offset = k ∧
      n.mark.span.start.column = 1 + ((src.take k).reverse.takeWhile (· ≠ Text.newline)).length ∧
      1 + (src.take k).count Text.newline ≤ n.mark.span.start.line ∧
      n.mark.span.start.line ≤ 1 + (src.take k).count Text.newline + src.breaks k k := by
  intro n hn hkind
  obtain ⟨_, u, v, hsrc, hu, _⟩ := nodes_named h n hn hkind
  have htake : src.take u.length = u := by rw [hsrc, List.take_left]
  have hle := hu.le_line
  have hline := hu.line_le
  rw [Position.after_line] at hle hline
  refine ⟨u.length, ?_, hu.offset, ?_, ?_, ?_⟩
  · rw [hsrc, List.length_append]
    exact Nat.le_add_right _ _
  · rw [htake, hu.column, Position.after_column]
  · rw [htake]
    exact hle
  · rw [htake]
    exact hline

/-- The line break that starts the first substitution counts once after its end, as does the one
inside the second. -/
theorem parse_positions_closed :
    let src : Text := "\x60$\x7b\na\x7d\x60;\x60$\x7bb +\n c\x7d\x60;"
    src.breaks 16 16 = 0 ∧ ∃ p, parse src = .ok p ∧
      ∃ l m n, p.nodes.filter (·.kind = .ident) = [l, m, n] ∧ n.mark.span.start = ⟨3, 2, 16⟩ ∧
        ∃ k ≤ src.length, n.mark.span.start.offset = k ∧
          n.mark.span.start.column =
            1 + ((src.take k).reverse.takeWhile (· ≠ Text.newline)).length ∧
          1 + (src.take k).count Text.newline ≤ n.mark.span.start.line ∧
          n.mark.span.start.line ≤ 1 + (src.take k).count Text.newline + src.breaks k k := by
  intro src
  obtain ⟨p, hp, hstarts⟩ := src.exists_of_reads
    (fun p => decide ((p.nodes.filter (·.kind = .ident)).map (·.mark.span.start) =
      [⟨3, 1, 4⟩, ⟨2, 8, 11⟩, ⟨3, 2, 16⟩])) (by decide +kernel)
  obtain ⟨l, _, hall, _, hrest⟩ := List.map_eq_cons_iff.1 (of_decide_eq_true hstarts)
  obtain ⟨m, _, rfl, _, hrest⟩ := List.map_eq_cons_iff.1 hrest
  obtain ⟨n, _, rfl, hn, hrest⟩ := List.map_eq_cons_iff.1 hrest
  obtain rfl := List.map_eq_nil_iff.1 hrest
  have hmem : n ∈ p.nodes.filter (·.kind = .ident) := by rw [hall]; simp
  obtain ⟨hnode, hkind⟩ := List.mem_filter.1 hmem
  exact ⟨by decide +kernel, p, hp, l, m, n, hall, hn,
    parse_positions hp n hnode (of_decide_eq_true hkind)⟩

/-- A line break at the start of a substitution is counted twice. -/
theorem parse_counts_break_twice :
    let src : Text := "\x60$\x7b\nx\x7d\x60;"
    ∃ p, parse src = .ok p ∧ ∃ n ∈ p.nodes, n.kind = .ident ∧
      n.mark.span.start = ⟨3, 1, 4⟩ ∧ ¬ n.mark.span.start.In src := by
  intro src
  obtain ⟨p, hp, hstarts⟩ := src.exists_of_reads
    (fun p => decide ((p.nodes.filter (·.kind = .ident)).map (·.mark.span.start) =
      [⟨3, 1, 4⟩])) (by decide +kernel)
  obtain ⟨n, _, hall, hn, _⟩ := List.map_eq_cons_iff.1 (of_decide_eq_true hstarts)
  have hmem : n ∈ p.nodes.filter (·.kind = .ident) := by rw [hall]; simp
  obtain ⟨hnode, hkind⟩ := List.mem_filter.1 hmem
  refine ⟨p, hp, n, hnode, of_decide_eq_true hkind, hn, ?_⟩
  rintro ⟨k, _, hoffset, hline, _⟩
  rw [hn] at hoffset hline
  obtain rfl : 4 = k := Int.ofNat.inj hoffset
  exact absurd hline (by decide)

end Program
end LabelHooks
