import Mathlib.Order.Defs.PartialOrder
import LabelHooks.Proofs.Attachments
import LabelHooks.Proofs.PartNodes
import LabelHooks.Proofs.SiteNodes
import LabelHooks.Proofs.Standing

/-!
Trees laid out in a source. What stands between two points has spans there, children lie in the
spans of their parents and start one after the other, names and literals are those of the source,
every part is well-formed and has the targets that its place allows, and the comments that its
statements hold were dealt with between the points.
-/

namespace LabelHooks
set_option autoImplicit true

open List

namespace Node

def start (n : Node) : Int := n.mark.span.start.offset

def stop (n : Node) : Int := n.mark.span.stop.offset

/-- An identifier has its name and its place from the source, but for the `new` of `new.target`,
which stands before its word. -/
def Named (src : Text) (n : Node) : Prop :=
  n.kind = .ident → n.name ≠ [] ∧ ∃ u v, src = u ++ (n.name ++ v) ∧
    n.mark.span.start.Stands src u.length u ∧
      (n.stop = n.start + n.name.length ∨ (n.stop = n.start ∧ n.name = ("new" : Text)))

end Node

namespace Literal

def Spelled (src : Text) (l : Literal) : Prop :=
  ∃ u v, src = u ++ (l.raw ++ v) ∧ l.mark.span.start.offset = u.length ∧
    l.mark.span.stop.offset = u.length + l.raw.length

end Literal

/-- A part is well-formed, its literals are those of the source, and it binds and assigns to what
its place allows. -/
structure Part.Sound (src : Text) (x : Part) : Prop where
  wellFormed : x.wellFormed = true
  spelled : ∀ l ∈ x.literals, l.Spelled src
  wellAimed : x.wellAimed = true

namespace Outline

mutual

def Nested : Outline → Prop
  | .mk n inner => NestedIn n inner

def NestedIn (n : Node) : List Outline → Prop
  | [] => True
  | o :: os => n.start ≤ o.node.start ∧ o.node.stop ≤ n.stop ∧ o.Nested ∧ NestedIn n os

end

theorem nestedIn_iff : NestedIn n os ↔
    ∀ o ∈ os, n.start ≤ o.node.start ∧ o.node.stop ≤ n.stop ∧ o.Nested := by
  induction os with
  | nil => simp [NestedIn]
  | cons o os ih => simp [NestedIn, ih, and_assoc]

abbrev nodes (os : List Outline) : List Node := walkList (fun _ => true) os

@[simp] theorem nodes_leaf (n : Node) (os : List Outline) :
    nodes (leaf n :: os) = n :: nodes os := by
  simp [nodes, leaf, walkList, walk]

theorem node_mem_nodes (h : o ∈ os) : o.node ∈ nodes os := by
  induction os with
  | nil => cases h
  | cons o' os ih =>
    rw [nodes, walkList, mem_append]
    rcases mem_cons.1 h with rfl | h
    · left
      cases o
      simp [walk, node]
    · exact .inr (ih h)

end Outline

open Outline (nodes above leaf)

/-- A position that a reader comes to, and the comments that it has dealt with there. -/
structure Point where
  pos : Position
  settled : List Comment

namespace Point

def of (offset : Int) (cs : List Comment) : Point := ⟨{ Position.none with offset }, cs⟩

abbrev offset (a : Point) : Int := a.pos.offset

instance : Preorder Point where
  le a b := a.offset ≤ b.offset ∧ a.settled.Sublist b.settled
  le_refl _ := ⟨Int.le_refl _, .refl _⟩
  le_trans _ _ _ h h' := ⟨Int.le_trans h.1 h'.1, h.2.trans h'.2⟩

end Point

/-- What stands between two points of the source: outlines, the parts that they outline, and the
comments that these hold. -/
structure Between (src : Text) (lo hi : Point) (os : List Outline) (ps : List Part)
    (as : List Attachment) : Prop where
  le : lo.offset ≤ hi.offset
  bounds : ∀ n ∈ nodes os, lo.offset ≤ n.start ∧ n.start ≤ n.stop ∧ n.stop ≤ hi.offset
  nested : ∀ o ∈ os, o.Nested
  sorted : (nodes os).Pairwise fun a b => a.start ≤ b.start
  named : ∀ n ∈ nodes os, n.Named src
  sound : ∀ x ∈ ps, x.Sound src
  held : (lo.settled ++ as.map Attachment.comment).Sublist hi.settled
  before : ∀ a ∈ as, a.comment.span.stop.offset ≤ a.start.offset

namespace Between

variable {src : Text} {lo lo' mid mid' hi hi' : Point} {os os' : List Outline}
  {ps ps' : List Part} {as as' : List Attachment}

theorem nil (h : lo ≤ hi) : Between src lo hi [] [] [] :=
  ⟨h.1, by simp [Outline.walkList], by simp, by simp [Outline.walkList],
    by simp [Outline.walkList], by simp, by simpa using h.2, by simp⟩

/-- Another reader dealt with the comments. -/
theorem apart (h : Between src lo hi os ps as) (hlo : lo'.offset ≤ lo.offset)
    (hhi : hi.offset ≤ hi'.offset) (hsettled : lo'.settled.Sublist hi'.settled) :
    Between src lo' hi' os ps [] := by
  refine ⟨?_, ?_, h.nested, h.sorted, h.named, h.sound, by simpa using hsettled, by simp⟩
  · have := h.le
    omega
  · intro n hn
    have := h.bounds n hn
    omega

theorem mono (h : Between src lo hi os ps as) (hlo : lo' ≤ lo) (hhi : hi ≤ hi') :
    Between src lo' hi' os ps as := by
  have hheld := ((hlo.2.append (.refl _)).trans h.held).trans hhi.2
  have hapart := h.apart hlo.1 hhi.1 ((sublist_append_left _ _).trans hheld)
  exact { hapart with held := hheld, before := h.before }

theorem append (h : Between src lo mid os ps as) (h' : Between src mid' hi os' ps' as')
    (hmid : mid ≤ mid') : Between src lo hi (os ++ os') (ps ++ ps') (as ++ as') := by
  have hle := h.le
  have hle' := h'.le
  obtain ⟨hmid, hsettled⟩ := hmid
  refine ⟨by omega, ?_, ?_, ?_, ?_, ?_, ?_, forall_mem_append.2 ⟨h.before, h'.before⟩⟩
  · rw [Outline.nodes, Outline.walkList_append, forall_mem_append]
    constructor
    · intro n hn
      have := h.bounds n hn
      omega
    · intro n hn
      have := h'.bounds n hn
      omega
  · rw [forall_mem_append]
    exact ⟨h.nested, h'.nested⟩
  · rw [Outline.nodes, Outline.walkList_append, pairwise_append]
    refine ⟨h.sorted, h'.sorted, ?_⟩
    intro a ha b hb
    have := h.bounds a ha
    have := h'.bounds b hb
    omega
  · rw [Outline.nodes, Outline.walkList_append, forall_mem_append]
    exact ⟨h.named, h'.named⟩
  · rw [forall_mem_append]
    exact ⟨h.sound, h'.sound⟩
  · rw [map_append, ← append_assoc]
    exact ((h.held.trans hsettled).append (.refl _)).trans h'.held

theorem above (h : Between src lo hi os ps as) (hlo : lo.offset = n.start)
    (hhi : hi.offset = n.stop) (hn : n.Named src) : Between src lo hi (above n os) ps as := by
  have hnodes : nodes (Outline.above n os) = n :: nodes os := Outline.walkList_above n os
  refine ⟨h.le, ?_, ?_, ?_, ?_, h.sound, h.held, h.before⟩
  · rw [hnodes, forall_mem_cons]
    exact ⟨⟨Int.le_of_eq hlo, hlo ▸ hhi ▸ h.le, Int.le_of_eq hhi.symm⟩, h.bounds⟩
  · rw [Outline.above, forall_mem_singleton, Outline.Nested, Outline.nestedIn_iff]
    intro o ho
    have hbounds := h.bounds _ (Outline.node_mem_nodes ho)
    exact ⟨hlo ▸ hbounds.1, hhi ▸ hbounds.2.2, h.nested o ho⟩
  · rw [hnodes, pairwise_cons]
    exact ⟨fun a ha => hlo ▸ (h.bounds a ha).1, h.sorted⟩
  · rw [hnodes, forall_mem_cons]
    exact ⟨hn, h.named⟩

theorem leaf (h : Between src lo hi os ps as) (hlo : lo.offset = n.start) (hn : n.Named src)
    (hle : n.start ≤ n.stop) (hhi : n.stop ≤ hi.offset) :
    Between src lo hi (leaf n :: os) ps as := by
  refine ⟨h.le, ?_, ?_, ?_, ?_, h.sound, h.held, h.before⟩
  · rw [Outline.nodes_leaf, forall_mem_cons]
    exact ⟨⟨Int.le_of_eq hlo, hle, hhi⟩, h.bounds⟩
  · rw [forall_mem_cons]
    exact ⟨by simp [Outline.leaf, Outline.Nested, Outline.NestedIn], h.nested⟩
  · rw [Outline.nodes_leaf, pairwise_cons]
    exact ⟨fun a ha => hlo ▸ (h.bounds a ha).1, h.sorted⟩
  · rw [Outline.nodes_leaf, forall_mem_cons]
    exact ⟨hn, h.named⟩

theorem part (h : Between src lo hi os ps as) (hx : x.Sound src) :
    Between src lo hi os (x :: ps) as :=
  { h with sound := forall_mem_cons.2 ⟨hx, h.sound⟩ }

end Between

/-! Kinds, comments and the names of statements do not matter. -/

namespace Node

def bare (n : Node) : Node :=
  if n.kind = .ident then { n with mark := .ofSpan n.mark.span }
  else ⟨.program, .ofSpan n.mark.span, []⟩

@[simp] theorem bare_start (n : Node) : n.bare.start = n.start := by
  unfold bare
  split <;> rfl

@[simp] theorem bare_stop (n : Node) : n.bare.stop = n.stop := by
  unfold bare
  split <;> rfl

theorem named_bare {src : Text} {n : Node} : n.bare.Named src ↔ n.Named src := by
  unfold bare
  split
  · rfl
  · next h =>
    simp only [Named, h, false_implies, iff_true]
    intro h
    cases h

end Node

namespace Outline

mutual

def bare : Outline → Outline
  | .mk n inner => .mk n.bare (bareList inner)

def bareList : List Outline → List Outline
  | [] => []
  | o :: os => o.bare :: bareList os

end

mutual

theorem walk_bare : ∀ o : Outline, o.bare.walk (fun _ => true) =
    (o.walk fun _ => true).map Node.bare
  | .mk n inner => by simp [bare, walk, nodes_bareList inner]

theorem nodes_bareList : ∀ os : List Outline, nodes (bareList os) = (nodes os).map Node.bare
  | [] => rfl
  | o :: os => by
    rw [bareList, nodes, walkList, walk_bare o, nodes, walkList, map_append]
    exact congrArg _ (nodes_bareList os)

end

@[simp] theorem node_bare (o : Outline) : o.bare.node = o.node.bare := by
  cases o
  rfl

mutual

theorem nested_bare : ∀ o : Outline, o.bare.Nested ↔ o.Nested
  | .mk n inner => nestedIn_bareList n inner

theorem nestedIn_bareList (n : Node) : ∀ os : List Outline,
    NestedIn n.bare (bareList os) ↔ NestedIn n os
  | [] => Iff.rfl
  | o :: os => by
    simp only [bareList, NestedIn, node_bare, Node.bare_start, Node.bare_stop, nested_bare o,
      nestedIn_bareList n os]

end

@[simp] theorem bareList_append (os os' : List Outline) :
    bareList (os ++ os') = bareList os ++ bareList os' := by
  induction os with
  | nil => rfl
  | cons o os ih => rw [cons_append, bareList, bareList, ih, cons_append]

@[simp] theorem bareList_above (n : Node) (os : List Outline) :
    bareList (above n os) = above n.bare (bareList os) := rfl

theorem forall_nested_bareList : (∀ o ∈ bareList os, o.Nested) ↔ ∀ o ∈ os, o.Nested := by
  induction os with
  | nil => simp [bareList]
  | cons o os ih => simp [bareList, nested_bare, ih]

end Outline

theorem Between.congr (h : Between src lo hi os ps as)
    (hbare : Outline.bareList os' = Outline.bareList os) (hsound : ∀ x ∈ ps', x.Sound src) :
    Between src lo hi os' ps' as := by
  have hnodes : (nodes os').map Node.bare = (nodes os).map Node.bare := by
    rw [← Outline.nodes_bareList, hbare, Outline.nodes_bareList]
  -- What holds of all nodes up to their kinds is the same for both.
  have htransfer : ∀ {P : Node → Prop}, (∀ n, P n.bare ↔ P n) → (∀ n ∈ nodes os, P n) →
      ∀ n ∈ nodes os', P n := by
    intro P hP hos n hn
    have hmem : n.bare ∈ (nodes os).map Node.bare := hnodes ▸ mem_map_of_mem hn
    obtain ⟨m, hm, hmn⟩ := mem_map.1 hmem
    rw [← hP, ← hmn, hP]
    exact hos m hm
  refine ⟨h.le, ?_, ?_, ?_, ?_, hsound, h.held, h.before⟩
  · exact htransfer (fun n => by simp) h.bounds
  · rw [← Outline.forall_nested_bareList, hbare, Outline.forall_nested_bareList]
    exact h.nested
  · have hsorted := h.sorted
    have hmap : ∀ l : List Node, (l.map Node.bare).Pairwise (fun a b => a.start ≤ b.start) ↔
        l.Pairwise fun a b => a.start ≤ b.start := by
      intro l
      simp [pairwise_map]
    rw [← hmap, hnodes, hmap]
    exact hsorted
  · exact htransfer (fun n => Node.named_bare) h.named

end LabelHooks
