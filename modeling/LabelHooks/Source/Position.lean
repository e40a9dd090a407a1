import LabelHooks.Text.Basic

/-!
Places in a source text. Lines and columns count from one and offsets from zero; a position
whose line is not positive stands for no place at all.
-/

namespace LabelHooks

structure Position where
  line : Int
  column : Int
  offset : Int
deriving DecidableEq, Repr

namespace Position

def first : Position := ⟨1, 1, 0⟩

def none : Position := ⟨0, 0, 0⟩

def isValid (p : Position) : Bool := p.line > 0

def text (p : Position) : Text :=
  if p.isValid then Text.ofInt p.line ++ (":" : Text) ++ Text.ofInt p.column else "-"

def full (p : Position) : Text :=
  Text.ofInt p.line ++ (":" : Text) ++ Text.ofInt p.column ++ (":" : Text) ++ Text.ofInt p.offset

end Position

structure Span where
  start : Position
  stop : Position
deriving DecidableEq, Repr

namespace Span

def none : Span := ⟨.none, .none⟩

def point (p : Position) : Span := ⟨p, p⟩

def isValid (s : Span) : Bool := s.start.isValid && s.stop.isValid

def contains (s : Span) (offset : Int) : Bool := s.start.offset ≤ offset && offset < s.stop.offset

def full (s : Span) : Text := s.start.full ++ ("-" : Text) ++ s.stop.full

end Span

inductive CommentKind where
  | line
  | block
deriving DecidableEq, Repr

structure Comment where
  kind : CommentKind
  text : Text
  span : Span
deriving DecidableEq, Repr

namespace Comment

def isPure (c : Comment) : Bool :=
  c.kind = .block && (c.text = ("/* @__PURE__ */" : Text) || c.text = ("/* #__PURE__ */" : Text))

end Comment
end LabelHooks
