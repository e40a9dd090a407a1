import LabelHooks.Build.Compiler
import LabelHooks.Report.Grid
import LabelHooks.Report.Renderer
import LabelHooks.Yaml.Writer

/-!
The report on one file: the state it declares and how many expansions of each kind were made.
-/

namespace LabelHooks

structure StateInfo where
  name : Text
  modifier : Text
  position : Text
deriving DecidableEq, Repr

structure Inspection where
  path : Text
  states : Option (List StateInfo)
  mutations : Int
  wrapped : Int
  effects : Int
  memos : Int
deriving DecidableEq, Repr

namespace Inspection

def ofOutput? (out : Output) : Option Inspection :=
  out.result.map fun d =>
    { path := out.source.path
      states := some (d.expansions.bindings.map fun b =>
        ⟨b.name, b.modifier.name, b.ident.mark.span.start.text⟩)
      mutations := d.expansions.mutations
      wrapped := d.expansions.wrapped
      effects := d.expansions.effects
      memos := d.expansions.memos }

private def counts (i : Inspection) : List (Text × Text) :=
  [("Mutations", Text.ofInt i.mutations), ("Wrapped", Text.ofInt i.wrapped),
    ("Effects", Text.ofInt i.effects), ("Memos", Text.ofInt i.memos)]

def stateList (i : Inspection) : List StateInfo := i.states.getD []

private def stateJson (s : StateInfo) : Json :=
  .object [("name", .string s.name), ("modifier", .string s.modifier),
    ("position", .string s.position)]

def json (i : Inspection) : Json :=
  .object
    [("path", .string i.path),
      ("states", match i.states with
        | none => .null
        | some l => .array (l.map stateJson)),
      ("mutations", .int i.mutations), ("wrapped", .int i.wrapped), ("effects", .int i.effects),
      ("memos", .int i.memos)]

private def stateYaml (s : StateInfo) : Yaml :=
  .map [("name", .string s.name), ("modifier", .string s.modifier),
    ("position", .string s.position)]

def yaml (i : Inspection) : Yaml :=
  .map
    [("path", .string i.path), ("states", .list (i.stateList.map stateYaml)),
      ("mutations", .int i.mutations), ("wrapped", .int i.wrapped), ("effects", .int i.effects),
      ("memos", .int i.memos)]

private def grid (i : Inspection) : Grid :=
  ⟨["State", "Modifier", "Position"],
    i.stateList.map fun s => [.text s.name, .text s.modifier, .text s.position]⟩

private def markdown (i : Inspection) : Text :=
  let states := if i.stateList.isEmpty then [] else [i.grid.markdown, []]
  let head : List Text := [Markdown.header 1 i.path, []]
  (head ++ states ++ [Markdown.header 2 "Rewrites"] ++
    i.counts.map fun (k, v) => Markdown.keyValue k v).flatMap Renderer.line

private def text (i : Inspection) (r : Renderer) : Text :=
  let states :=
    if i.stateList.isEmpty then r.styled .muted "(no state declared)" else i.grid.boxed
  let parts := i.counts.map fun (k, v) => v ++ (" " : Text) ++ Text.toLower k
  ([r.styled .filePath i.path, states, r.styled .muted (Text.join ", " parts)] :
    List Text).flatMap Renderer.line

def render (i : Inspection) (r : Renderer) (format : Text) : Except Text Text :=
  let f := Text.toLower format
  if f = ("json" : Text) then .ok (Json.pretty i.json)
  else if f = ("yaml" : Text) || f = ("yml" : Text) then .ok (Yaml.document i.yaml)
  else if f = ("md" : Text) || f = ("markdown" : Text) then .ok i.markdown
  else if f = ("table" : Text) || f = ("text" : Text) then .ok (i.text r)
  else .error (("unknown format " : Text) ++ Text.quoted format ++
    (" (want table, markdown, json or yaml)" : Text))

def formatFor : OutputMode → Text
  | .json => "json"
  | .markdown => "markdown"
  | _ => "table"

end Inspection
end LabelHooks
