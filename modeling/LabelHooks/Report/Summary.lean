import LabelHooks.Build.Compiler
import LabelHooks.Report.Renderer
import LabelHooks.Time.Brief

/-!
The report on the outputs of one build.
-/

namespace LabelHooks.Summary

private def changes (o : Output) : Text := Text.ofNat o.stats.total ++ (" rewrites, " : Text)

def detail (o : Output) : Text :=
  ("(" : Text) ++ changes o ++ (if o.cached then ("cached" : Text) else o.duration.brief) ++
    (")" : Text)

private def fileJson (c : Compiler) (o : Output) : Json :=
  let path := c.outputPath o.source
  let written : List (Text × Json) := if path.isEmpty then [] else [("output", .string path)]
  let counts : List (Text × Json) :=
    [("states", .nat o.stats.states), ("mutations", .nat o.stats.mutations),
      ("wrapped", .nat o.stats.wrapped), ("effects", .nat o.stats.effects),
      ("memos", .nat o.stats.memos), ("cached", .bool o.cached),
      ("duration_ms", .number o.duration.millisecondsText)]
  .object (("path", .string o.source.path) :: (written ++ counts))

def render (c : Compiler) (outputs : List Output) (r : Renderer) : Text :=
  let total := outputs.foldr (fun o n => o.stats.total + n) 0
  let cached := (outputs.filter (·.cached)).length
  match r.effectiveMode with
  | .json => Json.pretty (.object
      [("files", .array (outputs.map (fileJson c))),
        ("summary", .object [("files", .nat outputs.length), ("rewrites", .nat total),
          ("cached", .nat cached)])])
  | .markdown =>
    let head : List Text := [Markdown.header 1 "Transform", []]
    let kept : List Text :=
      if cached > 0 then [Markdown.keyValue "Cached" (Text.ofNat cached)] else []
    (head ++ (outputs.map fun o => Markdown.keyValue o.source.path (c.outputPath o.source)) ++
      [[], Markdown.header 2 "Summary", Markdown.keyValue "Files" (Text.ofNat outputs.length),
        Markdown.keyValue "Rewrites" (Text.ofNat total)] ++ kept).flatMap Renderer.line
  | _ =>
    (outputs.flatMap fun o => r.statusLine o.source.rel "success" (detail o)) ++
      r.success (("Compiled " : Text) ++ Text.ofNat outputs.length ++ (" file(s) with " : Text) ++
        Text.ofNat total ++ (" rewrites into " : Text) ++ c.build.outDir)

end LabelHooks.Summary
