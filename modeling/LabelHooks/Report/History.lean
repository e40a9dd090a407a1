import LabelHooks.Build.Store
import LabelHooks.Json.Writer
import LabelHooks.Report.Grid
import LabelHooks.Report.Renderer
import LabelHooks.Time.Brief

/-!
The report on recorded runs.
-/

namespace LabelHooks.History

def duration (r : Run) : Duration :=
  match r.completed with
  | none => 0
  | some t => Duration.clamp ((t - r.started) * Duration.millisecond)

private def runJson (r : Run) : Json :=
  let d := duration r
  let base : List (Text × Json) :=
    [("id", .string r.id), ("command", .string r.command), ("status", .string r.status),
      ("files", .int r.files), ("cached", .int r.cached), ("started_at", .string r.started.text)]
  let took : List (Text × Json) :=
    if d = 0 then [] else [("duration_ms", .number d.millisecondsText)]
  let failed : List (Text × Json) := if r.error.isEmpty then [] else [("error", .string r.error)]
  .object (base ++ took ++ failed)

private def shownDuration (d : Duration) : Text :=
  if d ≤ 0 then "-"
  else Duration.brief ((d.milliseconds.mul (Binary.ofNat 1000000)).floor : Int)

private def grid (runs : List Run) : Grid :=
  ⟨["Started", "Status", "Files", "Cached", "Duration", "Error"],
    runs.map fun r => [.text r.started.text, .text r.status, .number r.files, .number r.cached,
      .text (shownDuration (duration r)), .text r.error]⟩

def render (runs : List Run) (r : Renderer) : Text :=
  match r.effectiveMode with
  | .json => Json.pretty (.array (runs.map runJson))
  | .markdown =>
    ([Markdown.header 1 "Runs", [],
      if runs.isEmpty then ("No runs recorded." : Text) else (grid runs).markdown] :
      List Text).flatMap Renderer.line
  | _ => if runs.isEmpty then r.muted "No runs recorded." else Renderer.line (grid runs).boxed

end LabelHooks.History
