import LabelHooks.Report.Log
import LabelHooks.Text.Blank
import LabelHooks.Text.Quoted

/-!
Log records as lines of text: `level=DEBUG msg="state declared" name=a`.
-/

namespace LabelHooks.LogRecord

private def isSpecial (b : UInt8) : Bool :=
  b ≤ 0x20 || b = byte '=' || b = byte '"'

private def needsQuotes (t : Text) : Bool :=
  t.isEmpty || t.chunks.any fun (r, bytes) =>
    match bytes with
    | [b] => if b < 0x80 then isSpecial b else true
    | _ => r.code = 0xFFFD || Text.isBlank r.code || !Text.isPrintable r.code

private def value (t : Text) : Text := if needsQuotes t then Text.quoted t else t

private def pair (key v : Text) : Text := value key ++ ("=" : Text) ++ value v

def line (r : LogRecord) : Text :=
  Text.join " " (pair "level" r.level.name :: pair "msg" r.message ::
    r.attrs.map fun (k, v) => pair k v) ++ ("\n" : Text)

end LabelHooks.LogRecord
