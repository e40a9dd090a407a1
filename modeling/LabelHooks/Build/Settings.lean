import LabelHooks.Path.Basic
import LabelHooks.Text.Case
import LabelHooks.Text.Quoted
import LabelHooks.Time.Duration

/-!
Settings of a build: where output goes, for which language level, and which files are sources.
-/

namespace LabelHooks

inductive Target where
  | esnext | es5 | es2015 | es2016 | es2017 | es2018 | es2019 | es2020 | es2021 | es2022 | es2023
  | es2024
deriving DecidableEq, Repr

namespace Target

private def names : List (Text × Target) :=
  [("esnext", .esnext), ("es5", .es5), ("es6", .es2015), ("es2015", .es2015), ("es2016", .es2016),
    ("es2017", .es2017), ("es2018", .es2018), ("es2019", .es2019), ("es2020", .es2020),
    ("es2021", .es2021), ("es2022", .es2022), ("es2023", .es2023), ("es2024", .es2024)]

def ofName? (name : Text) : Option Target :=
  if name.isEmpty then some .esnext else names.lookup (Text.toLower name)

def unknown (name : Text) : Text := ("unknown target " : Text) ++ Text.quoted name

end Target

structure BuildSettings where
  outDir : Text := []
  cache : Text := []
  minify : Bool := false
  target : Text := []
  jsxFactory : Text := []
  jsxFragment : Text := []
  /-- How many files are compiled at once; none means one for each processor. -/
  concurrency : Option Nat := none
  extensions : List Text := []
  /-- The quiet time before changed files are compiled again. -/
  debounce : Duration := 0
deriving DecidableEq, Repr

namespace BuildSettings

def defaultTarget : Text := "esnext"

def defaultExtensions : List Text := [".js", ".mjs", ".cjs", ".jsx", ".ts", ".tsx"]

def defaultDebounce : Duration := 100 * Duration.millisecond

def outExt : Text := ".js"

def normalExt (e : Text) : Text :=
  let e := Text.toLower e
  if Text.hasPrefix "." e then e else byte '.' :: e

def withDefaults (b : BuildSettings) : BuildSettings :=
  { b with
    target := if b.target.isEmpty then defaultTarget else b.target
    extensions :=
      (if b.extensions.isEmpty then defaultExtensions else b.extensions).map normalExt
    debounce := if b.debounce ≤ 0 then defaultDebounce else b.debounce }

def isSource (b : BuildSettings) (path : Text) : Bool :=
  b.extensions.contains (Text.toLower (Path.ext path))

def needsLowering (path : Text) : Bool :=
  [(".jsx" : Text), ".ts", ".mts", ".cts", ".tsx"].contains (Text.toLower (Path.ext path))

end BuildSettings
end LabelHooks
