import LabelHooks.Command.Help
import LabelHooks.Config.Loader
import LabelHooks.Manual.Markup

/-!
The pages of the manual: an overview of the commands, a page for each command, and a page on the
configuration.
-/

namespace LabelHooks.Manual

private def settings : List (Text × Text) :=
  [("build.cache", "Build state database; unchanged files are served from it"),
    ("build.concurrency", "Files compiled at once"),
    ("build.debounce", "Quiet period before watch mode recompiles"),
    ("build.extensions", "File extensions picked up from directories"),
    ("build.jsx_factory", "Function JSX elements compile to"),
    ("build.jsx_fragment", "Component JSX fragments compile to"),
    ("build.minify", "Minify the output"),
    ("build.out_dir", "Directory compiled files are written to"),
    ("build.target", "Language level JSX and TypeScript are lowered to"),
    ("output", "Report format: auto, text, markdown or json"),
    ("sugar.effect_factory", "Call emitted for effects"),
    ("sugar.ignore_member_expr", "Leave property mutations such as obj.a = 1 untouched"),
    ("sugar.memo_factory", "Call emitted for memos"),
    ("sugar.state_factory", "Call emitted for state declarations"),
    ("sugar.state_label", "Label that declares reactive state"),
    ("sugar.watch_label", "Label that declares an effect or a memo"),
    ("verbose", "Debug logs on stderr")]

def keys : List Text := settings.map Prod.fst

private def ofBool (b : Bool) : Text := if b then "true" else "false"

def defaultValue (key : Text) : Text :=
  let c := Config.default
  let defaults : List (Text × Text) :=
    [("build.cache", c.build.cache), ("build.concurrency", "number of CPUs"),
      ("build.debounce", c.build.debounce.text),
      ("build.extensions", Text.join ", " c.build.extensions),
      ("build.jsx_factory", c.build.jsxFactory), ("build.jsx_fragment", c.build.jsxFragment),
      ("build.minify", ofBool c.build.minify), ("build.out_dir", c.build.outDir),
      ("build.target", c.build.target), ("output", c.output),
      ("sugar.effect_factory", c.options.effectFactory),
      ("sugar.ignore_member_expr", ofBool c.options.ignoreMembers),
      ("sugar.memo_factory", c.options.memoFactory),
      ("sugar.state_factory", c.options.stateFactory),
      ("sugar.state_label", c.options.stateLabel), ("sugar.watch_label", c.options.watchLabel),
      ("verbose", ofBool c.verbose)]
  (defaults.lookup key).getD []

def commands : List Command := (Command.sortedChildren .root .root).filter (· ≠ .help)

private def flagRow (f : Flag) : List Text :=
  let short := match f.short with
    | some s => [byte '-', s]
    | none => []
  let default := match f.default with
    | .text t => if t.isEmpty then [] else inlineCode t
    | v => v.shown
  [inlineCode (("--" : Text) ++ f.name), short, default, oneLine f.usage]

private def flagTable (flags : List Flag) : Text :=
  table ["Option", "Short", "Default", "Description"] ((Command.sortFlags flags).map flagRow)

def indexPage : Text :=
  frontmatter "CLI Reference" "Command-line interface reference for labelsugar" ++ marker ++
    heading 1 "CLI Reference" ++
    paragraph (("labelsugar provides a command-line interface for desugaring ref and " : Text) ++
      ("watch labels in files, on stdin and interactively." : Text)) ++
    heading 2 "Installation" ++
    code "bash" "go install github.com/leapstack-labs/labelsugar/cmd/labelsugar@latest" ++
    heading 2 "Basic Usage" ++
    code "bash" "labelsugar <command> [options]" ++
    heading 2 "Commands" ++
    table ["Command", "Description"] (commands.map fun c =>
      [("[" : Text) ++ inlineCode c.name ++ ("](/cli/" : Text) ++ c.name ++ (")" : Text),
        oneLine c.short]) ++
    heading 2 "Global Options" ++
    paragraph "These flags are available for all commands:" ++
    flagTable (Command.sharedFlags .root .root) ++
    heading 2 "Environment Variables" ++
    paragraph (("Every config key can be set through a " : Text) ++ inlineCode Config.envStart ++
      (" variable; nested keys are separated by a double underscore:" : Text)) ++
    table ["Variable", "Config key"]
      (keys.map fun k => [inlineCode (Config.envName k), inlineCode k]) ++
    paragraph (("Command-line flags take precedence over environment variables, which " : Text) ++
      ("take precedence over " : Text) ++
      inlineCode (Config.fileNames.headD []) ++ ("." : Text)) ++
    heading 2 "Exit Codes" ++
    table ["Code", "Meaning"]
      [[inlineCode "0", "Success"], [inlineCode "1", "Error (check stderr for details)"]] ++
    heading 2 "Getting Help" ++
    code "bash" "# General help
labelsugar help
labelsugar --help

# Command-specific help
labelsugar transform --help"

def commandPage (c : Command) : Text :=
  let kids := Command.sortedChildren .root c
  let part (present : Bool) (title body : Text) : Text :=
    if present then heading 2 title ++ body else []
  let usage :=
    if kids.isEmpty then Command.usageLine .root c (!c.ownFlags.isEmpty)
    else Command.path .root c ++ (" <subcommand> [options]" : Text)
  let own := Command.localFlags .root c
  let inherited := Command.inheritedFlags .root c
  frontmatter c.name c.short ++ marker ++ heading 1 c.name ++ paragraph c.description ++
    heading 2 "Usage" ++ code "bash" usage ++
    part (!c.aliases.isEmpty) "Aliases" (bullets (c.aliases.map inlineCode)) ++
    part (!kids.isEmpty) "Subcommands" (table ["Subcommand", "Description"]
      (kids.map fun d => [inlineCode d.name, oneLine d.short])) ++
    part (!own.isEmpty) "Options" (flagTable own) ++
    part (!inherited.isEmpty) "Global Options" (flagTable inherited) ++
    part (!c.examples.isEmpty) "Examples" (code "bash" (unindented c.examples))

def configurationPage : Text :=
  let rows := settings.map fun (key, meaning) =>
    let default := defaultValue key
    [inlineCode key, if default.isEmpty then [] else inlineCode default, meaning]
  frontmatter "Configuration" "Configuration reference for labelsugar" ++ marker ++
    heading 1 "Configuration" ++
    paragraph (("labelsugar reads " : Text) ++
      Text.join " (or " (Config.fileNames.map inlineCode) ++
      (") from the working directory or the nearest parent, then " : Text) ++
      inlineCode Config.envStart ++
      (" environment variables, then command-line flags." : Text)) ++
    heading 2 "Example" ++
    code "yaml" "sugar:
  state_label: $
  state_factory: useImmer
  ignore_member_expr: false
build:
  out_dir: dist
  extensions: [.js, .jsx]
output: text" ++
    heading 2 "Keys" ++ table ["Key", "Default", "Description"] rows

end LabelHooks.Manual
