import LabelHooks.Command.Flag

/-!
The commands of the program: their names, their texts in help, and the flags and arguments they
take.
-/

namespace LabelHooks

inductive Command where
  | root | version | transform | inspect | repl | cache | runs | clear | completion | help
deriving DecidableEq, Repr

inductive Arity where
  | any | none | one
  | oneOf (words : List Text)
deriving DecidableEq, Repr

namespace Command

def all : List Command :=
  [.root, .version, .transform, .inspect, .repl, .cache, .runs, .clear, .completion, .help]

def name : Command → Text
  | .root => "labelsugar"
  | .version => "version"
  | .transform => "transform"
  | .inspect => "inspect"
  | .repl => "repl"
  | .cache => "cache"
  | .runs => "runs"
  | .clear => "clear"
  | .completion => "completion"
  | .help => "help"

def aliases : Command → List Text
  | .transform => ["build"]
  | _ => []

/-- The command that a command belongs to. Commands can also be used without those above them:
`top` is the one at the top. -/
def parent? (top : Command) : Command → Option Command
  | .root => none
  | .help => some top
  | .runs | .clear => some .cache
  | _ => if top = .root then some .root else none

def children (top c : Command) : List Command :=
  let own := all.filter fun d => d ≠ .help && parent? top d = some c
  if c = top && !own.isEmpty then own ++ [.help] else own

private def insertByName (c : Command) : List Command → List Command
  | [] => [c]
  | x :: xs => if Text.le c.name x.name then c :: x :: xs else x :: insertByName c xs

def sortedChildren (top c : Command) : List Command := (children top c).foldr insertByName []

def child? (top c : Command) (word : Text) : Option Command :=
  (children top c).find? fun d => d.name = word || d.aliases.elem word

def ancestors (top c : Command) : List Command :=
  match parent? top c with
  | none => []
  | some p => match parent? top p with
    | none => [p]
    | some q => [p, q]

def isRunnable : Command → Bool
  | .root | .cache => false
  | _ => true

def operands : Command → Text
  | .transform => "[paths...]"
  | .inspect => "<file>"
  | .completion => "[bash|zsh|fish|powershell]"
  | .help => "[command]"
  | _ => []

def shells : List Text := ["bash", "zsh", "fish", "powershell"]

def arity : Command → Arity
  | .inspect => .one
  | .repl | .runs | .clear => .none
  | .completion => .oneOf shells
  | _ => .any

def short : Command → Text
  | .root => "labelsugar - label sugar for React hooks"
  | .version => "Show version information"
  | .transform => "Desugar ref and watch labels into hook calls"
  | .inspect => "Show the reactive state a file declares"
  | .repl => "Desugar snippets interactively"
  | .cache => "Inspect or clear the build state database"
  | .runs => "List recent transform runs"
  | .clear => "Remove every cached file"
  | .completion => "Generate shell completion scripts"
  | .help => "Help about any command"

def long : Command → Text
  | .root =>
    "labelsugar rewrites labeled statements into React hook calls.

A \"ref:\" label declares state and turns later assignments into setter calls;
a \"watch:\" label turns an arrow function into an effect, or an assignment of
one into a memo. JSX and TypeScript sources are lowered first."
  | .version => "Display labelsugar version and build information."
  | .transform =>
    "Transform rewrites labeled statements into React hook calls.

  ref: count = 0          becomes  const [count, _setCount] = React.useState(0);
  count += 1              becomes  _setCount(count => count + 1);
  watch: (count) => f()   becomes  React.useEffect(() => f(), [count]);
  watch: x = (a) => a * 2 becomes  const x = React.useMemo(() => a * 2, [a]);

Paths may be files or directories. Directories are searched recursively for
source files, skipping node_modules and hidden directories. JSX and
TypeScript are lowered first.

Without --out-dir a single input is printed to stdout. With no paths, or the
path \"-\", source is read from stdin."
  | .inspect =>
    "Inspect compiles a file in memory and reports every ref declaration with
the modifier allocated for it, plus how many mutations, property mutations,
effects and memos were rewritten. Nothing is written."
  | .repl =>
    "Start an interactive session that desugars each snippet as it is entered.

A snippet ends with an empty line or a line ending in ;; and is compiled as
one program, so a ref declared in one snippet is not visible in the next."
  | .cache =>
    "The build state database holds the compiled output of every file transformed
with --cache, keyed by the file content and the settings it was compiled
with, plus a history of transform runs."
  | .completion =>
    "Generate shell completion scripts for labelsugar.

To load completions:

Bash:
  $ source <(labelsugar completion bash)

  # To load completions for each session, execute once:
  # Linux:
  $ labelsugar completion bash > /etc/bash_completion.d/labelsugar
  # macOS:
  $ labelsugar completion bash > $(brew --prefix)/etc/bash_completion.d/labelsugar

Zsh:
  # If shell completion is not already enabled in your environment,
  # you will need to enable it. Execute the following once:
  $ echo \"autoload -U compinit; compinit\" >> ~/.zshrc

  # To load completions for each session, execute once:
  $ labelsugar completion zsh > \"$\x7bfpath[1]\x7d/_labelsugar\"

  # You will need to start a new shell for this setup to take effect.

Fish:
  $ labelsugar completion fish | source

  # To load completions for each session, execute once:
  $ labelsugar completion fish > ~/.config/fish/completions/labelsugar.fish

PowerShell:
  PS> labelsugar completion powershell | Out-String | Invoke-Expression

  # To load completions for every new session, run:
  PS> labelsugar completion powershell > labelsugar.ps1
  # and source this file from your PowerShell profile.
"
  | .help =>
    "Help provides help for any command in the application.
Simply type labelsugar help [path to command] for full details."
  | .runs | .clear => []

def examples : Command → Text
  | .transform =>
    "  # Print one file
  labelsugar transform src/Counter.jsx

  # Compile a tree into dist/
  labelsugar transform src --out-dir dist

  # Recompile on change
  labelsugar transform src --out-dir dist --watch

  # Skip files unchanged since the last run
  labelsugar transform src --out-dir dist --cache .labelsugar/state.db

  # Filter stdin with immer-style state
  cat App.js | labelsugar transform --state-factory useImmer --ignore-member-expr=false"
  | .inspect =>
    "  labelsugar inspect src/Counter.jsx
  labelsugar inspect src/Counter.jsx --format yaml
  labelsugar inspect - < App.js"
  | _ => []

private def labelFlags : List Flag :=
  [{ name := "state-label", usage := "label that declares reactive state (default \"ref\")" },
    { name := "watch-label", usage := "label that declares effects and memos (default \"watch\")" },
    { name := "state-factory"
      usage := "call emitted for state declarations (default \"React.useState\")" },
    { name := "effect-factory", usage := "call emitted for effects (default \"React.useEffect\")" },
    { name := "memo-factory", usage := "call emitted for memos (default \"React.useMemo\")" },
    { name := "ignore-member-expr", default := .bool true
      usage := "leave property mutations such as obj.a = 1 untouched" }]

private def loweringFlags : List Flag :=
  [{ name := "target"
     usage := "language level JSX and TypeScript are lowered to (default \"esnext\")" },
    { name := "jsx-factory"
      usage := "function JSX elements compile to (default \"React.createElement\")" },
    { name := "jsx-fragment"
      usage := "component JSX fragments compile to (default \"React.Fragment\")" },
    { name := "minify", default := .bool false, usage := "minify the output" }]

def stdinName : Text := "stdin.js"

def runLimit : Int := 10

def ownFlags : Command → List Flag
  | .transform => labelFlags ++ loweringFlags ++
    [{ name := "out-dir", short := byte 'd', usage := "directory compiled files are written to" },
      { name := "cache", usage := "build state database; unchanged files are served from it" },
      { name := "concurrency", default := .int 0
        usage := "files compiled at once (default: number of CPUs)" },
      { name := "extensions", default := .list []
        usage := "file extensions picked up from directories" },
      { name := "debounce", default := .duration 0
        usage := "quiet period before watch mode recompiles (default 100ms)" },
      { name := "watch", short := byte 'w', default := .bool false
        usage := "recompile when files change" },
      { name := "stdin-filename", default := .text stdinName
        usage := "file name stdin is compiled as; its extension picks the loader" }]
  | .inspect => labelFlags ++ loweringFlags ++
    [{ name := "format", short := byte 'f'
       usage := "report format: table, markdown, json or yaml (default follows --output)" }]
  | .repl => labelFlags ++ loweringFlags ++
    [{ name := "jsx", default := .bool false, usage := "lower JSX in snippets" }]
  | .runs =>
    [{ name := "limit", short := byte 'n', default := .int runLimit
       usage := "number of runs to show" }]
  | _ => []

private def configFlag : Flag :=
  { name := "config", usage := "config file (default: labelsugar.yaml, searched upward)" }

def sharedFlags (top : Command) : Command → List Flag
  | .root =>
    [configFlag,
      { name := "verbose", short := byte 'v', default := .bool false
        usage := "Verbose output (debug logs on stderr)" },
      { name := "output", short := byte 'o', usage := "Output format (auto|text|markdown|json)" }]
  | .cache =>
    ({ name := "cache", usage := "build state database (default from build.cache)" } : Flag) ::
      (if top = .cache then [configFlag] else [])
  | c => if c = top then [configFlag] else []

def inheritedFlags (top c : Command) : List Flag := (ancestors top c).flatMap (sharedFlags top)

def commonFlags (c : Command) : List Flag :=
  let help : Flag := { name := "help", short := byte 'h', default := .bool false
                       usage := ("help for " : Text) ++ c.name }
  let version : Flag := { name := "version", default := .bool false
                          usage := ("version for " : Text) ++ c.name }
  if c = .root then [help, version] else [help]

def localFlags (top c : Command) : List Flag := c.ownFlags ++ sharedFlags top c

def declaredFlags (top c : Command) : List Flag := localFlags top c ++ inheritedFlags top c

def flags (top c : Command) : List Flag := declaredFlags top c ++ c.commonFlags

private def insertFlag (f : Flag) : List Flag → List Flag
  | [] => [f]
  | x :: xs => if Text.le f.name x.name then f :: x :: xs else x :: insertFlag f xs

def sortFlags (flags : List Flag) : List Flag := flags.foldr insertFlag []

def path (top c : Command) : Text :=
  Text.join " " ((c :: ancestors top c).reverse.map name)

end Command
end LabelHooks
