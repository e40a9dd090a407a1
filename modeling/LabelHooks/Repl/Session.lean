import LabelHooks.Build.Compiler
import LabelHooks.Config.Loader
import LabelHooks.Repl.Snippets
import LabelHooks.Yaml.Writer

/-!
A session that compiles snippets one by one. Each is compiled alone, so that an error in one has no
effect on the others.
-/

namespace LabelHooks.Repl

structure Response where
  log : List LogRecord := []
  out : Text := []
  err : Text := []
  crashed : Bool := false

private def help : Text :=
  "
Commands:
  .help           Show this help message
  .options        Show the active desugaring options
  .clear          Clear the screen
  .quit / .exit   Exit the REPL

Tips:
  - End a snippet with an empty line or ;;
  - Each snippet is compiled on its own
  - Use arrow keys to navigate history

"

private def clearScreen : Text := [0x1B, byte '[', byte 'H', 0x1B, byte '[', byte '2', byte 'J']

private def settings (c : Config) : Yaml :=
  .map
    [("build", .map
      [("jsx_factory", .string c.build.jsxFactory), ("jsx_fragment", .string c.build.jsxFragment),
        ("minify", .bool c.build.minify), ("target", .string c.build.target)]),
      ("sugar", .map
        [("state_label", .string c.options.stateLabel),
          ("watch_label", .string c.options.watchLabel),
          ("state_factory", .string c.options.stateFactory),
          ("effect_factory", .string c.options.effectFactory),
          ("memo_factory", .string c.options.memoFactory),
          ("ignore_member_expr", .bool c.options.ignoreMembers)])]

def runCommand (c : Config) (word : Text) : Response :=
  if word = (".help" : Text) then { out := help }
  else if word = (".options" : Text) then { out := Yaml.document (settings c) }
  else if word = (".clear" : Text) then { out := clearScreen }
  else { err := ("Unknown command: " : Text) ++ word ++ (" (type .help for commands)\n" : Text) }

def runSnippet (compiler : Compiler) (file source : Text) : Response :=
  match compiler.compileSource file source with
  | (log, .error (.crashed _)) => { log, crashed := true }
  | (log, .error e) => { log, err := ("Error: " : Text) ++ e.message ++ ("\n" : Text) }
  | (log, .ok o) => { log, out := o.code ++ ("\n" : Text) }

def respond (c : Config) (compiler : Compiler) (file : Text) : Event → Response
  | .command word => runCommand c word
  | .snippet source => runSnippet compiler file source

end LabelHooks.Repl
