import LabelHooks.Command.Catalog

/-!
Help pages. A page is made of sections with an empty line between them.
-/

namespace LabelHooks.Command

private def lines (l : List Text) : Text := Text.join "\n" l

private def flagHead (f : Flag) : Text :=
  let start := match f.short with
    | some s => ("  -" : Text) ++ [s] ++ (", --" : Text)
    | none => ("      --" : Text)
  let kind := f.default.kindName
  start ++ f.name ++ if kind.isEmpty then [] else byte ' ' :: kind

private def flagDefault (f : Flag) : Text :=
  if f.default.isZero then []
  else match f.default with
    | .text t => (" (default " : Text) ++ Text.quoted t ++ (")" : Text)
    | v => (" (default " : Text) ++ v.shown ++ (")" : Text)

def flagLines (flags : List Flag) : Text :=
  let flags := sortFlags flags
  let widest := (flags.map fun f => (flagHead f).length).foldl max 0
  lines (flags.map fun f =>
    let head := flagHead f
    head ++ Text.spaces (widest + 3 - head.length) ++ f.usage ++ flagDefault f)

def usageLine (top c : Command) (flagged : Bool) : Text :=
  let operands := if c.operands.isEmpty then [] else byte ' ' :: c.operands
  path top c ++ operands ++ if flagged && c ≠ .completion then (" [flags]" : Text) else []

private def nameColumn : Nat := 11

private def childLine (c : Command) : Text :=
  ("  " : Text) ++ c.name ++ Text.spaces (nameColumn + 1 - c.name.length) ++ c.short

private def titled (title body : Text) : Text := title ++ ("\n" : Text) ++ body

/-- The sections of a help page that follow the description, for a command with the given flags of
its own. -/
private def usageSections (top c : Command) (flags : List Flag) : List Text :=
  let kids := sortedChildren top c
  let use : List Text := if c.isRunnable then [("  " : Text) ++ usageLine top c true] else []
  let sub : List Text :=
    if kids.isEmpty then [] else [("  " : Text) ++ path top c ++ (" [command]" : Text)]
  let only (present : Bool) (section_ : Text) : List Text := if present then [section_] else []
  let inherited := inheritedFlags top c
  [lines (("Usage:" : Text) :: (use ++ sub))] ++
    only (!c.aliases.isEmpty)
      (titled "Aliases:" (("  " : Text) ++ Text.join ", " (c.name :: c.aliases))) ++
    only (!c.examples.isEmpty) (titled "Examples:" c.examples) ++
    only (!kids.isEmpty) (titled "Available Commands:" (lines (kids.map childLine))) ++
    only (!flags.isEmpty) (titled "Flags:" (flagLines flags)) ++
    only (!inherited.isEmpty) (titled "Global Flags:" (flagLines inherited)) ++
    only (!kids.isEmpty) (("Use \"" : Text) ++ path top c ++
      (" [command] --help\" for more information about a command." : Text))

private def page (sections : List Text) : Text := Text.join "\n\n" sections ++ ("\n" : Text)

private def isTrailing (b : UInt8) : Bool := b = byte ' ' || (9 ≤ b && b ≤ 13)

def description (c : Command) : Text := if c.long.isEmpty then c.short else c.long

def helpPage (top c : Command) : Text :=
  page (Text.trimRight isTrailing c.description ::
    usageSections top c (localFlags top c ++ c.commonFlags))

/-- How a command is used, without its description and without the flags that every command
has. -/
def usagePage (top c : Command) : Text := page (usageSections top c (localFlags top c))

end LabelHooks.Command
