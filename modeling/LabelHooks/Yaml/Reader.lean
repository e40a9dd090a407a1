import LabelHooks.Yaml.Value

/-!
Reading YAML: block and flow collections, plain, quoted and block scalars, anchors, aliases and
merged maps. A reader gives nothing when the text is not well formed.
-/

namespace LabelHooks.Yaml

/-- What is left of the text, how far its first byte stands from the start of its line, the number
of that line, and the values that were given a name. -/
structure Cursor where
  rest : Text
  column : Nat := 0
  line : Nat := 0
  anchors : List (Text × Yaml) := []

namespace Cursor

private def advanceBy (c : Cursor) : Nat → Text → Cursor
  | _, [] => { c with rest := [] }
  | 0, t => { c with rest := t }
  | n + 1, b :: bs =>
    if b = Text.newline then advanceBy { c with column := 0, line := c.line + 1 } n bs
    else advanceBy { c with column := c.column + 1 } n bs

def skip (c : Cursor) (n : Nat) : Cursor := c.advanceBy n c.rest

def peek (c : Cursor) : Option UInt8 := c.rest.head?

end Cursor

abbrev Read := StateT Cursor Option

private def isBlank (b : UInt8) : Bool := b = byte ' ' || b = byte '\t'

private def isBlankOrEnd : Option UInt8 → Bool
  | none => true
  | some b => isBlank b || b = Text.newline

private def skipBlanks (c : Cursor) : Cursor := c.skip (c.rest.takeWhile isBlank).length

private def skipSpaces (c : Cursor) : Cursor := c.skip (c.rest.takeWhile (· = byte ' ')).length

private def skipComment (c : Cursor) : Cursor :=
  if c.peek = some (byte '#') then c.skip (c.rest.takeWhile (· ≠ Text.newline)).length else c

private def atMarker (c : Cursor) : Bool :=
  c.column = 0 && (Text.hasPrefix "---" c.rest || Text.hasPrefix "..." c.rest) &&
    isBlankOrEnd (c.rest[3]?)

private def atEnd (c : Cursor) : Bool := c.rest.isEmpty || atMarker c

private def nextLine : Nat → Cursor → Cursor
  | 0, c => c
  | fuel + 1, c =>
    let c := skipComment (skipSpaces c)
    if c.peek = some Text.newline then nextLine fuel (c.skip 1) else c

private def lineEnds (c : Cursor) : Option Cursor :=
  let c := skipComment (skipBlanks c)
  if c.rest.isEmpty || c.peek = some Text.newline then some (nextLine (c.rest.length + 1) c)
  else none

private def flowMarks : Text := ",?[]\x7b\x7d"

private def plainChunk (flow : Bool) : Text → Nat
  | [] => 0
  | b :: rest =>
    if isBlank b || b = Text.newline then 0
    else if b = byte ':' && isBlankOrEnd rest.head? then 0
    else if flow && List.elem b flowMarks then 0
    else plainChunk flow rest + 1

private def foldBreaks (indent : Nat) : Nat → Nat → Cursor → Option (Nat × Cursor)
  | 0, n, c => some (n, c)
  | fuel + 1, n, c =>
    match c.peek with
    | some b =>
      if b = Text.newline then foldBreaks indent fuel (n + 1) (c.skip 1)
      else if b = byte ' ' then foldBreaks indent fuel n (c.skip 1)
      else if b = byte '\t' then
        if n > 0 && c.column < indent then none else foldBreaks indent fuel n (c.skip 1)
      else some (n, c)
    | none => some (n, c)

private def folded (breaks : Nat) : Text :=
  if breaks ≤ 1 then Text.spaces 1 else List.replicate (breaks - 1) Text.newline

private def plainFrom (flow oneLine : Bool) (indent : Nat) : Nat → Cursor → Option (Text × Cursor)
  | 0, _ => none
  | fuel + 1, c =>
    let n := plainChunk flow c.rest
    let chunk := c.rest.take n
    let stop := c.skip n
    let blanks := stop.rest.takeWhile isBlank
    let after := stop.skip blanks.length
    match after.peek with
    | none => some (chunk, stop)
    | some b =>
      if b ≠ Text.newline then
        if b = byte '#' || plainChunk flow after.rest = 0 then some (chunk, stop)
        else match plainFrom flow oneLine indent fuel after with
          | none => none
          | some (more, c) => some (chunk ++ blanks ++ more, c)
      else if oneLine then some (chunk, stop)
      else match foldBreaks indent (after.rest.length + 1) 0 after with
        | none => none
        | some (breaks, next) =>
          if atEnd next || (!flow && next.column < indent) || next.peek = some (byte '#')
              || plainChunk flow next.rest = 0 then some (chunk, stop)
          else match plainFrom flow oneLine indent fuel next with
            | none => none
            | some (more, c) => some (chunk ++ folded breaks ++ more, c)

private def startsPlain (flow : Bool) (t : Text) : Bool :=
  match t with
  | [] => false
  | b :: rest =>
    if b = byte '-' then !rest.head?.any isBlank && !(isBlankOrEnd rest.head?)
    else if b = byte '?' || b = byte ':' then !flow && !isBlankOrEnd rest.head?
    else !(isBlank b || b = Text.newline ||
      List.elem b (",[]\x7b\x7d#&*!|>'\"%@\x60" : Text))

private def singleQuotedFrom (oneLine : Bool) : Nat → Cursor → Option (Text × Cursor)
  | 0, _ => none
  | fuel + 1, c =>
    if atMarker c then none
    else match c.rest with
      | [] => none
      | 0x27 :: 0x27 :: _ => (singleQuotedFrom oneLine fuel (c.skip 2)).map fun (t, c) =>
          (byte '\'' :: t, c)
      | 0x27 :: _ => some ([], c.skip 1)
      | b :: _ =>
        if isBlank b || b = Text.newline then
          let blanks := c.rest.takeWhile isBlank
          let after := c.skip blanks.length
          if after.peek = some Text.newline then
            if oneLine then none
            else match foldBreaks 0 (after.rest.length + 1) 0 after with
              | none => none
              | some (breaks, next) => (singleQuotedFrom oneLine fuel next).map fun (t, c) =>
                  (folded breaks ++ t, c)
          else (singleQuotedFrom oneLine fuel after).map fun (t, c) => (blanks ++ t, c)
        else (singleQuotedFrom oneLine fuel (c.skip 1)).map fun (t, c) => (b :: t, c)

private def escape? (b : UInt8) : Option Nat :=
  let table : List (Char × Nat) :=
    [('0', 0), ('a', 7), ('b', 8), ('t', 9), ('\t', 9), ('n', 10), ('v', 11), ('f', 12), ('r', 13),
      ('e', 27), (' ', 32), ('"', 34), ('\'', 39), ('/', 47), ('\\', 92), ('N', 0x85), ('_', 0xA0),
      ('L', 0x2028), ('P', 0x2029)]
  (table.find? fun (c, _) => byte c = b).map (·.2)

private def hexLength? (b : UInt8) : Option Nat :=
  if b = byte 'x' then some 2
  else if b = byte 'u' then some 4
  else if b = byte 'U' then some 8
  else none

private def isCharacter (n : Nat) : Bool := n ≤ 0x10FFFF && !(0xD800 ≤ n && n ≤ 0xDFFF)

private def doubleQuotedFrom (oneLine : Bool) : Nat → Cursor → Option (Text × Cursor)
  | 0, _ => none
  | fuel + 1, c =>
    if atMarker c then none
    else match c.rest with
      | [] => none
      | 0x22 :: _ => some ([], c.skip 1)
      | 0x5C :: b :: more =>
        if b = Text.newline then
          if oneLine then none
          else match foldBreaks 0 (more.length + 2) 0 (c.skip 1) with
            | none => none
            | some (breaks, next) => (doubleQuotedFrom oneLine fuel next).map fun (t, c) =>
                (List.replicate (breaks - 1) Text.newline ++ t, c)
        else match hexLength? b with
          | some n =>
            let digits := more.take n
            match natOf? 16 digits with
            | none => none
            | some code =>
              if digits.length = n && isCharacter code then
                (doubleQuotedFrom oneLine fuel (c.skip (n + 2))).map fun (t, c) =>
                  (Text.ofCode code ++ t, c)
              else none
          | none => match escape? b with
            | none => none
            | some code => (doubleQuotedFrom oneLine fuel (c.skip 2)).map fun (t, c) =>
                (Text.ofCode code ++ t, c)
      | b :: _ =>
        if b = byte '\\' then none
        else if isBlank b || b = Text.newline then
          let blanks := c.rest.takeWhile isBlank
          let after := c.skip blanks.length
          if after.peek = some Text.newline then
            if oneLine then none
            else match foldBreaks 0 (after.rest.length + 1) 0 after with
              | none => none
              | some (breaks, next) => (doubleQuotedFrom oneLine fuel next).map fun (t, c) =>
                  (folded breaks ++ t, c)
          else (doubleQuotedFrom oneLine fuel after).map fun (t, c) => (blanks ++ t, c)
        else (doubleQuotedFrom oneLine fuel (c.skip 1)).map fun (t, c) => (b :: t, c)

/-- The end of a block scalar: its last break is kept alone, with those after it, or not at
all. -/
private inductive Chomp where
  | clip | keep | strip
deriving DecidableEq

private def scalarLines (indent : Nat) : Nat → Cursor → List Text × Cursor
  | 0, c => ([], c)
  | fuel + 1, c =>
    let spaces := (c.rest.takeWhile (· = byte ' ')).length
    let next := c.skip (min spaces indent)
    if next.peek = some Text.newline then
      let (ls, c) := scalarLines indent fuel (next.skip 1)
      ([] :: ls, c)
    else if spaces < indent || next.rest.isEmpty || (indent = 0 && atMarker next) then ([], c)
    else
      let l := next.rest.takeWhile (· ≠ Text.newline)
      let (ls, c) := scalarLines indent fuel (next.skip (l.length + 1))
      (l :: ls, c)

private def firstIndent : Nat → Cursor → Nat
  | 0, _ => 0
  | fuel + 1, c =>
    let c := skipSpaces c
    if c.peek = some Text.newline then max c.column (firstIndent fuel (c.skip 1)) else c.column

private def foldLines : List Text → Text
  | [] => []
  | [l] => l
  | l :: m :: ls =>
    let more := fun (t : Text) => t.head?.any isBlank
    if m.isEmpty then
      let gaps := (m :: ls).takeWhile List.isEmpty
      let rest := (m :: ls).drop gaps.length
      match rest with
      | [] => l ++ List.replicate gaps.length Text.newline
      | r :: _ =>
        let extra := if l.isEmpty || more l || more r then 1 else 0
        l ++ List.replicate (gaps.length + extra) Text.newline ++ foldLines rest
    else if more l || more m || l.isEmpty then l ++ (Text.newline :: foldLines (m :: ls))
    else l ++ (byte ' ' :: foldLines (m :: ls))
termination_by l => l.length
decreasing_by
  all_goals simp_all [List.length_drop]
  all_goals omega

private def dropLastEmpty (ls : List Text) : List Text :=
  (ls.reverse.dropWhile List.isEmpty).reverse

private def blockScalar (foldIt : Bool) (parent : Int) (c : Cursor) : Option (Text × Cursor) :=
  let header := c.rest.takeWhile fun b => !(isBlank b) && b ≠ Text.newline
  let chomps := header.filter fun b => b = byte '+' || b = byte '-'
  let digits := header.filter Text.isDigit
  if header.length ≠ chomps.length + digits.length || chomps.length > 1 || digits.length > 1
      || digits = ("0" : Text) then none
  else
    let c := skipComment (skipBlanks (c.skip header.length))
    if !(c.rest.isEmpty || c.peek = some Text.newline) then none
    else
      let c := c.skip 1
      let indent : Nat := match digits with
        | d :: _ => ((max parent 0) + (d.toNat - 48)).toNat
        | [] => max 1 (max (firstIndent (c.rest.length + 1) c) (parent + 1).toNat)
      let (all, c) := scalarLines indent (c.rest.length + 1) c
      let chomp : Chomp := match chomps with
        | b :: _ => if b = byte '+' then .keep else .strip
        | [] => .clip
      let body := dropLastEmpty all
      let text := if foldIt then foldLines body else Text.join [Text.newline] body
      let tail := match chomp with
        | .strip => []
        | .clip => if body.isEmpty then [] else [Text.newline]
        | .keep => List.replicate (all.length - body.length + if body.isEmpty then 0 else 1)
            Text.newline
      some (text ++ tail, c)

private structure Found where
  value : Yaml
  key? : Option Text

private def scalarFound (t : Text) : Found := ⟨.string t, some t⟩

private def plainFound (t : Text) : Found := ⟨resolve t, some t⟩

private def isAnchorByte (b : UInt8) : Bool :=
  Text.isDigit b || Text.isLower b || Text.isUpper b || b = byte '_' || b = byte '-'

private structure Properties where
  anchor : Option Text := none
  tag : Option Text := none

private def propertiesFrom : Nat → Properties → Cursor → Option (Properties × Cursor)
  | 0, p, c => some (p, c)
  | fuel + 1, p, c =>
    match c.peek with
    | some b =>
      if b = byte '&' && p.anchor.isNone then
        let name := (c.rest.drop 1).takeWhile isAnchorByte
        let after := c.skip (name.length + 1)
        if name.isEmpty || !isBlankOrEnd after.peek then none
        else propertiesFrom fuel { p with anchor := some name } (skipBlanks after)
      else if b = byte '!' && p.tag.isNone then
        let name := c.rest.takeWhile fun b => !(isBlank b) && b ≠ Text.newline
        propertiesFrom fuel { p with tag := some name } (skipBlanks (c.skip name.length))
      else some (p, c)
    | none => some (p, c)

private def properties (c : Cursor) : Option (Properties × Cursor) := propertiesFrom 3 {} c

private def tagged (p : Properties) (f : Found) : Found :=
  match p.tag, f.key? with
  | some tag, some t =>
    if tag = ("!!int" : Text) || tag = ("!!bool" : Text) || tag = ("!!float" : Text)
        || tag = ("!!null" : Text) then { f with value := resolve t }
    else { f with value := .string t }
  | _, _ => f

private def named (p : Properties) (f : Found) (c : Cursor) : Found × Cursor :=
  let f := tagged p f
  match p.anchor with
  | none => (f, c)
  | some name => (f, { c with anchors := (name, f.value) :: c.anchors })

private def alias? (c : Cursor) : Option (Found × Cursor) :=
  let name := (c.rest.drop 1).takeWhile isAnchorByte
  (c.anchors.lookup name).map fun v =>
    (⟨v, match v with
      | .string t => some t
      | _ => none⟩, c.skip (name.length + 1))

private def addMember (key : Text) (v : Yaml) (members : List (Text × Yaml)) :
    Option (List (Text × Yaml)) :=
  if (members.lookup key).isSome then none else some (members ++ [(key, v)])

private def mergeInto (members : List (Text × Yaml)) : Yaml → Option (List (Text × Yaml))
  | .map more => some (members ++ more.filter fun (k, _) => (members.lookup k).isNone)
  | _ => none

private def mergeMap (members : List (Text × Yaml)) : Option Yaml :=
  match members.lookup ("<<" : Text) with
  | none => some (.map members)
  | some v =>
    let own := members.filter (·.1 ≠ ("<<" : Text))
    match v with
    | .list vs => (vs.foldlM mergeInto own).map .map
    | v => (mergeInto own v).map .map

private def skipFlow : Nat → Cursor → Cursor
  | 0, c => c
  | fuel + 1, c =>
    let c := skipComment (skipBlanks c)
    if c.peek = some Text.newline then skipFlow fuel (c.skip 1) else c

private def flowGap (c : Cursor) : Cursor := skipFlow (c.rest.length + 1) c

mutual

private def flowNode (flow oneLine : Bool) (indent : Nat) : Nat → Cursor → Option (Found × Cursor)
  | 0, _ => none
  | fuel + 1, c =>
    match properties c with
    | none => none
    | some (p, c) =>
      let whole := c.rest.length + 1
      let finish := fun (r : Option (Found × Cursor)) => r.map fun (f, c) => named p f c
      match c.peek with
      | none => none
      | some b =>
        if b = byte '*' then alias? c
        else if b = byte '"' then
          finish ((doubleQuotedFrom oneLine whole (c.skip 1)).map fun (t, c) => (scalarFound t, c))
        else if b = byte '\'' then
          finish ((singleQuotedFrom oneLine whole (c.skip 1)).map fun (t, c) => (scalarFound t, c))
        else if b = byte '[' then
          finish ((flowItems fuel [] (flowGap (c.skip 1))).map fun (l, c) => (⟨.list l, none⟩, c))
        else if b = byte '\x7b' then
          finish ((flowMembers fuel [] (flowGap (c.skip 1))).bind fun (l, c) =>
            (mergeMap l).map fun v => (⟨v, none⟩, c))
        else if startsPlain flow c.rest then
          finish ((plainFrom flow oneLine indent whole c).map fun (t, c) => (plainFound t, c))
        else none

private def flowItems : Nat → List Yaml → Cursor → Option (List Yaml × Cursor)
  | 0, _, _ => none
  | fuel + 1, acc, c =>
    if c.peek = some (byte ']') then some (acc, c.skip 1)
    else match flowNode true false 0 fuel c with
      | none => none
      | some (f, c) =>
        let c := flowGap c
        let entry : Option (Yaml × Cursor) :=
          if c.peek = some (byte ':') then
            match f.key?, flowValue fuel (flowGap (c.skip 1)) with
            | some k, some (v, c) => some (.map [(k, v)], c)
            | _, _ => none
          else some (f.value, c)
        match entry with
        | none => none
        | some (v, c) =>
          if c.peek = some (byte ',') then flowItems fuel (acc ++ [v]) (flowGap (c.skip 1))
          else if c.peek = some (byte ']') then some (acc ++ [v], c.skip 1)
          else none

private def flowValue : Nat → Cursor → Option (Yaml × Cursor)
  | 0, _ => none
  | fuel + 1, c =>
    if c.peek = some (byte ',') || c.peek = some (byte '\x7d') || c.peek = some (byte ']') then
      some (.null, c)
    else (flowNode true false 0 fuel c).map fun (f, c) => (f.value, flowGap c)

private def flowMembers : Nat → List (Text × Yaml) → Cursor → Option (List (Text × Yaml) × Cursor)
  | 0, _, _ => none
  | fuel + 1, acc, c =>
    if c.peek = some (byte '\x7d') then some (acc, c.skip 1)
    else match flowNode true false 0 fuel c with
      | some (⟨_, some k⟩, c) =>
        let c := flowGap c
        let member := if c.peek = some (byte ':') then flowValue fuel (flowGap (c.skip 1))
          else some (.null, c)
        match member with
        | none => none
        | some (v, c) => match addMember k v acc with
          | none => none
          | some acc =>
            if c.peek = some (byte ',') then flowMembers fuel acc (flowGap (c.skip 1))
            else if c.peek = some (byte '\x7d') then some (acc, c.skip 1)
            else none
      | _ => none

end

private def dashes (c : Cursor) : Bool :=
  c.peek = some (byte '-') && isBlankOrEnd (c.rest[1]?)

private def implicitKey (c : Cursor) : Option (Text × Cursor) :=
  match flowNode false true 0 (c.rest.length + 1) c with
  | some (⟨_, some k⟩, after) =>
    let after := skipBlanks after
    if after.line = c.line && after.peek = some (byte ':') && isBlankOrEnd (after.rest[1]?) then
      some (k, after.skip 1)
    else none
  | _ => none

mutual

/-- A node at the start of its line, or after the dash of a list: a block collection is allowed
here. The collection around it is indented by `parent`. -/
private def blockNode (parent : Int) : Nat → Cursor → Option (Yaml × Cursor)
  | 0, _ => none
  | fuel + 1, c =>
    if dashes c then (blockItems c.column fuel [] c).map fun (l, c) => (.list l, c)
    else if (implicitKey c).isSome then
      (blockMembers c.column fuel [] c).bind fun (l, c) => (mergeMap l).map fun v => (v, c)
    else inlineNode parent fuel c

private def inlineNode (parent : Int) : Nat → Cursor → Option (Yaml × Cursor)
  | 0, _ => none
  | fuel + 1, c =>
    match properties c with
    | none => none
    | some (p, after) =>
      let given := p.anchor.isSome || p.tag.isSome
      let finish := fun (r : Option (Yaml × Cursor)) => r.map fun (v, c) =>
        let (f, c) := named { p with tag := none } ⟨v, none⟩ c
        (f.value, c)
      match after.peek with
      | some b =>
        if b = byte '|' || b = byte '>' then
          finish ((blockScalar (b = byte '>') parent (after.skip 1)).map fun (t, c) =>
            (.string t, nextLine (c.rest.length + 1) c))
        else if given && (b = Text.newline || b = byte '#') then
          finish (blockValue parent false fuel after)
        else
          (flowNode false false (parent + 1).toNat (c.rest.length + 1) c).bind fun (f, c) =>
            (lineEnds c).map fun c => (f.value, c)
      | none => if given then finish (some (.null, after)) else none

private def blockValue (parent : Int) (inList : Bool) : Nat → Cursor → Option (Yaml × Cursor)
  | 0, _ => none
  | fuel + 1, c =>
    let inner := if inList then skipSpaces c else skipBlanks c
    if inner.rest.isEmpty || inner.peek = some Text.newline || inner.peek = some (byte '#') then
      let next := nextLine (inner.rest.length + 1) inner
      if atEnd next then some (.null, next)
      else if (next.column : Int) > parent then blockNode parent fuel next
      else if !inList && (next.column : Int) = parent && dashes next then
        (blockItems next.column fuel [] next).map fun (l, c) => (.list l, c)
      else some (.null, next)
    else if inList then blockNode parent fuel inner
    else inlineNode parent fuel inner

private def blockItems (column : Nat) : Nat → List Yaml → Cursor → Option (List Yaml × Cursor)
  | 0, _, _ => none
  | fuel + 1, acc, c =>
    match blockValue column true fuel (c.skip 1) with
    | none => none
    | some (v, c) =>
      if !atEnd c && c.column = column && dashes c then blockItems column fuel (acc ++ [v]) c
      else if !atEnd c && c.column > column then none
      else some (acc ++ [v], c)

private def blockMembers (column : Nat) :
    Nat → List (Text × Yaml) → Cursor → Option (List (Text × Yaml) × Cursor)
  | 0, _, _ => none
  | fuel + 1, acc, c =>
    match implicitKey c with
    | none => none
    | some (key, c) => match blockValue column false fuel c with
      | none => none
      | some (v, c) => match addMember key v acc with
        | none => none
        | some acc =>
          if atEnd c || c.column < column then some (acc, c)
          else if c.column = column then blockMembers column fuel acc c
          else none

end

private def isAllowed (n : Nat) : Bool :=
  n = 9 || n = 10 || (0x20 ≤ n && n ≤ 0x7E) || n = 0x85 ||
    (0xA0 ≤ n && n ≤ 0xD7FF) || (0xE000 ≤ n && n ≤ 0xFFFD && n ≠ 0xFEFF) ||
    (0x10000 ≤ n && n ≤ 0x10FFFF)

private def documentStart : Nat → Cursor → Option Cursor
  | 0, c => some c
  | fuel + 1, c =>
    let c := nextLine (c.rest.length + 1) c
    if c.column = 0 && c.peek = some (byte '%') then
      documentStart fuel (c.skip (c.rest.takeWhile (· ≠ Text.newline)).length)
    else if atMarker c && c.peek = some (byte '-') then
      let c := skipBlanks (c.skip 3)
      some c
    else some c

def read (t : Text) : Option Yaml :=
  let t := Text.replace "\r" "\n" (Text.replace "\r\n" "\n" (Text.dropPrefix "﻿" t))
  if !Text.isUtf8 t || !(t.runes.all fun r => isAllowed r.code) then none
  else
    match documentStart (t.length + 1) { rest := t } with
    | none => none
    | some c =>
      match blockValue (-1) (c.column = 0) (2 * t.length + 10) c with
      | none => none
      | some (v, c) => if atEnd c then some v else none

end LabelHooks.Yaml
