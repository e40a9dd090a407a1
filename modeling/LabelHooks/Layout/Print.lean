import LabelHooks.Syntax.Shape

/-!
Printing. A statement stands on lines of its own, indented by two spaces for each enclosing
block; one blank line is kept where the source had any. An expression is put in parentheses when
it binds less tightly than its place demands, and where it would otherwise be taken for
something else: an object or a function at the start of a statement, an object at the start of
an arrow body.
-/

namespace LabelHooks.Layout

inductive Start where
  | inside
  | statement
  | arrowBody
deriving DecidableEq, Repr

namespace Start

def misreads : Start → Expr → Bool
  | .inside, _ => false
  | .statement, .function _ _ => true
  | .statement, e | .arrowBody, e => e.isObject

end Start

def indent (depth : Nat) : Text := Text.spaces (2 * depth)

def parens (t : Text) : Text := ("(" : Text) ++ t ++ (")" : Text)

/-- How trees are written: with the comments of statements or without, and what stands for an
expression in parentheses, given its text. -/
structure Style where
  comments : Bool
  wrap : Expr → Text → Text

namespace Style

def usual (comments : Bool) : Style := ⟨comments, fun _ => parens⟩

end Style

/-- Text of an expression in a place that demands at least the precedence `least`. Inside
parentheses it is no longer at the start of anything. -/
def placed (style : Style) (least : Prec) (start : Start) (e : Expr) (node : Start → Text) :
    Text :=
  if e.prec < least || start.misreads e then style.wrap e (node .inside) else node start

def mixesNullish (op : BinaryOp) : Expr → Bool
  | .binary _ inner _ _ =>
    (op = .nullish && inner.isLogical) || (op.isLogical && inner = .nullish)
  | _ => false

def signClash : UnaryOp → Expr → Bool
  | .plus, .unary _ .plus _ | .plus, .update _ .inc true _ => true
  | .minus, .unary _ .minus _ | .minus, .update _ .dec true _ => true
  | _, _ => false

def hasCall : Expr → Bool
  | .call _ _ _ _ => true
  | .member _ x _ _ _ => hasCall x
  | .template _ (some tag) _ _ => hasCall tag
  | _ => false

def isNumber : Expr → Bool
  | .literal l => l.kind = .number
  | _ => false

def isFunction : Expr → Bool
  | .function _ _ => true
  | _ => false

def isMethod (shape : PropShape) (value : Expr) : Bool :=
  (shape.method || shape.kind ≠ .init) && isFunction value

def isEmptyStmt : Stmt → Bool
  | .empty _ => true
  | _ => false

def isBlock : Stmt → Bool
  | .block _ => true
  | _ => false

def hasBlockMember (members : List Expr) : Bool :=
  members.any fun
    | .property _ _ _ (.function _ (.mk _ _ _ (.mk _ list) _ _)) => !list.isEmpty
    | .property _ _ _ (.arrow _ _ _ (.block (.mk _ list))) => !list.isEmpty
    | _ => false

def isHole : Expr → Bool
  | .hole => true
  | _ => false

def commas (items : List Text) : Text := Text.join ", " items

def brackets (elems : List Expr) (items : List Text) : Text :=
  ("[" : Text) ++ commas items ++ (if elems.getLast?.any isHole then ("," : Text) else []) ++
    ("]" : Text)

def braces (depth : Nat) (lines : Bool) (items : List Text) : Text :=
  if items.isEmpty then "\x7b\x7d"
  else if lines then
    ("\x7b\n" : Text) ++ Text.join ",\n" (items.map (indent (depth + 1) ++ ·)) ++ ("\n" : Text) ++
      indent depth ++ ("\x7d" : Text)
  else ("\x7b " : Text) ++ commas items ++ (" \x7d" : Text)

def functionHead (name : Option Ident) (isAsync generator : Bool) : Text :=
  (if isAsync then ("async " : Text) else []) ++ ("function" : Text) ++
    (if generator then ("*" : Text) else []) ++ (" " : Text) ++ (name.map Ident.name).getD []

def methodHead (kind : PropKind) (isAsync generator : Bool) : Text :=
  match kind with
  | .get => "get "
  | .set => "set "
  | .init => (if isAsync then ("async " : Text) else []) ++ (if generator then ("*" : Text) else [])

def propKey (computed : Bool) (key : Text) : Text :=
  if computed then ("[" : Text) ++ key ++ ("]" : Text) else key

def unaryGap (op : UnaryOp) (x : Expr) : Text :=
  match op with
  | .typeof | .void | .delete => " "
  | .plus | .minus => if signClash op x then " " else []
  | _ => []

def leftLeast (op : BinaryOp) : Prec := if op = .pow then .postfixed else op.prec

def rightLeast (op : BinaryOp) : Prec := if op = .pow then op.prec else op.prec + 1

def arrowParams (params : List Expr) (texts : List Text) : Text :=
  match params with
  | [.ident i] => i.name
  | _ => parens (commas texts)

def declWord : DeclKind → Text
  | .var => "var "
  | .let_ => "let "
  | .const => "const "

def startLine (style : Style) (s : Stmt) : Int :=
  match style.comments, s.mark.lead with
  | true, c :: _ => c.span.start.line
  | _, _ => s.span.start.line

def leadText (style : Style) (depth : Nat) (s : Stmt) : Text :=
  if style.comments then
    s.mark.lead.flatMap fun c => c.text ++ ("\n" : Text) ++ indent depth
  else []

def bodyText (s : Stmt) (t : Text) : Text := if isEmptyStmt s then ";" else (" " : Text) ++ t

def afterBody (depth : Nat) (s : Stmt) : Text :=
  if isBlock s then " " else ("\n" : Text) ++ indent depth

def clause (s : ImportSpec) : Option Text :=
  match s with
  | .named _ _ _ => none
  | .default _ b => some b.name
  | .star _ b => some (("* as " : Text) ++ b.name)

def namedClause (s : ImportSpec) : Option Text :=
  match s with
  | .named _ i b =>
    some (if b.name = i.name then i.name else i.name ++ (" as " : Text) ++ b.name)
  | _ => none

def importText (specs : List ImportSpec) (source : Literal) : Text :=
  let named := specs.filterMap namedClause
  let list := if named.isEmpty then [] else [("\x7b " : Text) ++ commas named ++ (" \x7d" : Text)]
  let clauses := specs.filterMap clause ++ list
  ("import " : Text) ++
    (if clauses.isEmpty then [] else commas clauses ++ (" from " : Text)) ++ source.raw ++
    (";" : Text)

def exportSpecText (s : ExportSpec) : Text :=
  if s.exported.name = s.source.name then s.source.name
  else s.source.name ++ (" as " : Text) ++ s.exported.name

def exportNamesText (specs : List ExportSpec) (source : Option Literal) : Text :=
  ("export \x7b" : Text) ++
    (if specs.isEmpty then []
      else (" " : Text) ++ commas (specs.map exportSpecText) ++ (" " : Text)) ++
    ("\x7d" : Text) ++
    (match source with
      | none => []
      | some l => (" from " : Text) ++ l.raw) ++ (";" : Text)

def exportAllText (name : Option Ident) (source : Literal) : Text :=
  ("export *" : Text) ++
    (match name with
      | none => []
      | some i => (" as " : Text) ++ i.name) ++ (" from " : Text) ++ source.raw ++ (";" : Text)

def isObjectAssign : Expr → Bool
  | .assign _ _ left _ => left.isObject
  | _ => false

mutual

/-- Text of an expression without parentheses around it; the leftmost operand inherits its
start. -/
def node (style : Style) (depth : Nat) (start : Start) : Expr → Text
  | .hole => []
  | .ident i => i.name
  | .literal l => l.raw
  | .template _ tag quasis es =>
    (match tag with
      | none => []
      | some t => placed style .call start t fun s => node style depth s t) ++
      ("`" : Text) ++ templateText style depth quasis es ++ ("`" : Text)
  | .this _ => "this"
  | .super _ => "super"
  | .array _ elems => brackets elems (texts style depth .inside elems)
  | .arrayPattern _ elems => brackets elems (texts style depth .inside elems)
  | .object _ members =>
    let lines := hasBlockMember members
    braces depth lines (memberTexts style (if lines then depth + 1 else depth) members)
  | .objectPattern _ members =>
    let lines := hasBlockMember members
    braces depth lines (memberTexts style (if lines then depth + 1 else depth) members)
  | .property _ _ _ _ => []
  | .spread _ x => ("..." : Text) ++ placed style .assign .inside x fun s => node style depth s x
  | .rest _ x => ("..." : Text) ++ placed style .assign .inside x fun s => node style depth s x
  | .function _ (.mk _ name params body isAsync generator) =>
    functionHead name isAsync generator ++ parens (commas (texts style depth .inside params)) ++
      (" " : Text) ++ blockText style depth body
  | .arrow _ isAsync params body =>
    (if isAsync then ("async " : Text) else []) ++
      arrowParams params (texts style depth .inside params) ++ (" => " : Text) ++
      (match body with
        | .block b => blockText style depth b
        | .expr e => placed style .assign .arrowBody e fun s => node style depth s e)
  | .unary _ op x =>
    op.text ++ unaryGap op x ++ placed style .prefixed .inside x fun s => node style depth s x
  | .update _ op true x =>
    op.text ++ placed style .postfixed .inside x fun s => node style depth s x
  | .update _ op false x =>
    (placed style .postfixed start x fun s => node style depth s x) ++ op.text
  | .binary _ op x y =>
    (if mixesNullish op x then style.wrap x (node style depth .inside x)
      else placed style (leftLeast op) start x fun s => node style depth s x) ++
      (" " : Text) ++ op.text ++ (" " : Text) ++
      (if mixesNullish op y then style.wrap y (node style depth .inside y)
        else placed style (rightLeast op) .inside y fun s => node style depth s y)
  | .assign _ op left right =>
    (placed style .call start left fun s => node style depth s left) ++ (" " : Text) ++ op.text ++
      (" " : Text) ++ placed style .assign .inside right fun s => node style depth s right
  | .assignPattern _ left right =>
    (placed style .call .inside left fun s => node style depth s left) ++ (" = " : Text) ++
      placed style .assign .inside right fun s => node style depth s right
  | .cond _ test yes no =>
    (placed style .nullish start test fun s => node style depth s test) ++ (" ? " : Text) ++
      (placed style .assign .inside yes fun s => node style depth s yes) ++ (" : " : Text) ++
      placed style .assign .inside no fun s => node style depth s no
  | .call _ callee args optional =>
    (placed style .call start callee fun s => node style depth s callee) ++
      (if optional then ("?." : Text) else []) ++ parens (commas (texts style depth .inside args))
  | .new _ callee args =>
    ("new " : Text) ++
      (if hasCall callee then style.wrap callee (node style depth .inside callee)
        else placed style .new .inside callee fun s => node style depth s callee) ++
      parens (commas (texts style depth .inside args))
  | .member _ x prop computed optional =>
    (if isNumber x then style.wrap x (node style depth .inside x)
      else placed style .call start x fun s => node style depth s x) ++
      (if optional then ("?." : Text) else if computed then [] else ".") ++
      (if computed then
        ("[" : Text) ++ (placed style .lowest .inside prop fun s => node style depth s prop) ++
          ("]" : Text)
      else placed style .primary .inside prop fun s => node style depth s prop)
  | .seq _ list => commas (texts style depth start list)
  | .await _ x =>
    ("await " : Text) ++ placed style .prefixed .inside x fun s => node style depth s x
  | .yield _ delegate x =>
    ("yield" : Text) ++ (if delegate then ("*" : Text) else []) ++ optText style depth " " .assign x

def optText (style : Style) (depth : Nat) (lead : Text) (least : Prec) : Option Expr → Text
  | none => []
  | some e => lead ++ placed style least .inside e fun s => node style depth s e

def texts (style : Style) (depth : Nat) (start : Start) : List Expr → List Text
  | [] => []
  | e :: es =>
    (placed style .assign start e fun s => node style depth s e) :: texts style depth .inside es

def memberTexts (style : Style) (depth : Nat) : List Expr → List Text
  | [] => []
  | .property _ shape key value :: es =>
    (if shape.shorthand then placed style .assign .inside value fun s => node style depth s value
    else
      let name := propKey shape.computed
        (placed style (if shape.computed then .assign else .primary) .inside key
          fun s => node style depth s key)
      if isMethod shape value then
        match value with
        | .function _ (.mk _ _ params body isAsync generator) =>
          methodHead shape.kind isAsync generator ++ name ++
            parens (commas (texts style depth .inside params)) ++ (" " : Text) ++
            blockText style depth body
        | _ => name
      else
        name ++ (": " : Text) ++
          placed style .assign .inside value fun s => node style depth s value) ::
      memberTexts style depth es
  | e :: es =>
    (placed style .assign .inside e fun s => node style depth s e) :: memberTexts style depth es

def templateText (style : Style) (depth : Nat) (quasis : List Text) : List Expr → Text
  | [] => quasis.flatten
  | e :: es =>
    match quasis with
    | [] => []
    | q :: qs =>
      q ++ ("$\x7b" : Text) ++ (placed style .lowest .inside e fun s => node style depth s e) ++
        ("\x7d" : Text) ++ templateText style depth qs es

def declTexts (style : Style) (depth : Nat) : List Declarator → List Text
  | [] => []
  | .mk _ target init :: ds =>
    ((placed style .lowest .inside target fun s => node style depth s target) ++
      optText style depth " = " .assign init) :: declTexts style depth ds

def headText (style : Style) (depth : Nat) (least : Prec) : ForHead → Text
  | .decl (.mk _ kind decls) => declWord kind ++ commas (declTexts style depth decls)
  | .expr e => placed style least .inside e fun s => node style depth s e

def blockText (style : Style) (depth : Nat) : Block → Text
  | .mk _ list =>
    if list.isEmpty then "\x7b\x7d"
    else ("\x7b\n" : Text) ++ stmtLines style (depth + 1) 0 list ++ indent depth ++ ("\x7d" : Text)

def catchText (style : Style) (depth : Nat) : Catch → Text
  | .mk _ param body =>
    (" catch " : Text) ++
      (match param with
        | none => []
        | some e =>
          parens (placed style .lowest .inside e fun s => node style depth s e) ++ (" " : Text)) ++
      blockText style depth body

def caseLines (style : Style) (depth : Nat) : List Case → Text
  | [] => []
  | .mk _ test body :: cs =>
    indent depth ++
      (match test with
        | none => ("default:" : Text)
        | some e =>
          ("case " : Text) ++ (placed style .lowest .inside e fun s => node style depth s e) ++
            (":" : Text)) ++
      ("\n" : Text) ++ stmtLines style (depth + 1) 0 body ++ caseLines style depth cs

def stmtText (style : Style) (depth : Nat) : Stmt → Text
  | .varDecl (.mk m kind decls) =>
    leadText style depth (.varDecl (.mk m kind decls)) ++ declWord kind ++
      commas (declTexts style depth decls) ++ (";" : Text)
  | .funcDecl m (.mk fm name params body isAsync generator) =>
    leadText style depth (.funcDecl m (.mk fm name params body isAsync generator)) ++
      functionHead name isAsync generator ++ parens (commas (texts style depth .inside params)) ++
      (" " : Text) ++ blockText style depth body
  | .expr m x =>
    leadText style depth (.expr m x) ++
      (if isObjectAssign x then style.wrap x (node style depth .inside x)
        else placed style .lowest .statement x fun s => node style depth s x) ++ (";" : Text)
  | .block b => leadText style depth (.block b) ++ blockText style depth b
  | .labeled m label body =>
    leadText style depth (.labeled m label body) ++ label.name ++ (": " : Text) ++
      stmtText style depth body
  | .ret m x =>
    leadText style depth (.ret m x) ++ ("return" : Text) ++ optText style depth " " .lowest x ++
      (";" : Text)
  | .ifElse m test yes no =>
    leadText style depth (.ifElse m test yes no) ++ ("if (" : Text) ++
      (placed style .lowest .inside test fun s => node style depth s test) ++ (")" : Text) ++
      bodyText yes (stmtText style depth yes) ++
      (match no with
        | none => []
        | some s =>
          afterBody depth yes ++ ("else" : Text) ++ bodyText s (stmtText style depth s))
  | .forLoop m init test post body =>
    leadText style depth (.forLoop m init test post body) ++ ("for (" : Text) ++
      (match init with
        | none => []
        | some h => headText style depth .lowest h) ++
      (";" : Text) ++ optText style depth " " .lowest test ++ (";" : Text) ++
      optText style depth " " .lowest post ++
      (")" : Text) ++ bodyText body (stmtText style depth body)
  | .forIn m left right body isOf isAwait =>
    leadText style depth (.forIn m left right body isOf isAwait) ++ ("for " : Text) ++
      (if isAwait then ("await " : Text) else []) ++ ("(" : Text) ++
      headText style depth .call left ++ (if isOf then (" of " : Text) else " in ") ++
      (placed style (if isOf then .assign else .lowest) .inside right
        fun s => node style depth s right) ++
      (")" : Text) ++ bodyText body (stmtText style depth body)
  | .whileLoop m test body =>
    leadText style depth (.whileLoop m test body) ++ ("while (" : Text) ++
      (placed style .lowest .inside test fun s => node style depth s test) ++ (")" : Text) ++
      bodyText body (stmtText style depth body)
  | .doWhile m body test =>
    leadText style depth (.doWhile m body test) ++ ("do" : Text) ++
      bodyText body (stmtText style depth body) ++ afterBody depth body ++ ("while (" : Text) ++
      (placed style .lowest .inside test fun s => node style depth s test) ++ (");" : Text)
  | .branch m isBreak label =>
    leadText style depth (.branch m isBreak label) ++
      (if isBreak then ("break" : Text) else "continue") ++
      (match label with
        | none => []
        | some i => (" " : Text) ++ i.name) ++ (";" : Text)
  | .throw m x =>
    leadText style depth (.throw m x) ++ ("throw " : Text) ++
      (placed style .lowest .inside x fun s => node style depth s x) ++ (";" : Text)
  | .tryCatch m block handler finalizer =>
    leadText style depth (.tryCatch m block handler finalizer) ++ ("try " : Text) ++
      blockText style depth block ++
      (match handler with
        | none => []
        | some c => catchText style depth c) ++
      (match finalizer with
        | none => []
        | some b => (" finally " : Text) ++ blockText style depth b)
  | .switch m disc cases =>
    leadText style depth (.switch m disc cases) ++ ("switch (" : Text) ++
      (placed style .lowest .inside disc fun s => node style depth s disc) ++ (") \x7b\n" : Text) ++
      caseLines style (depth + 1) cases ++ indent depth ++ ("\x7d" : Text)
  | .empty m => leadText style depth (.empty m) ++ (";" : Text)
  | .debugger m => leadText style depth (.debugger m) ++ ("debugger;" : Text)
  | .imports m specs source =>
    leadText style depth (.imports m specs source) ++ importText specs source
  | .exportDecl m isDefault decl =>
    leadText style depth (.exportDecl m isDefault decl) ++ ("export " : Text) ++
      (if isDefault then ("default " : Text) else []) ++ stmtText style depth decl
  | .exportValue m value =>
    leadText style depth (.exportValue m value) ++ ("export default " : Text) ++
      (if isFunction value then node style depth .inside value
        else (placed style .assign .inside value fun s => node style depth s value) ++ (";" : Text))
  | .exportAll m name source =>
    leadText style depth (.exportAll m name source) ++ exportAllText name source
  | .exportNames m specs source =>
    leadText style depth (.exportNames m specs source) ++ exportNamesText specs source

def stmtLines (style : Style) (depth : Nat) (prevEnd : Int) : List Stmt → Text
  | [] => []
  | s :: ss =>
    (if prevEnd > 0 && startLine style s > prevEnd + 1 then ("\n" : Text) else []) ++
      indent depth ++ stmtText style depth s ++ ("\n" : Text) ++
      stmtLines style depth s.span.stop.line ss

end

end Layout

namespace Expr

def format (e : Expr) : Text :=
  let style := Layout.Style.usual false
  Layout.placed style .lowest .inside e fun s => Layout.node style 0 s e

end Expr

namespace Stmt

def format (s : Stmt) : Text := Layout.stmtText (.usual false) 0 s

end Stmt

namespace Program

def print (style : Layout.Style) (p : Program) : Text :=
  Text.trimRight (· = Text.newline) (Layout.stmtLines style 0 0 p.body) ++ ("\n" : Text)

def format (p : Program) : Text := p.print (.usual true)

def formatPlain (p : Program) : Text := p.print (.usual false)

end Program
end LabelHooks
