import LabelHooks.Scope.Analysis

/-!
The sites of a tree: every node by the part it plays in scoping. Each identifier is a use, a
binding, a label or a mere word, and each node with a scope of its own stands above the sites
inside that scope. The discriminant of a switch and the name of a function declaration stand
outside the scope of their node.
-/

namespace LabelHooks

inductive Site where
  /-- A node that neither uses nor declares a name. -/
  | node (n : Node)
  /-- An identifier in reference position. -/
  | use (i : Ident)
  | bind (kind : BindingKind) (i : Ident)
  /-- The label of a labelled statement, with that statement. -/
  | label (i : Ident) (body : Stmt)
  /-- A call of a name whose only argument is an arrow function of one name. -/
  | call (f : Ident) (arrow : Mark) (param : Ident)
  /-- The body of a function or catch clause, which shares its scope. -/
  | share (body : Mark)
  /-- What stands in a binding pattern and is no part of one. -/
  | stray (e : Expr)

inductive Head where
  | name (i : Ident)
  /-- An arrow function of one name. -/
  | arrow (m : Mark) (param : Ident)
  | other
deriving DecidableEq, Repr

namespace Expr

def ident? : Expr → Option Ident
  | .ident i => some i
  | _ => none

def head : Expr → Head
  | .ident i => .name i
  | .arrow m _ params _ =>
    match params.map ident? with
    | [some param] => .arrow m param
    | _ => .other
  | _ => .other

end Expr

inductive Sites where
  | nil
  | site (x : Site) (rest : Sites)
  /-- A declaration whose names belong to the nearest function. -/
  | hoist (inner rest : Sites)
  /-- A node that opens a scope, with the sites in that scope. -/
  | scope (kind : ScopeKind) (n : Node) (inner rest : Sites)

namespace Sites

def append : Sites → Sites → Sites
  | .nil, ys => ys
  | .site x rest, ys => .site x (rest.append ys)
  | .hoist inner rest, ys => .hoist inner (rest.append ys)
  | .scope kind n inner rest, ys => .scope kind n inner (rest.append ys)

instance : Append Sites := ⟨append⟩

def ofList : List Site → Sites
  | [] => .nil
  | x :: xs => .site x (ofList xs)

def ofNodes (ns : List Node) : Sites := ofList (ns.map .node)

def ofIdent? (f : Ident → Site) (i : Option Ident) : Sites := ofList (i.toList.map f)

def ofCall (callee : Expr) (args : List Expr) : Sites :=
  match callee.head, args.map Expr.head with
  | .name f, [.arrow m param] => .site (.call f m param) .nil
  | _, _ => .nil

def ofDecl : DeclKind → Sites → Sites
  | .var, inner => .hoist inner .nil
  | .let_, inner | .const, inner => inner

def ofImports : List ImportSpec → Sites
  | [] => .nil
  | .named m imported binding :: specs =>
    .site (.node ⟨.importSpec, m, []⟩) (.site (.node (.ofIdent imported))
      (.site (.bind .import_ binding) (ofImports specs)))
  | .default m binding :: specs | .star m binding :: specs =>
    .site (.node ⟨.importSpec, m, []⟩) (.site (.bind .import_ binding) (ofImports specs))

def ofExports (used : Bool) : List ExportSpec → Sites
  | [] => .nil
  | s :: specs =>
    .site (.node ⟨.exportSpec, s.mark, []⟩)
      (.site (if used then .use s.source else .node (.ofIdent s.source))
        (.site (.node (.ofIdent s.exported)) (ofExports used specs)))

end Sites

def Expr.nodes (e : Expr) : List Node := Outline.walkList (fun _ => true) e.outline

open Sites (ofNodes ofIdent? ofCall ofDecl)

mutual

def Expr.sites : Expr → Sites
  | .hole => .nil
  | .ident i => .site (.use i) .nil
  | .literal l => .site (.node (.ofLiteral l)) .nil
  | .template m tag _ es =>
    .site (.node ⟨.templateLit, m, []⟩)
      (Expr.sites? tag ++ Expr.sitesList es)
  | .this m => .site (.node ⟨.thisExpr, m, []⟩) .nil
  | .super m => .site (.node ⟨.superExpr, m, []⟩) .nil
  | .array m es => .site (.node ⟨.arrayLit, m, []⟩) (Expr.sitesList es)
  | .object m es => .site (.node ⟨.objectLit, m, []⟩) (Expr.sitesList es)
  | .property m shape key value =>
    .site (.node ⟨.property, m, []⟩)
      ((if shape.computed then key.sites else ofNodes key.nodes) ++ value.sites)
  | .spread m x => .site (.node ⟨.spreadElem, m, []⟩) x.sites
  | .function m f => .site (.node ⟨.funcExpr, m, []⟩) (f.sites true)
  | .arrow m _ ps body =>
    .scope .function ⟨.arrowFunc, m, []⟩ (Expr.bindingList .param ps ++ body.sites) .nil
  | .unary m _ x => .site (.node ⟨.unaryExpr, m, []⟩) x.sites
  | .update m _ _ x => .site (.node ⟨.updateExpr, m, []⟩) x.sites
  | .binary m _ x y => .site (.node ⟨.binaryExpr, m, []⟩) (x.sites ++ y.sites)
  | .assign m _ x y => .site (.node ⟨.assignExpr, m, []⟩) (x.sites ++ y.sites)
  | .cond m x y z => .site (.node ⟨.condExpr, m, []⟩) (x.sites ++ y.sites ++ z.sites)
  | .call m c as _ =>
    .site (.node ⟨.callExpr, m, []⟩) (ofCall c as ++ c.sites ++ Expr.sitesList as)
  | .new m c as => .site (.node ⟨.newExpr, m, []⟩) (c.sites ++ Expr.sitesList as)
  | .member m x p computed _ =>
    .site (.node ⟨.memberExpr, m, []⟩)
      (x.sites ++ if computed then p.sites else ofNodes p.nodes)
  | .seq m es => .site (.node ⟨.seqExpr, m, []⟩) (Expr.sitesList es)
  | .await m x => .site (.node ⟨.awaitExpr, m, []⟩) x.sites
  | .yield m _ x => .site (.node ⟨.yieldExpr, m, []⟩) (Expr.sites? x)
  | .arrayPattern m es => .site (.node ⟨.arrayPattern, m, []⟩) (Expr.sitesList es)
  | .objectPattern m es => .site (.node ⟨.objectPattern, m, []⟩) (Expr.sitesList es)
  | .assignPattern m x y => .site (.node ⟨.assignPattern, m, []⟩) (x.sites ++ y.sites)
  | .rest m x => .site (.node ⟨.restElem, m, []⟩) x.sites

def Expr.sites? : Option Expr → Sites
  | none => .nil
  | some e => e.sites

def Expr.sitesList : List Expr → Sites
  | [] => .nil
  | e :: es => e.sites ++ Expr.sitesList es

/-- The sites of a pattern that declares names. -/
def Expr.binding (kind : BindingKind) : Expr → Sites
  | .hole => .nil
  | .ident i => .site (.bind kind i) .nil
  | .arrayPattern m es => .site (.node ⟨.arrayPattern, m, []⟩) (Expr.bindingList kind es)
  | .objectPattern m es => .site (.node ⟨.objectPattern, m, []⟩) (Expr.bindingList kind es)
  | .property m shape key value =>
    .site (.node ⟨.property, m, []⟩)
      ((if shape.computed then key.sites else ofNodes key.nodes) ++ value.binding kind)
  | .assignPattern m left right =>
    .site (.node ⟨.assignPattern, m, []⟩) (left.binding kind ++ right.sites)
  | .rest m x => .site (.node ⟨.restElem, m, []⟩) (x.binding kind)
  | e => .site (.stray e) .nil

def Expr.binding? (kind : BindingKind) : Option Expr → Sites
  | none => .nil
  | some e => e.binding kind

def Expr.bindingList (kind : BindingKind) : List Expr → Sites
  | [] => .nil
  | e :: es => e.binding kind ++ Expr.bindingList kind es

def Func.sites (isExpr : Bool) : Func → Sites
  | .mk m name ps body _ _ =>
    .scope .function ⟨.function, m, []⟩
      ((if isExpr then ofIdent? (.bind .local_) name else .nil) ++
        Expr.bindingList .param ps ++ body.sharing) .nil

def Block.sharing : Block → Sites
  | .mk m list => .site (.share m) (Stmt.sitesList list)

def Body.sites : Body → Sites
  | .block b => b.sharing
  | .expr e => e.sites

def Declarator.sitesList (kind : BindingKind) : List Declarator → Sites
  | [] => .nil
  | .mk m target init :: ds =>
    .site (.node ⟨.declarator, m, []⟩)
      (target.binding kind ++ Expr.sites? init ++ Declarator.sitesList kind ds)

def VarDecl.sites : VarDecl → Sites
  | .mk m kind ds =>
    .site (.node ⟨.varDecl, m, []⟩)
      (ofDecl kind (Declarator.sitesList (Analysis.declKind kind) ds))

def ForHead.sites : ForHead → Sites
  | .decl d => d.sites
  | .expr e => e.sites

def ForHead.sites? : Option ForHead → Sites
  | none => .nil
  | some h => h.sites

def Case.sitesList : List Case → Sites
  | [] => .nil
  | .mk m test body :: cs =>
    .site (.node ⟨.caseClause, m, []⟩)
      (Expr.sites? test ++ Stmt.sitesList body ++ Case.sitesList cs)

def Block.sites : Block → Sites
  | .mk m list => .scope .block ⟨.blockStmt, m, []⟩ (Stmt.sitesList list) .nil

def Block.sites? : Option Block → Sites
  | none => .nil
  | some b => b.sites

def Catch.sites? : Option Catch → Sites
  | none => .nil
  | some (.mk m param body) =>
    .scope .catch_ ⟨.catchClause, m, []⟩ (Expr.binding? .catch_ param ++ body.sharing) .nil

def Stmt.sites : Stmt → Sites
  | .varDecl d => d.sites
  | .funcDecl m f =>
    .site (.node ⟨.funcDecl, m, []⟩) (ofIdent? (.bind .function) f.name? ++ f.sites false)
  | .expr m x => .site (.node ⟨.exprStmt, m, []⟩) x.sites
  | .block b => b.sites
  | .labeled m label body =>
    .site (.node ⟨.labeledStmt, m, label.name⟩) (.site (.label label body) body.sites)
  | .ret m x => .site (.node ⟨.returnStmt, m, []⟩) (Expr.sites? x)
  | .ifElse m test yes no =>
    .site (.node ⟨.ifStmt, m, []⟩) (test.sites ++ yes.sites ++ Stmt.sites? no)
  | .forLoop m init test post body =>
    .scope .for_ ⟨.forStmt, m, []⟩
      (ForHead.sites? init ++ Expr.sites? test ++ Expr.sites? post ++ body.sites) .nil
  | .forIn m left right body _ _ =>
    .scope .for_ ⟨.forInStmt, m, []⟩ (left.sites ++ right.sites ++ body.sites) .nil
  | .whileLoop m test body => .site (.node ⟨.whileStmt, m, []⟩) (test.sites ++ body.sites)
  | .doWhile m body test => .site (.node ⟨.doWhileStmt, m, []⟩) (body.sites ++ test.sites)
  | .branch m _ label =>
    .site (.node ⟨.branchStmt, m, []⟩) (ofIdent? (fun i => .node (.ofIdent i)) label)
  | .throw m x => .site (.node ⟨.throwStmt, m, []⟩) x.sites
  | .tryCatch m block handler finalizer =>
    .site (.node ⟨.tryStmt, m, []⟩)
      (block.sites ++ Catch.sites? handler ++ Block.sites? finalizer)
  | .switch m disc cases =>
    disc.sites ++ .scope .block ⟨.switchStmt, m, []⟩ (Case.sitesList cases) .nil
  | .empty m => .site (.node ⟨.emptyStmt, m, []⟩) .nil
  | .debugger m => .site (.node ⟨.debuggerStmt, m, []⟩) .nil
  | .imports m specs source =>
    .site (.node ⟨.importDecl, m, []⟩)
      (.hoist (Sites.ofImports specs) (.site (.node (.ofLiteral source)) .nil))
  | .exportDecl m _ decl => .site (.node ⟨.exportDecl, m, []⟩) decl.sites
  | .exportValue m value => .site (.node ⟨.exportDecl, m, []⟩) value.sites
  | .exportAll m name source =>
    .site (.node ⟨.exportDecl, m, []⟩)
      (ofIdent? (fun i => .node (.ofIdent i)) name ++ .site (.node (.ofLiteral source)) .nil)
  | .exportNames m specs source =>
    .site (.node ⟨.exportDecl, m, []⟩)
      (Sites.ofExports source.isNone specs ++ ofNodes (source.toList.map .ofLiteral))

def Stmt.sites? : Option Stmt → Sites
  | none => .nil
  | some s => s.sites

def Stmt.sitesList : List Stmt → Sites
  | [] => .nil
  | s :: ss => s.sites ++ Stmt.sitesList ss

end

def Program.sites (p : Program) : Sites := Stmt.sitesList p.body

inductive NameRole where
  | reference | binding | label
deriving DecidableEq, Repr

namespace Site

def nodes : Site → List Node
  | .node n => [n]
  | .use i | .bind _ i | .label i _ => [.ofIdent i]
  | .call _ _ _ => []
  | .share m => [⟨.blockStmt, m, []⟩]
  | .stray e => e.nodes

def decl? : Site → Option Declaration
  | .bind kind i => some ⟨i.name, kind, some i⟩
  | .node _ | .use _ | .label _ _ | .call _ _ _ | .share _ | .stray _ => none

def mention? : Site → Option (NameRole × Text)
  | .use i => some (.reference, i.name)
  | .bind _ i => some (.binding, i.name)
  | .label i _ => some (.label, i.name)
  | .node _ | .call _ _ _ | .share _ | .stray _ => none

def anchor? : Site → Option Ident
  | .use i | .label i _ => some i
  | .node _ | .bind _ _ | .call _ _ _ | .share _ | .stray _ => none

def isMember : Site → Bool
  | .stray (.member _ _ _ _ _) => true
  | .stray _ | .node _ | .use _ | .bind _ _ | .label _ _ | .call _ _ _ | .share _ => false

end Site

namespace Sites

def flat : Sites → List Site
  | .nil => []
  | .site x rest => x :: rest.flat
  | .hoist inner rest | .scope _ _ inner rest => inner.flat ++ rest.flat

def nodes : Sites → List Node
  | .nil => []
  | .site x rest => x.nodes ++ rest.nodes
  | .hoist inner rest => inner.nodes ++ rest.nodes
  | .scope _ n inner rest => n :: (inner.nodes ++ rest.nodes)

example (m : Mark) (f i : Ident) :
    (Stmt.expr m (.call m (.ident f) [.arrow m false [.ident i] (.expr (.ident i))]
        false)).sites.flat =
      [.node ⟨.exprStmt, m, []⟩, .node ⟨.callExpr, m, []⟩, .call f m i, .use f, .bind .param i,
        .use i] := by cbv

example (m : Mark) (i : Ident) : (Stmt.labeled m i (.empty m)).sites.nodes =
    [⟨.labeledStmt, m, i.name⟩, .ofIdent i, ⟨.emptyStmt, m, []⟩] := by cbv

def mentions (xs : Sites) : List (NameRole × Text) := xs.flat.filterMap Site.mention?

def anchors (xs : Sites) : List Ident := xs.flat.filterMap Site.anchor?

def MemberFree (xs : Sites) : Prop := ∀ x ∈ xs.flat, x.isMember = false

instance (xs : Sites) : Decidable xs.MemberFree :=
  inferInstanceAs (Decidable (∀ x ∈ xs.flat, x.isMember = false))

/-- What is declared in a scope by sites in it: as `own` by the sites themselves, as `far` by
hoisted declarations, which pass through every scope but that of a function. -/
def decls (own far : Bool) : Sites → List Declaration
  | .nil => []
  | .site x rest => (if own then x.decl?.toList else []) ++ rest.decls own far
  | .hoist inner rest => inner.decls far far ++ rest.decls own far
  | .scope kind _ inner rest =>
    (if kind = .function then [] else inner.decls false far) ++ rest.decls own far

def placed (t : Table) (s : ScopeId) : Sites → List (ScopeId × Site)
  | .nil => []
  | .site x rest => (s, x) :: rest.placed t s
  | .hoist inner rest => inner.placed t s ++ rest.placed t s
  | .scope _ n inner rest => inner.placed t ((t.scopeOf? n.mark).getD s) ++ rest.placed t s

example (t : Table) (s : ScopeId) (m : Mark) (i : Ident) :
    (Stmt.labeled m i (.empty m)).sites.placed t s =
      [(s, .node ⟨.labeledStmt, m, i.name⟩), (s, .label i (.empty m)),
        (s, .node ⟨.emptyStmt, m, []⟩)] := by cbv

end Sites

end LabelHooks
