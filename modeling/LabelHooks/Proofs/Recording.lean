import LabelHooks.Proofs.SiteNodes

/-!
Analysis records the sites of a program one after the other: the table it builds depends on
nothing else.
-/

namespace LabelHooks
set_option autoImplicit true

open Analysis

def Site.record (owner s : ScopeId) (t : Table) : Site → Table
  | .use i => if i.name.isEmpty then t else t.addReference i.name
  | .bind kind i => t.declare owner i.name kind (some i)
  | .label i _ => t.addLabel i.name
  | .share m => t.bind m s
  | .node _ | .call _ _ _ | .stray _ => t

namespace Table

def opened (t : Table) (s : ScopeId) (kind : ScopeKind) (n : Node) : Table :=
  (t.child s kind (some n)).2.bind n.mark t.scopes.length

end Table

namespace Sites

def record (owner s : ScopeId) : Sites → Table → Table
  | .nil, t => t
  | .site x rest, t => rest.record owner s (x.record owner s t)
  | .hoist inner rest, t => rest.record owner s (inner.record (t.functionScope s) s t)
  | .scope kind n inner rest, t =>
    rest.record owner s (inner.record t.scopes.length t.scopes.length (t.opened s kind n))

@[simp] theorem record_append (owner s : ScopeId) (xs ys : Sites) (t : Table) :
    (xs ++ ys).record owner s t = ys.record owner s (xs.record owner s t) := by
  induction xs generalizing owner s t with
  | nil => rfl
  | site x rest ih => exact ih _ _ _
  | hoist inner rest _ ih => exact ih _ _ _
  | scope kind n inner rest _ ih => exact ih _ _ _

def RecordedBy (owner s : ScopeId) (xs : Sites) (x : Analyze Unit) : Prop :=
  ∀ t, x.run t = ((), xs.record owner s t)

namespace RecordedBy

theorem nil : RecordedBy owner s .nil (pure ()) := fun _ => rfl

theorem append (hx : RecordedBy owner s xs x) (hy : RecordedBy owner s ys y) :
    RecordedBy owner s (xs ++ ys) (do x; y) := by
  intro t
  rw [record_append, StateT.run_bind, hx t]
  exact hy _

theorem node (hx : RecordedBy owner s xs x) : RecordedBy owner s (.site (.node n) xs) x :=
  fun t => hx t

theorem leaf (hx : ∀ t, x.run t = ((), a.record owner s t)) :
    RecordedBy owner s (.site a .nil) x :=
  fun t => hx t

theorem words (ns : List Node) : RecordedBy owner s (ofNodes ns) (pure ()) := by
  induction ns with
  | nil => exact nil
  | cons n ns ih => exact node ih

theorem trailing (hx : RecordedBy owner s xs x) (ns : List Node) :
    RecordedBy owner s (xs ++ ofNodes ns) x := by
  intro t
  have hwords : RecordedBy owner s (ofNodes ns) (pure ()) := words ns
  have h : ((), xs.record owner s t) = _ := hwords (xs.record owner s t)
  rw [hx t, record_append, h]

theorem use (i : Ident) : RecordedBy owner s (.site (.use i) .nil) (refer i.name) := by
  intro t
  simp only [refer, record, Site.record]
  split <;> rfl

theorem key {e : Expr} (h : RecordedBy owner s e.sites x) (computed : Bool) :
    RecordedBy owner s (if computed then e.sites else ofNodes e.nodes)
      (if computed then x else pure ()) := by
  cases computed with
  | false => exact words _
  | true => exact h

theorem keyed {e : Expr} (h : RecordedBy owner s e.sites x) (hy : RecordedBy owner s ys y)
    (computed : Bool) :
    RecordedBy owner s ((if computed then e.sites else ofNodes e.nodes) ++ ys)
      (if computed then do x; y else y) := by
  cases computed with
  | false => exact (words _).append hy
  | true => exact h.append hy

theorem scope (hx : ∀ c, RecordedBy c c xs (x c)) :
    RecordedBy owner s (.scope k n xs .nil) (enter k n s >>= x) := by
  intro t
  rw [StateT.run_bind]
  exact hx _ _

theorem noCall (c : Expr) (as : List Expr) : RecordedBy owner s (ofCall c as) (pure ()) := by
  unfold ofCall
  split <;> exact fun _ => rfl

theorem name? (kind : BindingKind) (i : Option Ident) :
    RecordedBy s r (ofIdent? (.bind kind) i) (declareName kind s i) := by
  cases i with
  | none => exact nil
  | some i => exact leaf fun _ => rfl

theorem decl (h : ∀ owner, RecordedBy owner s xs (x owner)) (kind : DeclKind) :
    RecordedBy s s (ofDecl kind xs) (declScope kind s >>= x) := by
  cases kind with
  | var => exact fun t => h (t.functionScope s) t
  | let_ => exact h s
  | const => exact h s

theorem label (h : RecordedBy owner s xs x) :
    RecordedBy owner s (.site (.label i b) xs) (do modify (·.addLabel i.name); x) :=
  fun t => h (t.addLabel i.name)

theorem sharing (h : RecordedBy owner s xs x) :
    RecordedBy owner s (.site (.share m) xs) (do share m s; x) :=
  fun t => h (t.bind m s)

theorem imports (specs : List ImportSpec) :
    RecordedBy owner s (ofImports specs)
      (specs.forM fun spec => declareIdent .import_ owner spec.binding) := by
  induction specs with
  | nil => exact nil
  | cons spec specs ih =>
    cases spec with
    | named m imported binding => exact node (node (append (leaf fun _ => rfl) ih))
    | default m binding => exact node (append (leaf fun _ => rfl) ih)
    | star m binding => exact node (append (leaf fun _ => rfl) ih)

theorem exports (specs : List ExportSpec) :
    RecordedBy owner s (ofExports true specs) (specs.forM fun spec => refer spec.source.name) := by
  induction specs with
  | nil => exact nil
  | cons spec specs ih => exact node (append (use spec.source) (node ih))

theorem reexports (specs : List ExportSpec) :
    RecordedBy owner s (ofExports false specs) (pure ()) := by
  induction specs with
  | nil => exact nil
  | cons spec specs ih => exact node (node (node ih))

end RecordedBy
end Sites

open Sites Sites.RecordedBy

mutual

theorem Expr.recorded : ∀ (e : Expr) (owner s : ScopeId),
    RecordedBy owner s e.sites (expr s e)
  | .hole, _, _ => nil
  | .ident i, _, _ => use i
  | .literal _, _, _ | .this _, _, _ | .super _, _, _ => node nil
  | .template _ tag _ es, _, _ => node ((Expr.recorded? tag _ _).append (Expr.recordedList es _ _))
  | .array _ es, _, _ | .object _ es, _, _ | .seq _ es, _, _ | .arrayPattern _ es, _, _
  | .objectPattern _ es, _, _ => node (Expr.recordedList es _ _)
  | .property _ shape k v, _, _ =>
    node ((k.recorded _ _).keyed (v.recorded _ _) shape.computed)
  | .member _ x k computed _, _, _ =>
    node ((x.recorded _ _).append ((k.recorded _ _).key computed))
  | .binary _ _ x y, _, _ | .assign _ _ x y, _, _ | .assignPattern _ x y, _, _ =>
    node ((x.recorded _ _).append (y.recorded _ _))
  | .spread _ x, _, _ | .unary _ _ x, _, _ | .update _ _ _ x, _, _ | .await _ x, _, _
  | .rest _ x, _, _ => node (x.recorded _ _)
  | .yield _ _ x, _, _ => node (Expr.recorded? x _ _)
  | .function _ f, _, _ => node (f.recorded _ _)
  | .arrow _ _ ps body, _, _ =>
    scope fun c => (Expr.recordedBindings .param ps c c).append (body.recorded c)
  | .cond _ x y z, _, _ => node (((x.recorded _ _).append (y.recorded _ _)).append (z.recorded _ _))
  | .call _ c as _, _, _ =>
    node (((noCall c as).append (c.recorded _ _)).append (Expr.recordedList as _ _))
  | .new _ c as, _, _ => node ((c.recorded _ _).append (Expr.recordedList as _ _))

theorem Expr.recorded? : ∀ (e : Option Expr) (owner s : ScopeId),
    RecordedBy owner s (Expr.sites? e) (expr? s e)
  | none, _, _ => nil
  | some e, _, _ => e.recorded _ _

theorem Expr.recordedList : ∀ (es : List Expr) (owner s : ScopeId),
    RecordedBy owner s (Expr.sitesList es) (exprs s es)
  | [], _, _ => nil
  | e :: es, _, _ => (e.recorded _ _).append (Expr.recordedList es _ _)

theorem Expr.recordedBinding (kind : BindingKind) : ∀ (e : Expr) (owner s : ScopeId),
    RecordedBy owner s (e.binding kind) (declare kind owner s e)
  | .hole, _, _ => nil
  | .ident _, _, _ => leaf fun _ => rfl
  | .arrayPattern _ es, _, _ | .objectPattern _ es, _, _ => node (Expr.recordedBindings kind es _ _)
  | .property _ shape k v, _, _ =>
    node ((k.recorded _ _).keyed (v.recordedBinding kind _ _) shape.computed)
  | .assignPattern _ left right, _, _ =>
    node ((left.recordedBinding kind _ _).append (right.recorded _ _))
  | .rest _ x, _, _ => node (x.recordedBinding kind _ _)
  | .literal _, _, _ | .template _ _ _ _, _, _ | .this _, _, _ | .super _, _, _
  | .array _ _, _, _ | .object _ _, _, _ | .spread _ _, _, _ | .function _ _, _, _
  | .arrow _ _ _ _, _, _ | .unary _ _ _, _, _ | .update _ _ _ _, _, _ | .binary _ _ _ _, _, _
  | .assign _ _ _ _, _, _ | .cond _ _ _ _, _, _ | .call _ _ _ _, _, _ | .new _ _ _, _, _
  | .member _ _ _ _ _, _, _ | .seq _ _, _, _ | .await _ _, _, _ | .yield _ _ _, _, _ =>
    leaf fun _ => rfl

theorem Expr.recordedBinding? (kind : BindingKind) : ∀ (e : Option Expr) (owner s : ScopeId),
    RecordedBy owner s (Expr.binding? kind e) (declare? kind owner s e)
  | none, _, _ => nil
  | some e, _, _ => e.recordedBinding kind _ _

theorem Expr.recordedBindings (kind : BindingKind) : ∀ (es : List Expr) (owner s : ScopeId),
    RecordedBy owner s (Expr.bindingList kind es) (declareList kind owner s es)
  | [], _, _ => nil
  | e :: es, _, _ => (e.recordedBinding kind _ _).append (Expr.recordedBindings kind es _ _)

theorem Func.recorded : ∀ (f : Func) (owner s : ScopeId),
    RecordedBy owner s (f.sites true) (func true s f)
  | .mk _ name ps body _ _, _, _ => scope fun c =>
    ((name? .local_ name).append (Expr.recordedBindings .param ps c c)).append
      (body.recordedSharing c)

theorem Func.recordedDecl : ∀ (f : Func) (s : ScopeId),
    RecordedBy s s (ofIdent? (.bind .function) f.name? ++ f.sites false)
      (do declareName .function s f.name?; func false s f)
  | .mk _ name ps body _ _, _ => (name? .function name).append <| scope fun c =>
    (Expr.recordedBindings .param ps c c).append (body.recordedSharing c)

theorem Block.recordedSharing : ∀ (b : Block) (s : ScopeId),
    RecordedBy s s b.sharing (Analysis.sharing s b)
  | .mk _ list, s => sharing (Stmt.recordedList list s)

theorem Block.recorded : ∀ (b : Block) (s : ScopeId), RecordedBy s s b.sites (block s b)
  | .mk _ list, _ => scope fun c => Stmt.recordedList list c

theorem Block.recorded? : ∀ (b : Option Block) (s : ScopeId),
    RecordedBy s s (Block.sites? b) (block? s b)
  | none, _ => nil
  | some b, s => b.recorded s

theorem Body.recorded : ∀ (b : Body) (s : ScopeId), RecordedBy s s b.sites (arrowBody s b)
  | .block b, s => b.recordedSharing s
  | .expr e, s => e.recorded s s

theorem Declarator.recordedList (kind : BindingKind) :
    ∀ (ds : List Declarator) (owner s : ScopeId),
      RecordedBy owner s (Declarator.sitesList kind ds) (declarators kind owner s ds)
  | [], _, _ => nil
  | .mk _ target init :: ds, _, _ =>
    node (((target.recordedBinding kind _ _).append (Expr.recorded? init _ _)).append
      (Declarator.recordedList kind ds _ _))

theorem VarDecl.recorded : ∀ (d : VarDecl) (s : ScopeId), RecordedBy s s d.sites (varDecl s d)
  | .mk _ kind ds, s => node (decl (fun owner => Declarator.recordedList _ ds owner s) kind)

theorem ForHead.recorded : ∀ (h : ForHead) (s : ScopeId), RecordedBy s s h.sites (forHead s h)
  | .decl d, s => d.recorded s
  | .expr e, s => e.recorded s s

theorem ForHead.recorded? : ∀ (h : Option ForHead) (s : ScopeId),
    RecordedBy s s (ForHead.sites? h) (forHead? s h)
  | none, _ => nil
  | some h, s => h.recorded s

theorem Catch.recorded? : ∀ (c : Option Catch) (s : ScopeId),
    RecordedBy s s (Catch.sites? c) (handler? s c)
  | none, _ => nil
  | some (.mk _ param body), _ => scope fun c =>
    (Expr.recordedBinding? .catch_ param c c).append (body.recordedSharing c)

theorem Case.recordedList : ∀ (cs : List Case) (s : ScopeId),
    RecordedBy s s (Case.sitesList cs) (cases s cs)
  | [], _ => nil
  | .mk _ test body :: cs, s =>
    node (((Expr.recorded? test s s).append (Stmt.recordedList body s)).append
      (Case.recordedList cs s))

theorem Stmt.recorded : ∀ (st : Stmt) (s : ScopeId), RecordedBy s s st.sites (stmt s st)
  | .varDecl d, s => d.recorded s
  | .funcDecl _ f, s => node (f.recordedDecl s)
  | .expr _ x, s | .throw _ x, s | .exportValue _ x, s => node (x.recorded s s)
  | .block b, s => b.recorded s
  | .labeled _ _ body, s => node (label (body.recorded s))
  | .ret _ x, s => node (Expr.recorded? x s s)
  | .ifElse _ test yes no, s =>
    node (((test.recorded s s).append (yes.recorded s)).append (Stmt.recorded? no s))
  | .forLoop _ init test post body, _ => scope fun c =>
    (((ForHead.recorded? init c).append (Expr.recorded? test c c)).append
      (Expr.recorded? post c c)).append (body.recorded c)
  | .forIn _ left right body _ _, _ => scope fun c =>
    ((left.recorded c).append (right.recorded c c)).append (body.recorded c)
  | .whileLoop _ test body, s => node ((test.recorded s s).append (body.recorded s))
  | .doWhile _ body test, s => node ((body.recorded s).append (test.recorded s s))
  | .branch _ _ none, _ => node nil
  | .branch _ _ (some _), _ => node (node nil)
  | .tryCatch _ b handler finalizer, s =>
    node (((b.recorded s).append (Catch.recorded? handler s)).append
      (Block.recorded? finalizer s))
  | .switch _ disc cases, s =>
    (disc.recorded s s).append (scope fun c => Case.recordedList cases c)
  | .empty _, _ | .debugger _, _ => node nil
  | .imports _ specs _, _ => node fun t => imports specs t
  | .exportDecl _ _ decl, s => node (decl.recorded s)
  | .exportAll _ none _, _ => node (node nil)
  | .exportAll _ (some _) _, _ => node (node (node nil))
  | .exportNames _ specs none, _ => node ((exports specs).trailing _)
  | .exportNames _ specs (some _), _ => node ((reexports specs).trailing _)

theorem Stmt.recorded? : ∀ (st : Option Stmt) (s : ScopeId),
    RecordedBy s s (Stmt.sites? st) (stmt? s st)
  | none, _ => nil
  | some st, s => st.recorded s

theorem Stmt.recordedList : ∀ (sts : List Stmt) (s : ScopeId),
    RecordedBy s s (Stmt.sitesList sts) (stmts s sts)
  | [], _ => nil
  | st :: sts, s => (st.recorded s).append (Stmt.recordedList sts s)

end

theorem Program.analyze_eq (p : Program) :
    p.analyze = p.sites.record Table.root Table.root (Table.ofProgram p) := by
  rw [Program.analyze, Stmt.recordedList p.body Table.root (Table.ofProgram p)]
  rfl

end LabelHooks
