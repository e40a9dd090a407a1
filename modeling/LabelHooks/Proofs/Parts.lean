import LabelHooks.Proofs.Sites
import LabelHooks.Syntax.Shape

/-!
The parts of a tree: its expressions and statements in the order of a walk, each above the parts
inside it. Places that the pass does not look into are kept apart: names of members and
properties, targets that are no patterns, operands of an update that are no references.
-/

namespace LabelHooks

inductive Part where
  | expr (e : Expr)
  | stmt (s : Stmt)

inductive Part.Role where
  | plain
  | label (l : Ident)
  /-- An assignment to a name, or its increment or decrement. -/
  | mutation (i : Ident)
  /-- An `await` or a `yield`. -/
  | suspension (m : Mark)
  /-- An arrow function with parameters. -/
  | arrow (m : Mark)
  | function
deriving DecidableEq, Repr

namespace Expr

def isReference : Expr → Bool
  | .ident _ | .member _ _ _ _ _ => true
  | _ => false

end Expr

namespace Part

namespace Role

def ofTarget (target : Expr) : Role :=
  match target.ident? with
  | some i => .mutation i
  | none => .plain

def isFunction : Role → Bool
  | .arrow _ | .function => true
  | .plain | .label _ | .mutation _ | .suspension _ => false

def suspension? : Role → Option Mark
  | .suspension m => some m
  | .plain | .label _ | .mutation _ | .arrow _ | .function => none

def arrow? : Role → Option Mark
  | .arrow m => some m
  | .plain | .label _ | .mutation _ | .suspension _ | .function => none

end Role

def role : Part → Role
  | .expr (.assign _ _ target _) | .expr (.update _ _ _ target) => .ofTarget target
  | .expr (.await m _) | .expr (.yield m _ _) => .suspension m
  | .expr (.arrow m _ params _) => if params.isEmpty then .function else .arrow m
  | .expr (.function _ _) | .stmt (.funcDecl _ _) => .function
  | .stmt (.labeled _ l _) => .label l
  | _ => .plain

def base? : Part → Option Text
  | .expr (.assign _ _ target _) | .expr (.update _ _ _ target) => target.rootIdent?.map (·.name)
  | _ => none

def isWord : Part → Bool
  | .expr (.ident _) | .expr (.literal _) => true
  | _ => false

end Part

inductive Parts where
  | nil
  | part (x : Part) (inner rest : Parts)
  /-- Parts where the pass does not look. -/
  | skip (inner rest : Parts)

namespace Parts

def append : Parts → Parts → Parts
  | .nil, qs => qs
  | .part x inner rest, qs => .part x inner (rest.append qs)
  | .skip inner rest, qs => .skip inner (rest.append qs)

instance : Append Parts := ⟨append⟩

def above (x : Part) (inner : Parts) : Parts := .part x inner .nil

/-- Parts that the pass looks at if `seen` holds. -/
def when (seen : Bool) (ps : Parts) : Parts :=
  match seen with
  | true => ps
  | false => .skip ps .nil

end Parts

open Parts (above when)

mutual

/-- The parts of an expression; `seen` tells whether it stands in the place of one, or in that of
a pattern. -/
def Expr.parts (seen : Bool) : Expr → Parts
  | .hole => .nil
  | .ident i => when seen (above (.expr (.ident i)) .nil)
  | .literal l => when seen (above (.expr (.literal l)) .nil)
  | .template m tag quasis es =>
    when seen (above (.expr (.template m tag quasis es))
      (Expr.parts? true tag ++ Expr.partsList true es))
  | .this m => when seen (above (.expr (.this m)) .nil)
  | .super m => when seen (above (.expr (.super m)) .nil)
  | .array m es => when seen (above (.expr (.array m es)) (Expr.partsList true es))
  | .object m es => when seen (above (.expr (.object m es)) (Expr.partsList true es))
  | .property m shape key value =>
    above (.expr (.property m shape key value))
      (when shape.computed (key.parts true) ++ value.parts seen)
  | .spread m x => when seen (above (.expr (.spread m x)) (x.parts true))
  | .function m f => when seen (above (.expr (.function m f)) f.parts)
  | .arrow m isAsync ps body =>
    when seen (above (.expr (.arrow m isAsync ps body)) (Expr.partsList false ps ++ body.parts))
  | .unary m op x => when seen (above (.expr (.unary m op x)) (x.parts true))
  | .update m op before x =>
    when seen (above (.expr (.update m op before x)) (when x.isReference (x.parts false)))
  | .binary m op x y => when seen (above (.expr (.binary m op x y)) (x.parts true ++ y.parts true))
  | .assign m op x y => when seen (above (.expr (.assign m op x y)) (x.parts false ++ y.parts true))
  | .cond m x y z =>
    when seen (above (.expr (.cond m x y z)) (x.parts true ++ y.parts true ++ z.parts true))
  | .call m c as optional =>
    when seen (above (.expr (.call m c as optional)) (c.parts true ++ Expr.partsList true as))
  | .new m c as => when seen (above (.expr (.new m c as)) (c.parts true ++ Expr.partsList true as))
  | .member m x prop computed optional =>
    above (.expr (.member m x prop computed optional))
      (x.parts true ++ when computed (prop.parts true))
  | .seq m es => when seen (above (.expr (.seq m es)) (Expr.partsList true es))
  | .await m x => when seen (above (.expr (.await m x)) (x.parts true))
  | .yield m delegate x => when seen (above (.expr (.yield m delegate x)) (Expr.parts? true x))
  | .arrayPattern m es => above (.expr (.arrayPattern m es)) (Expr.partsList false es)
  | .objectPattern m es => above (.expr (.objectPattern m es)) (Expr.partsList false es)
  | .assignPattern m x y =>
    above (.expr (.assignPattern m x y)) (x.parts false ++ y.parts true)
  | .rest m x => above (.expr (.rest m x)) (x.parts false)

def Expr.parts? (seen : Bool) : Option Expr → Parts
  | none => .nil
  | some e => e.parts seen

def Expr.partsList (seen : Bool) : List Expr → Parts
  | [] => .nil
  | e :: es => e.parts seen ++ Expr.partsList seen es

def Body.parts : Body → Parts
  | .block b => b.parts
  | .expr e => e.parts true

def Func.parts : Func → Parts
  | .mk _ _ ps body _ _ => Expr.partsList false ps ++ body.parts

def Block.parts : Block → Parts
  | .mk _ list => Stmt.partsList list

def Block.parts? : Option Block → Parts
  | none => .nil
  | some b => b.parts

def Declarator.partsList : List Declarator → Parts
  | [] => .nil
  | .mk _ target init :: ds =>
    target.parts false ++ Expr.parts? true init ++ Declarator.partsList ds

def VarDecl.parts : VarDecl → Parts
  | .mk _ _ ds => Declarator.partsList ds

def ForHead.parts (seen : Bool) : ForHead → Parts
  | .decl d => d.parts
  | .expr e => e.parts seen

def ForHead.parts? : Option ForHead → Parts
  | none => .nil
  | some h => h.parts true

def Catch.parts? : Option Catch → Parts
  | none => .nil
  | some (.mk _ param body) => Expr.parts? false param ++ body.parts

def Case.partsList : List Case → Parts
  | [] => .nil
  | .mk _ test body :: cs =>
    Expr.parts? true test ++ Stmt.partsList body ++ Case.partsList cs

def Stmt.parts : Stmt → Parts
  | .varDecl d => above (.stmt (.varDecl d)) d.parts
  | .funcDecl m f => above (.stmt (.funcDecl m f)) f.parts
  | .expr m x => above (.stmt (.expr m x)) (x.parts true)
  | .block b => above (.stmt (.block b)) b.parts
  | .labeled m label body => above (.stmt (.labeled m label body)) body.parts
  | .ret m x => above (.stmt (.ret m x)) (Expr.parts? true x)
  | .ifElse m test yes no =>
    above (.stmt (.ifElse m test yes no)) (test.parts true ++ yes.parts ++ Stmt.parts? no)
  | .forLoop m init test post body =>
    above (.stmt (.forLoop m init test post body))
      (ForHead.parts? init ++ Expr.parts? true test ++ Expr.parts? true post ++ body.parts)
  | .forIn m left right body isOf isAwait =>
    above (.stmt (.forIn m left right body isOf isAwait))
      (left.parts false ++ right.parts true ++ body.parts)
  | .whileLoop m test body => above (.stmt (.whileLoop m test body)) (test.parts true ++ body.parts)
  | .doWhile m body test => above (.stmt (.doWhile m body test)) (body.parts ++ test.parts true)
  | .branch m isBreak label => above (.stmt (.branch m isBreak label)) .nil
  | .throw m x => above (.stmt (.throw m x)) (x.parts true)
  | .tryCatch m block handler finalizer =>
    above (.stmt (.tryCatch m block handler finalizer))
      (block.parts ++ Catch.parts? handler ++ Block.parts? finalizer)
  | .switch m disc cases =>
    above (.stmt (.switch m disc cases)) (disc.parts true ++ Case.partsList cases)
  | .empty m => above (.stmt (.empty m)) .nil
  | .debugger m => above (.stmt (.debugger m)) .nil
  | .imports m specs source => above (.stmt (.imports m specs source)) .nil
  | .exportDecl m isDefault decl => above (.stmt (.exportDecl m isDefault decl)) decl.parts
  | .exportValue m value => above (.stmt (.exportValue m value)) (value.parts true)
  | .exportAll m name source => above (.stmt (.exportAll m name source)) .nil
  | .exportNames m specs source => above (.stmt (.exportNames m specs source)) .nil

def Stmt.parts? : Option Stmt → Parts
  | none => .nil
  | some s => s.parts

def Stmt.partsList : List Stmt → Parts
  | [] => .nil
  | s :: ss => s.parts ++ Stmt.partsList ss

end

def Program.parts (p : Program) : Parts := Stmt.partsList p.body

namespace Parts

def flat : Parts → List Part
  | .nil => []
  | .part x inner rest => x :: (inner.flat ++ rest.flat)
  | .skip inner rest => inner.flat ++ rest.flat

example (m : Mark) (i : Ident) : (Stmt.expr m (.update m .inc true (.ident i))).parts.flat =
    [.stmt (.expr m (.update m .inc true (.ident i))), .expr (.update m .inc true (.ident i)),
      .expr (.ident i)] := by cbv

def skipped : Parts → List Part
  | .nil => []
  | .part _ inner rest => inner.skipped ++ rest.skipped
  | .skip inner rest => inner.flat.filter (!·.isWord) ++ rest.skipped

/-- The parts that are not inside a function among them. -/
def own : Parts → List Part
  | .nil => []
  | .part x inner rest => x :: ((if x.role.isFunction then [] else inner.own) ++ rest.own)
  | .skip inner rest => inner.own ++ rest.own

def suspensions (ps : Parts) : List Mark := ps.own.filterMap (·.role.suspension?)

def holding {α : Type} (f : Part → Option α) : Parts → List (α × Mark)
  | .nil => []
  | .part x inner rest =>
    (f x).toList.flatMap (fun a => inner.suspensions.map (a, ·)) ++ inner.holding f ++
      rest.holding f
  | .skip inner rest => inner.holding f ++ rest.holding f

def Visited (ps : Parts) : Prop := ps.skipped = []

variable {α : Type}

@[simp] theorem nil_append (qs : Parts) : .nil ++ qs = qs := rfl

@[simp] theorem part_append (x : Part) (inner ps qs : Parts) :
    .part x inner ps ++ qs = .part x inner (ps ++ qs) := rfl

@[simp] theorem skip_append (inner ps qs : Parts) :
    .skip inner ps ++ qs = .skip inner (ps ++ qs) := rfl

@[simp] theorem append_nil (ps : Parts) : ps ++ .nil = ps := by
  induction ps with
  | nil => rfl
  | part x inner rest _ ih => rw [part_append, ih]
  | skip inner rest _ ih => rw [skip_append, ih]

theorem append_assoc (ps qs rs : Parts) : ps ++ qs ++ rs = ps ++ (qs ++ rs) := by
  induction ps with
  | nil => rfl
  | part x inner rest _ ih => simp only [part_append, ih]
  | skip inner rest _ ih => simp only [skip_append, ih]

@[simp] theorem flat_above (x : Part) (ps : Parts) : (above x ps).flat = x :: ps.flat := by
  simp [above, flat]

@[simp] theorem flat_append (ps qs : Parts) : (ps ++ qs).flat = ps.flat ++ qs.flat := by
  induction ps with
  | nil => rfl
  | part x inner rest _ ih => simp only [part_append, flat, ih, List.append_assoc, List.cons_append]
  | skip inner rest _ ih => simp only [skip_append, flat, ih, List.append_assoc]

@[simp] theorem skipped_append (ps qs : Parts) :
    (ps ++ qs).skipped = ps.skipped ++ qs.skipped := by
  induction ps with
  | nil => rfl
  | part x inner rest _ ih => simp only [part_append, skipped, ih, List.append_assoc]
  | skip inner rest _ ih => simp only [skip_append, skipped, ih, List.append_assoc]

theorem own_append (ps qs : Parts) : (ps ++ qs).own = ps.own ++ qs.own := by
  induction ps with
  | nil => rfl
  | part x inner rest _ ih => simp only [part_append, own, ih, List.append_assoc, List.cons_append]
  | skip inner rest _ ih => simp only [skip_append, own, ih, List.append_assoc]

@[simp] theorem suspensions_append (ps qs : Parts) :
    (ps ++ qs).suspensions = ps.suspensions ++ qs.suspensions := by
  simp only [suspensions, own_append, List.filterMap_append]

@[simp] theorem holding_append (f : Part → Option α) (ps qs : Parts) :
    (ps ++ qs).holding f = ps.holding f ++ qs.holding f := by
  induction ps with
  | nil => rfl
  | part x inner rest _ ih => simp only [part_append, holding, ih, List.append_assoc]
  | skip inner rest _ ih => simp only [skip_append, holding, ih, List.append_assoc]

@[simp] theorem visited_append {ps qs : Parts} :
    (ps ++ qs).Visited ↔ ps.Visited ∧ qs.Visited := by
  simp only [Visited, skipped_append, List.append_eq_nil_iff]

@[simp] theorem visited_above {x : Part} {ps : Parts} : (above x ps).Visited ↔ ps.Visited := by
  simp [Visited, above, skipped]

theorem visited_skip {ps : Parts} :
    (skip ps .nil).Visited ↔ ∀ x ∈ ps.flat, x.isWord = true := by
  simp [Visited, skipped, List.filter_eq_nil_iff]

@[simp] theorem flat_when (seen : Bool) (ps : Parts) : (when seen ps).flat = ps.flat := by
  cases seen <;> simp [when, flat]

@[simp] theorem flat_nil : Parts.nil.flat = [] := rfl

def All (P : Part → Prop) (ps : Parts) : Prop := ∀ x ∈ ps.flat, P x

section All

variable {P : Part → Prop} {ps qs : Parts}

@[simp] theorem all_nil : All P .nil := by simp [All]

@[simp] theorem all_above {x : Part} : (above x ps).All P ↔ P x ∧ ps.All P := by simp [All]

@[simp] theorem all_append : (ps ++ qs).All P ↔ ps.All P ∧ qs.All P := by
  simp only [All, flat_append, List.forall_mem_append]

theorem all_node₂ {x : Part} : (above x (ps ++ qs)).All P ↔ P x ∧ ps.All P ∧ qs.All P := by
  rw [all_above, all_append]

@[simp] theorem all_when {seen : Bool} : (when seen ps).All P ↔ ps.All P := by simp [All]

end All
end Parts

@[simp] theorem Expr.flat_parts (e : Expr) : (e.parts false).flat = (e.parts true).flat := by
  cases e with
  | property _ _ _ value => simp [Expr.parts, value.flat_parts]
  | _ => simp [Expr.parts]

@[simp] theorem Expr.flat_partsList (es : List Expr) :
    (Expr.partsList false es).flat = (Expr.partsList true es).flat := by
  induction es with
  | nil => rfl
  | cons e es ih => simp [Expr.partsList, ih]

@[simp] theorem Expr.flat_parts? (x : Option Expr) :
    (Expr.parts? false x).flat = (Expr.parts? true x).flat := by
  cases x <;> simp [Expr.parts?]

@[simp] theorem ForHead.flat_parts (x : ForHead) :
    (x.parts false).flat = (x.parts true).flat := by
  cases x <;> simp [ForHead.parts]

section All

variable {P : Part → Prop}

theorem Expr.all_parts {e : Expr} : (e.parts false).All P ↔ (e.parts true).All P := by
  simp [Parts.All]

theorem Expr.all_partsList {es : List Expr} :
    (Expr.partsList false es).All P ↔ (Expr.partsList true es).All P := by
  simp [Parts.All]

theorem Expr.all_parts? {x : Option Expr} :
    (Expr.parts? false x).All P ↔ (Expr.parts? true x).All P := by
  simp [Parts.All]

theorem ForHead.all_parts {x : ForHead} : (x.parts false).All P ↔ (x.parts true).All P := by
  simp [Parts.All]

end All

end LabelHooks
