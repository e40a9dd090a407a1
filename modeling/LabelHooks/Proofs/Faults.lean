import LabelHooks.Proofs.Outcomes
import LabelHooks.Proofs.Parts

/-!
Faults of labelled statements, and how a run of the pass meets them. The pass stops at the first
fault in the order of the walk; without faults it ends, and where no label asks for anything it
changes nothing.
-/

namespace LabelHooks
set_option autoImplicit true

open Pass

/-- An anonymous function that is neither async nor a generator and whose parameters are names. -/
inductive Expr.IsPlainFunction : Expr → Prop
  | arrow (m : Mark) (params : List Ident) (body : Body) :
    IsPlainFunction (.arrow m false (params.map .ident) body)
  | function (m fm : Mark) (params : List Ident) (body : Block) :
    IsPlainFunction (.function m (.mk fm none (params.map .ident) body false false))

inductive Options.WellShaped (o : Options) : Text → Stmt → Prop
  | state (h : o.classify l = .state) :
    WellShaped o l (.expr m (.assign am .set (.ident target) init))
  | effect (h : o.classify l = .watch) (hf : f.IsPlainFunction) : WellShaped o l (.expr m f)
  | memo (h : o.classify l = .watch) (hf : f.IsPlainFunction) :
    WellShaped o l (.expr m (.assign am .set (.ident target) f))

namespace Stmt

def isExpression : Stmt → Bool
  | .expr _ _ => true
  | _ => false

def isAssignment : Stmt → Bool
  | .expr _ (.assign _ _ _ _) => true
  | _ => false

def isPlainAssignment : Stmt → Bool
  | .expr _ (.assign _ .set _ _) => true
  | _ => false

def assignsName : Stmt → Bool
  | .expr _ (.assign _ _ left _) => left.ident?.isSome
  | _ => false

def value : Stmt → Expr
  | .expr _ (.assign _ _ _ right) => right
  | .expr _ x => x
  | _ => .hole

def stateChecks (b : Stmt) : List (Bool × LabelCause) :=
  [(b.isExpression, .stateNotExpression),
    (b.isPlainAssignment, .stateNotAssignment),
    (b.assignsName, .stateTargetNotIdent)]

def watchChecks (b : Stmt) : List (Bool × LabelCause) :=
  [(b.isExpression, .watchShape),
    (b.isPlainAssignment || !b.isAssignment, .watchShape),
    (!b.value.suspends, .watchShape),
    (b.isAssignment || b.value.anonymous?.isSome, .watchShape),
    (b.value.anonymous?.isSome, .watchRightNotFunction),
    (b.assignsName || !b.isAssignment, .watchLeftNotIdent),
    (b.value.anonymous?.all fun f => f.1.all (·.ident?.isSome), .watchDeps)]

end Stmt

namespace Options

def checks (o : Options) (label : Text) (body : Stmt) : List (Bool × LabelCause) :=
  match o.classify label with
  | .state => body.stateChecks
  | .watch => body.watchChecks
  | .unmatched => []

def failing? (o : Options) (label : Text) (body : Stmt) : Option LabelCause :=
  ((o.checks label body).find? fun c => !c.1).map (·.2)

end Options

theorem Expr.params_eq_map_ident {ps : List Expr} :
    (ps.all fun e => e.ident?.isSome) = true ↔ ∃ is : List Ident, ps = is.map .ident := by
  induction ps with
  | nil => exact ⟨fun _ => ⟨[], rfl⟩, fun _ => rfl⟩
  | cons e ps ih =>
    rw [List.all_cons, Bool.and_eq_true, ih]
    constructor
    · rintro ⟨he, is, rfl⟩
      cases e with
      | ident i => exact ⟨i :: is, rfl⟩
      | _ => cases he
    · rintro ⟨_ | ⟨i, is⟩, h⟩
      · cases h
      · cases h
        exact ⟨rfl, is, rfl⟩

theorem Expr.isPlainFunction_iff {f : Expr} :
    f.IsPlainFunction ↔ f.suspends = false ∧
      ∃ ps body, f.anonymous? = some (ps, body) ∧ (ps.all fun e => e.ident?.isSome) = true := by
  constructor
  · intro h
    cases h with
    | arrow m params body =>
      exact ⟨rfl, _, _, rfl, Expr.params_eq_map_ident.2 ⟨params, rfl⟩⟩
    | function m fm params body =>
      exact ⟨rfl, _, _, rfl, Expr.params_eq_map_ident.2 ⟨params, rfl⟩⟩
  · rintro ⟨hs, ps, body, hf, hps⟩
    obtain ⟨is, rfl⟩ := Expr.params_eq_map_ident.1 hps
    cases f with
    | arrow m isAsync params b =>
      cases hf
      obtain rfl : isAsync = false := hs
      exact .arrow m is body
    | function m g =>
      obtain ⟨fm, name, params, b, isAsync, generator⟩ := g
      obtain ⟨rfl, rfl⟩ : isAsync = false ∧ generator = false := by
        simpa [Expr.suspends] using hs
      cases name with
      | none =>
        cases hf
        exact .function m fm is b
      | some i => cases hf
    | _ => cases hf

namespace Options

variable {o : Options} {label : Text} {body : Stmt}

theorem failing?_eq_none :
    o.failing? label body = none ↔ ∀ c ∈ o.checks label body, c.1 = true := by
  simp [failing?]

theorem stateChecks_iff (h : o.classify label = .state) :
    (∀ c ∈ body.stateChecks, c.1 = true) ↔ o.WellShaped label body := by
  constructor
  · intro hc
    simp only [Stmt.stateChecks, List.forall_mem_cons, List.not_mem_nil, false_implies,
      implies_true, and_true] at hc
    obtain ⟨-, hplain, hname⟩ := hc
    unfold Stmt.isPlainAssignment at hplain
    split at hplain
    · next m am left right =>
      obtain ⟨target, ht⟩ := Option.isSome_iff_exists.1 hname
      cases left with
      | ident i => exact .state h
      | _ => cases ht
    · cases hplain
  · intro hw
    cases hw with
    | state => simp [Stmt.stateChecks, Stmt.isExpression, Stmt.isPlainAssignment,
        Stmt.assignsName, Expr.ident?]
    | effect hl | memo hl => cases h.symm.trans hl

theorem watchChecks_iff (h : o.classify label = .watch) :
    (∀ c ∈ body.watchChecks, c.1 = true) ↔ o.WellShaped label body := by
  have hfun (f : Expr) : f.IsPlainFunction ↔ f.suspends = false ∧ f.anonymous?.isSome = true ∧
      (f.anonymous?.all fun g => g.1.all (·.ident?.isSome)) = true := by
    rw [Expr.isPlainFunction_iff]
    cases f.anonymous? with
    | none => simp
    | some g => exact ⟨fun ⟨hs, ps, body, hg, hps⟩ => ⟨hs, rfl, by cases hg; exact hps⟩,
        fun ⟨hs, _, hps⟩ => ⟨hs, g.1, g.2, rfl, hps⟩⟩
  constructor
  · intro hc
    simp only [Stmt.watchChecks, List.forall_mem_cons, List.not_mem_nil, false_implies,
      implies_true, and_true, Bool.not_eq_true'] at hc
    obtain ⟨hexpr, hplain, hsusp, -, hanon, hname, hdeps⟩ := hc
    have hf := (hfun _).2 ⟨hsusp, hanon, hdeps⟩
    cases body with
    | expr m x =>
      cases x with
      | assign am op left right =>
        cases op with
        | set =>
          cases left with
          | ident i => exact .memo h hf
          | _ => cases hname
        | _ => cases hplain
      | _ => exact .effect h hf
    | _ => cases hexpr
  · intro hw
    cases hw with
    | state hl => cases h.symm.trans hl
    | effect _ hf =>
      obtain ⟨hs, ha, hd⟩ := (hfun _).1 hf
      cases hf <;> simp_all [Stmt.watchChecks, Stmt.isExpression, Stmt.isPlainAssignment,
        Stmt.isAssignment, Stmt.assignsName, Stmt.value]
    | memo _ hf =>
      obtain ⟨hs, ha, hd⟩ := (hfun _).1 hf
      simp_all [Stmt.watchChecks, Stmt.isExpression, Stmt.isPlainAssignment,
        Stmt.isAssignment, Stmt.assignsName, Stmt.value, Expr.ident?]

/-- Under a label that asks for something, a statement is well shaped iff it passes all checks. -/
theorem failing?_eq_none_iff_wellShaped (h : o.classify label ≠ .unmatched) :
    o.failing? label body = none ↔ o.WellShaped label body := by
  rw [failing?_eq_none]
  cases hl : o.classify label with
  | state => simpa only [checks, hl] using stateChecks_iff hl
  | watch => simpa only [checks, hl] using watchChecks_iff hl
  | unmatched => exact absurd hl h

end Options

def Part.fault? (o : Options) : Part → Option (Text × LabelCause)
  | .stmt (.labeled _ l body) => (o.failing? l.name body).map (l.name, ·)
  | _ => none

namespace Parts

def faults (o : Options) (ps : Parts) : List (Text × LabelCause) := ps.flat.filterMap
  (Part.fault? o)

def Unlabelled (o : Options) (ps : Parts) : Prop :=
  ∀ x ∈ ps.flat, ∀ l, x.role = .label l → o.classify l.name = .unmatched

variable {o : Options} {ps qs : Parts} {x : Part}

@[simp] theorem faults_append : (ps ++ qs).faults o = ps.faults o ++ qs.faults o := by
  simp only [faults, flat_append, List.filterMap_append]

@[simp] theorem unlabelled_append :
    (ps ++ qs).Unlabelled o ↔ ps.Unlabelled o ∧ qs.Unlabelled o := by
  simp only [Unlabelled, flat_append, List.forall_mem_append]

theorem faults_above : (above x ps).faults o = (x.fault? o).toList ++ ps.faults o := by
  cases hx : x.fault? o <;> simp [faults, above, flat, hx]

theorem unlabelled_above : (above x ps).Unlabelled o ↔
    (∀ l, x.role = .label l → o.classify l.name = .unmatched) ∧ ps.Unlabelled o := by
  simp [Unlabelled, above, flat]

theorem faults_skip (h : (skip ps .nil).Visited) : (skip ps .nil).faults o = [] := by
  have hword := visited_skip.1 h
  simp only [faults, flat, List.append_nil, List.filterMap_eq_nil_iff]
  intro x hx
  cases x with
  | expr e => rfl
  | stmt s => cases hword _ hx

end Parts

namespace Pass

variable {α β : Type} {o : Options}

def stop? : Except LabelError α → Option (Text × LabelCause)
  | .ok _ => none
  | .error e => some (e.label, e.cause)

def StopsAt (x : Pass α) (fs : List (Text × LabelCause)) : Prop :=
  ∀ p, stop? (x.run.run p).1 = fs.head?

def Idle (x : Pass α) (a : α) : Prop := ∀ p, p.done.bindings = [] → Yields x p a p

theorem StopsAt.pure (a : α) : StopsAt (Pure.pure a) [] := fun _ => rfl

theorem StopsAt.bind {x : Pass α} {f : α → Pass β} (hx : StopsAt x fs)
    (hf : ∀ a, StopsAt (f a) gs) : StopsAt (x >>= f) (fs ++ gs) := by
  intro p
  have hp := hx p
  rw [ExceptT.run_bind, StateT.run_bind, List.head?_append]
  cases hrun : StateT.run (ExceptT.run x) p with
  | mk r p₁ =>
    rw [hrun] at hp
    rw [← hp]
    cases r with
    | ok a => exact hf a p₁
    | error e => rfl

theorem StopsAt.reject (pos : Position) (label : Text) (cause : LabelCause) :
    StopsAt (Pass.reject pos label cause : Pass α) ((label, cause) :: fs) := fun _ => rfl

theorem StopsAt.congr {x : Pass α} (hx : StopsAt x fs) (h : fs.head? = gs.head?) : StopsAt x gs :=
  fun p => (hx p).trans h

theorem StopsAt.first {x : Pass α} {f : α → Pass β} (hx : StopsAt x (c :: fs)) :
    StopsAt (x >>= f) (c :: gs) := by
  intro p
  have hp := hx p
  rw [ExceptT.run_bind, StateT.run_bind]
  cases hrun : StateT.run (ExceptT.run x) p with
  | mk r p₁ =>
    rw [hrun] at hp
    cases r with
    | ok a => cases hp
    | error e => exact hp

theorem StopsAt.after {x : Pass α} {f : α → Pass β} (hx : StopsAt x []) (hf : ∀ a, StopsAt
    (f a) fs) :
    StopsAt (x >>= f) fs := hx.bind hf

theorem StopsAt.before {x : Pass α} {f : α → Pass β} (hx : StopsAt x fs)
    (hf : ∀ a, StopsAt (f a) []) : StopsAt (x >>= f) fs := by
  have h := hx.bind hf
  rwa [List.append_nil] at h

theorem stopsAt_openCallback (b : Reactive) (q : Ident) (e : Expr) (s : ScopeId) (span : Span) :
    StopsAt (openCallback b q e s span) [] := fun _ => rfl

theorem stopsAt_memberCallback? (mutation x : Expr) (s : ScopeId) :
    StopsAt (memberCallback? o mutation x s) [] := by
  unfold memberCallback?
  split
  · exact .pure _
  · split
    · exact .pure _
    · refine .after (fun _ => rfl) fun b => ?_
      cases b with
      | none => exact .pure _
      | some b =>
        exact .after (stopsAt_openCallback b _ _ _ _) fun c => .after (fun _ => rfl) fun m _ => rfl

theorem stopsAt_finishMember (c : Option (Callback × Mark)) (e : Expr) :
    StopsAt (finishMember c e) [] := by
  cases c <;> exact fun _ => rfl

theorem stopsAt_openWatcher (old : Mark) (span : Span) (s : ScopeId) :
    StopsAt (openWatcher old span s) [] := by
  refine .after (fun _ => rfl) fun m => .after (fun _ => rfl) fun p => ?_
  dsimp only
  split <;> exact fun _ => rfl

theorem stopsAt_edit (f : Table → Table) : StopsAt (edit f) [] := fun _ => rfl

theorem stopsAt_count (f : Expansions → Expansions) : StopsAt (count f) [] := fun _ => rfl

theorem stopsAt_note (message : Text) (attrs : List (Text × Text)) : StopsAt
    (note message attrs) [] :=
  fun _ => rfl

theorem stopsAt_finishMemo (m am : Mark) (target : Ident) (wrapper : Expr) (deps : List Expr)
    (span : Span) (s : ScopeId) : StopsAt (finishMemo o m am target wrapper deps span s) [] :=
  .after (stopsAt_edit _) fun _ => .after (stopsAt_count _) fun _ => .after (stopsAt_note _ _)
    fun _ => .pure _

theorem stopsAt_finishEffect (m em : Mark) (wrapper : Expr) (deps : List Expr) (span : Span) :
    StopsAt (finishEffect o m em wrapper deps span) [] :=
  .after (stopsAt_count _) fun _ => .after (stopsAt_note _ _) fun _ => .pure _

theorem stopsAt_dependencies (label : Text) (ps : List Expr) :
    StopsAt (dependencies label ps)
      (if (ps.all fun e => e.ident?.isSome) = true then [] else [(label, .watchDeps)]) := by
  induction ps with
  | nil => exact .pure _
  | cons e ps ih =>
    cases e with
    | ident i => exact .before ih fun _ => .pure _
    | _ => exact .reject _ label _

theorem Idle.pure (a : α) : Idle (Pure.pure a) a := fun _ _ => rfl

theorem Idle.bind {x : Pass α} {f : α → Pass β} (hx : Idle x a) (hf : Idle (f a) b) :
    Idle (x >>= f) b :=
  fun p hp => yields_bind.2 ⟨a, p, hx p hp, hf p hp⟩

theorem idle_reactive? (name : Text) (s : ScopeId) : Idle (reactive? name s) none := by
  intro p hp
  refine yields_reactive?.2 ⟨?_, rfl⟩
  rw [hp]
  rfl

theorem idle_memberCallback? (mutation x : Expr) (s : ScopeId) :
    Idle (memberCallback? o mutation x s) none := by
  unfold memberCallback?
  split
  · exact .pure _
  · split
    · exact .pure _
    · exact .bind (idle_reactive? _ s) (.pure _)

/-- How the step reads code with these parts: it stops at their first fault, and it returns `a`
where no label asks for anything. -/
structure Reads (o : Options) (x : Pass α) (a : α) (ps : Parts) : Prop where
  stops : ps.Visited → StopsAt x (ps.faults o)
  idle : ps.Unlabelled o → Idle x a

namespace Reads

variable {ps qs : Parts}

theorem pure (a : α) : Reads o (Pure.pure a) a .nil := ⟨fun _ => .pure a, fun _ => .pure a⟩

theorem bind {x : Pass α} {f : α → Pass β} (g : α → β) (hx : Reads o x a ps)
    (hf : ∀ b, Reads o (f b) (g b) qs) : Reads o (x >>= f) (g a) (ps ++ qs) where
  stops hv := by
    obtain ⟨hp, hq⟩ := Parts.visited_append.1 hv
    rw [Parts.faults_append]
    exact (hx.stops hp).bind fun b => (hf b).stops hq
  idle hu := by
    obtain ⟨hp, hq⟩ := Parts.unlabelled_append.1 hu
    exact (hx.idle hp).bind ((hf a).idle hq)

theorem last {x : Pass α} (g : α → β) (hx : Reads o x a ps) :
    Reads o (do return g (← x)) (g a) ps := by
  have h := hx.bind g fun b => pure (g b)
  rwa [Parts.append_nil] at h

theorem scope {x : ScopeId → Pass α} (m : Mark) (s : ScopeId) (hx : ∀ c, Reads o (x c) a ps) :
    Reads o (scopeOf m s >>= x) a ps where
  stops hv := .after (fun _ => rfl) fun c => (hx c).stops hv
  idle hu := fun p hp => yields_bind.2 ⟨_, p, yields_scopeOf.2 ⟨rfl, rfl⟩, (hx _).idle hu p hp⟩

theorem above {x : Pass α} (hf : y.fault? o = none) (hx : Reads o x a ps) :
    Reads o x a (Parts.above y ps) where
  stops hv := by
    rw [Parts.faults_above, hf]
    exact hx.stops (Parts.visited_above.1 hv)
  idle hu := hx.idle (Parts.unlabelled_above.1 hu).2

theorem skip (a : α) : Reads o (Pure.pure a) a (.skip ps .nil) where
  stops hv := by
    rw [Parts.faults_skip hv]
    exact .pure a
  idle _ := .pure a

end Reads
end Pass

namespace Expr

variable {o : Options}

def Readable (o : Options) (e : Expr) : Prop := ∀ s, Reads o (expr o s e) e (e.parts true)

theorem Readable.stopsAtKey {β : Type} {k : Expr} {f : Expr → Pass β} (hk : k.Readable o)
    {computed : Bool} (s : ScopeId) (hv : (Parts.when computed (k.parts true)).Visited)
    (hf : ∀ k', StopsAt (f k') fs) :
    StopsAt (if computed then expr o s k >>= f else pure k >>= f)
      ((Parts.when computed (k.parts true)).faults o ++ fs) := by
  cases computed with
  | true => exact ((hk s).stops hv).bind hf
  | false => exact ((Reads.skip k).stops hv).bind hf

theorem Readable.idleKey {β : Type} {b : β} {k : Expr} {f : Expr → Pass β} (hk : k.Readable o)
    {computed : Bool} (s : ScopeId) (hu : (Parts.when computed (k.parts true)).Unlabelled o)
    (hf : Idle (f k) b) : Idle (if computed then expr o s k >>= f else pure k >>= f) b := by
  cases computed with
  | true => exact ((hk s).idle hu).bind hf
  | false => exact (Idle.pure k).bind hf

theorem Readable.key {β : Type} {k : Expr} {f : Expr → Pass β} {qs : Parts} (hk : k.Readable o)
    (g : Expr → β) (computed : Bool) (s : ScopeId) (hf : ∀ k', Reads o (f k') (g k') qs) :
    Reads o (if computed then expr o s k >>= f else pure k >>= f) (g k)
      (Parts.when computed (k.parts true) ++ qs) where
  stops hv := by
    obtain ⟨hk', hq⟩ := Parts.visited_append.1 hv
    rw [Parts.faults_append]
    exact hk.stopsAtKey s hk' fun k' => (hf k').stops hq
  idle hu := by
    obtain ⟨hk', hq⟩ := Parts.unlabelled_append.1 hu
    exact hk.idleKey s hk' ((hf k).idle hq)

theorem reads_member {x prop : Expr} {seen : Bool} (hx : x.Readable o) (hp : prop.Readable o)
    (m : Mark) (computed optional : Bool) (s : ScopeId) :
    Reads o (expr o s (member m x prop computed optional)) (member m x prop computed optional)
      ((member m x prop computed optional).parts seen) := by
  have h := Reads.bind (member m · prop computed optional) (hx s) fun x =>
    hp.key (member m x · computed optional) computed s fun prop =>
      .pure (member m x prop computed optional)
  rw [Parts.append_nil] at h
  exact .above rfl h

theorem Readable.assignName {right : Expr} (hr : right.Readable o) (m : Mark) (op : AssignOp)
    (i : Ident) : (assign m op (.ident i) right).Readable o := by
  intro s
  refine .above rfl ⟨fun hv => ?_, fun hu => ?_⟩
  · obtain ⟨hi, hv⟩ := Parts.visited_append.1 hv
    have hstops := (hr s).stops hv
    rw [Parts.faults_append]
    refine .after (x := reactive? i.name s) (fun _ => rfl) fun b => ?_
    cases b with
    | none => exact .before hstops fun _ => .pure _
    | some b =>
      exact .after (stopsAt_openCallback b _ right s m.span) fun c =>
        .before ((hr c.scope).stops hv) fun _ _ => rfl
  · obtain ⟨-, hu⟩ := Parts.unlabelled_append.1 hu
    exact .bind (idle_reactive? i.name s) (.bind ((hr s).idle hu) (.pure _))

theorem Readable.updateName (m : Mark) (op : UpdateOp) (before : Bool) (i : Ident) :
    (update m op before (.ident i)).Readable o := by
  intro s
  refine .above rfl ⟨fun _ => ?_, fun _ => .bind (idle_reactive? i.name s) (.pure _)⟩
  refine .after (x := reactive? i.name s) (fun _ => rfl) fun b => ?_
  cases b with
  | none => exact .pure _
  | some b => exact .after (stopsAt_openCallback b _ .hole s m.span) fun _ _ => rfl

theorem Readable.assignMember {x prop right : Expr} (hx : x.Readable o) (hp : prop.Readable o)
    (hr : right.Readable o) (m mm : Mark) (op : AssignOp) (computed optional : Bool) :
    (assign m op (.member mm x prop computed optional) right).Readable o := by
  intro s
  refine .above rfl ⟨fun hv => ?_, fun hu => ?_⟩
  · simp only [parts, Parts.visited_append, Parts.visited_above] at hv
    simp only [parts, Parts.faults_append, Parts.faults_above]
    refine .after (stopsAt_memberCallback? _ x s) fun c => ?_
    rw [List.append_assoc, List.append_assoc]
    refine ((hx _).stops hv.1.1).bind fun x' => hp.stopsAtKey _ hv.1.2 fun prop' => ?_
    exact ((hr _).stops hv.2).before fun right' => stopsAt_finishMember c _
  · simp only [parts, Parts.unlabelled_append, Parts.unlabelled_above] at hu
    refine .bind (idle_memberCallback? _ x s) (((hx s).idle hu.1.2.1).bind ?_)
    exact hp.idleKey s hu.1.2.2 (((hr s).idle hu.2).bind (.pure _))

theorem Readable.updateMember {x prop : Expr} (hx : x.Readable o) (hp : prop.Readable o)
    (m mm : Mark) (op : UpdateOp) (before computed optional : Bool) :
    (update m op before (.member mm x prop computed optional)).Readable o := by
  intro s
  refine .above rfl ⟨fun hv => ?_, fun hu => ?_⟩
  · simp only [isReference, Parts.when, parts, Parts.visited_append, Parts.visited_above] at hv
    simp only [isReference, Parts.when, parts, Parts.faults_append, Parts.faults_above]
    refine .after (stopsAt_memberCallback? _ x s) fun c => ?_
    refine ((hx _).stops hv.1).bind fun x' => ?_
    have h := hp.stopsAtKey (insideOf c s) hv.2 fun prop' => stopsAt_finishMember c
      (.update m op before (.member mm x' prop' computed optional))
    rwa [List.append_nil] at h
  · simp only [isReference, Parts.when, parts, Parts.unlabelled_append, Parts.unlabelled_above]
      at hu
    refine .bind (idle_memberCallback? _ x s) (((hx s).idle hu.2.1).bind ?_)
    exact hp.idleKey s hu.2.2 (.pure _)

end Expr

def Block.Readable (o : Options) (b : Block) : Prop := ∀ s, Reads o (Pass.sharing o s b) b b.parts

def Body.Readable (o : Options) (b : Body) : Prop := ∀ s, Reads o (arrowBody o s b) b b.parts

namespace Stmt

variable {o : Options} {l : Ident}

theorem reads_labeled {m : Mark} {body st : Stmt} {x : Pass Stmt}
    (hl : o.classify l.name ≠ .unmatched)
    (h : body.parts.Visited →
      StopsAt x (((o.failing? l.name body).map (l.name, ·)).toList ++ body.parts.faults o)) :
    Reads o x st (labeled m l body).parts where
  stops hv := by
    rw [parts, Parts.faults_above]
    exact h (Parts.visited_above.1 hv)
  idle hu := absurd ((Parts.unlabelled_above.1 hu).1 l rfl) hl

theorem stopsAt_stateTarget (label : Text) (am : Mark) (op : AssignOp) (left : Expr) :
    StopsAt (stateTarget label am op left)
      (if op ≠ .set then [(label, .stateNotAssignment)]
      else if left.ident?.isNone then [(label, .stateTargetNotIdent)] else []) := by
  unfold stateTarget
  split
  · exact .reject _ label _
  · cases left with
    | ident i => exact .pure i
    | _ => exact .reject _ label _

theorem reads_stateAssign {right : Expr} (hr : right.Readable o) (hl : o.classify l.name = .state)
    (m xm am : Mark) (op : AssignOp) (left : Expr) (s : ScopeId) (st : Stmt) :
    Reads o (state o s m l.name (.expr xm (.assign am op left right))) st
      (labeled m l (.expr xm (.assign am op left right))).parts := by
  refine reads_labeled (by simp [hl]) fun hv => ?_
  simp only [parts, Expr.parts, Parts.when, Parts.visited_above, Parts.visited_append] at hv
  have hstops := (stopsAt_stateTarget l.name am op left).bind fun target =>
    StopsAt.after (x := declareState target s m.span) (fun _ => rfl) fun b =>
      ((hr s).stops hv.2).before (f := finishState o m am target b) fun _ _ => rfl
  refine hstops.congr ?_
  simp only [parts, Expr.parts, Parts.when, Parts.faults_above, Parts.faults_append,
    Options.failing?, Options.checks, hl, stateChecks]
  by_cases hop : op = .set
  · subst hop
    cases left with
    | ident i => rfl
    | _ => rfl
  · cases op with
    | set => exact absurd rfl hop
    | _ => rfl

theorem reads_stateOther {body : Stmt} (hl : o.classify l.name = .state)
    (hb : body.isAssignment = false) (m : Mark) (s : ScopeId) (st : Stmt) :
    Reads o (state o s m l.name body) st (labeled m l body).parts := by
  have hplain : body.isPlainAssignment = false := by
    unfold isPlainAssignment
    split
    · cases hb
    · rfl
  have hfail : o.failing? l.name body =
      some (if body.isExpression then .stateNotAssignment else .stateNotExpression) := by
    simp only [Options.failing?, Options.checks, hl, stateChecks, hplain]
    cases body.isExpression <;> rfl
  refine reads_labeled (by simp [hl]) fun _ => ?_
  rw [hfail]
  cases body with
  | expr xm x =>
    cases x with
    | assign => cases hb
    | _ => exact .reject _ l.name _
  | _ => exact .reject _ l.name _

end Stmt

theorem Expr.faults_names (o : Options) (is : List Ident) :
    (Expr.partsList false (is.map .ident)).faults o = [] := by
  induction is with
  | nil => rfl
  | cons i is ih =>
    rw [List.map_cons, partsList, Parts.faults_append, ih]
    rfl

namespace Expr

variable {o : Options}

def depsFaults (label : Text) (ps : List Expr) : List (Text × LabelCause) :=
  if (ps.all fun e => e.ident?.isSome) = true then [] else [(label, .watchDeps)]

def WatchReadable (o : Options) (x : Expr) : Prop :=
  ∀ (label : Text) (s : ScopeId) (ps : List Expr) (body : Body), x.anonymous? = some (ps, body) →
    (x.parts true).Visited →
    StopsAt (watcher o label s x) (depsFaults label ps ++ (x.parts true).faults o)

theorem head?_depsFaults (label : Text) (ps : List Expr) (fs : List (Text × LabelCause)) :
    (depsFaults label ps ++ fs).head? =
      (depsFaults label ps ++ ((Expr.partsList false ps).faults o ++ fs)).head? := by
  unfold depsFaults
  split
  · next h =>
    obtain ⟨is, rfl⟩ := params_eq_map_ident.1 h
    rw [faults_names]
    rfl
  · rfl

theorem WatchReadable.arrow {body : Body} (hb : body.Readable o) (m : Mark) (isAsync : Bool)
    (params : List Expr) : (Expr.arrow m isAsync params body).WatchReadable o := by
  intro label s ps b hf hv
  cases hf
  simp only [parts, Parts.when, Parts.visited_above, Parts.visited_append] at hv
  have hstops := (stopsAt_dependencies label params).bind fun deps =>
    StopsAt.after (stopsAt_openWatcher m m.span s) fun r =>
      ((hb r.2).stops hv.2).before (f := fun body' => pure (Expr.arrow r.1 false [] body', deps))
        fun _ => .pure _
  refine hstops.congr ?_
  simp only [parts, Parts.when, Parts.faults_above, Parts.faults_append]
  exact head?_depsFaults label params _

theorem WatchReadable.function {body : Block} (hb : body.Readable o) (m fm : Mark)
    (name : Option Ident) (params : List Expr) (isAsync generator : Bool) :
    (Expr.function m (.mk fm name params body isAsync generator)).WatchReadable o := by
  intro label s ps b hf hv
  obtain ⟨rfl, rfl, rfl⟩ : name = none ∧ generator = false ∧ ps = params := by
    cases name <;> cases generator <;> cases hf
    exact ⟨rfl, rfl, rfl⟩
  simp only [parts, Func.parts, Parts.when, Parts.visited_above, Parts.visited_append] at hv
  have hstops := (stopsAt_dependencies label ps).bind fun deps =>
    StopsAt.after (stopsAt_openWatcher fm m.span s) fun r =>
      ((hb r.2).stops hv.2).before
        (f := fun body' => pure (Expr.arrow r.1 false [] (.block body'), deps)) fun _ => .pure _
  refine hstops.congr ?_
  simp only [parts, Func.parts, Parts.when, Parts.faults_above, Parts.faults_append]
  exact head?_depsFaults label ps _

end Expr

namespace Stmt

variable {o : Options} {l : Ident}

theorem stopsAt_memoTarget (label : Text) (am : Mark) (op : AssignOp) (left right : Expr) :
    StopsAt (memoTarget label am op left right)
      (if op ≠ .set then [(label, .watchShape)]
      else if right.suspends then [(label, .watchShape)]
      else if right.anonymous?.isNone then [(label, .watchRightNotFunction)]
      else if left.ident?.isNone then [(label, .watchLeftNotIdent)] else []) := by
  unfold memoTarget
  split
  · exact .reject _ label _
  split
  · exact .reject _ label _
  split
  · exact .reject _ label _
  cases left with
  | ident i => exact .pure i
  | _ => exact .reject _ label _

theorem failing?_memo {label : Text} (hl : o.classify label = .watch) (xm am : Mark) (op : AssignOp)
    (left right : Expr) :
    o.failing? label (.expr xm (.assign am op left right)) =
      if op ≠ .set then some .watchShape
      else if right.suspends then some .watchShape
      else if right.anonymous?.isNone then some .watchRightNotFunction
      else if left.ident?.isNone then some .watchLeftNotIdent
      else if right.anonymous?.all fun f => f.1.all (·.ident?.isSome) then none
      else some .watchDeps := by
  have hplain : (expr xm (.assign am op left right)).isPlainAssignment = decide (op = .set) := by
    cases op <;> rfl
  simp only [Options.failing?, Options.checks, hl, watchChecks, hplain, isExpression, isAssignment,
    value, assignsName]
  by_cases hop : op = .set
  · subst hop
    cases right.suspends with
    | true => rfl
    | false =>
      cases right.anonymous? with
      | none => rfl
      | some f =>
        simp only [Option.all_some]
        cases left.ident? with
        | none => rfl
        | some i => by_cases hd : (f.1.all fun e => e.ident?.isSome) = true <;> simp [hd]
  · simp [hop]

theorem reads_memo {right : Expr} (hr : right.WatchReadable o) (hl : o.classify l.name = .watch)
    (m xm am : Mark) (op : AssignOp) (left : Expr) (s : ScopeId) (st : Stmt) :
    Reads o (watch o s m l.name (.expr xm (.assign am op left right))) st
      (labeled m l (.expr xm (.assign am op left right))).parts := by
  refine reads_labeled (by simp [hl]) fun hv => ?_
  simp only [parts, Expr.parts, Parts.when, Parts.visited_above, Parts.visited_append] at hv
  have htarget := stopsAt_memoTarget l.name am op left right
  rw [failing?_memo hl]
  by_cases hop : op ≠ .set
  · rw [if_pos hop] at htarget ⊢
    exact htarget.first
  rw [if_neg hop] at htarget ⊢
  by_cases hsusp : right.suspends = true
  · rw [if_pos hsusp] at htarget ⊢
    exact htarget.first
  rw [if_neg hsusp] at htarget ⊢
  cases hanon : right.anonymous? with
  | none =>
    rw [hanon] at htarget
    exact htarget.first
  | some g =>
    by_cases hleft : left.ident?.isNone = true
    · simp only [hanon, hleft] at htarget ⊢
      exact htarget.first
    · simp only [hanon, hleft, Option.all_some] at htarget ⊢
      have hlast (target : Ident) := (hr l.name s g.1 g.2 hanon hv.2).before
        fun r : Expr × List Expr => stopsAt_finishMemo (o := o) m am target r.1 r.2 right.span s
      refine (htarget.after hlast).congr ?_
      cases left with
      | ident i =>
        simp only [parts, Expr.parts, Parts.when, Parts.faults_above, Parts.faults_append,
          Expr.depsFaults]
        by_cases hd : (g.1.all fun e => e.ident?.isSome) = true <;>
          simp [hd, Part.fault?, Parts.faults_skip hv.1]
      | _ => exact absurd rfl hleft

theorem failing?_effect {label : Text} {x : Expr} (hl : o.classify label = .watch) (xm : Mark)
    (hx : (expr xm x).isAssignment = false) :
    o.failing? label (.expr xm x) =
      if x.anonymous?.isNone || x.suspends then some .watchShape
      else if x.anonymous?.all fun f => f.1.all (·.ident?.isSome) then none
      else some .watchDeps := by
  have hvalue : (expr xm x).value = x := by
    cases x with
    | assign => cases hx
    | _ => rfl
  have hplain : (expr xm x).isPlainAssignment = false ∧ (expr xm x).assignsName = false := by
    cases x with
    | assign => cases hx
    | _ => exact ⟨rfl, rfl⟩
  simp only [Options.failing?, Options.checks, hl, watchChecks, hplain, isExpression, hx, hvalue]
  cases x.suspends with
  | true => cases x.anonymous? <;> rfl
  | false =>
    cases x.anonymous? with
    | none => rfl
    | some f =>
      by_cases hd : (f.1.all fun e => e.ident?.isSome) = true <;> simp [hd]

theorem stopsAt_checkEffect (label : Text) (x : Expr) :
    StopsAt (checkEffect label x)
      (if x.anonymous?.isNone || x.suspends then [(label, .watchShape)] else []) := by
  unfold checkEffect
  split
  · exact .reject _ label _
  · exact .pure _

theorem reads_effect {x : Expr} (hr : x.WatchReadable o) (hl : o.classify l.name = .watch)
    (m xm : Mark) (hx : (expr xm x).isAssignment = false) (s : ScopeId) (st : Stmt) :
    Reads o (watch o s m l.name (.expr xm x)) st (labeled m l (.expr xm x)).parts := by
  have hwatch : watch o s m l.name (.expr xm x) = (do
      checkEffect l.name x
      let r ← watcher o l.name s x
      finishEffect o m xm r.1 r.2 x.span) := by
    cases x with
    | assign => cases hx
    | _ => rfl
  refine reads_labeled (by simp [hl]) fun hv => ?_
  simp only [parts, Parts.visited_above] at hv
  have hcheck := stopsAt_checkEffect l.name x
  rw [failing?_effect hl xm hx, hwatch]
  by_cases hbad : (x.anonymous?.isNone || x.suspends) = true
  · rw [if_pos hbad] at hcheck ⊢
    exact hcheck.first
  rw [if_neg hbad] at hcheck ⊢
  cases hanon : x.anonymous? with
  | none => simp [hanon] at hbad
  | some g =>
    have hlast := (hr l.name s g.1 g.2 hanon hv).before
      fun r : Expr × List Expr => stopsAt_finishEffect (o := o) m xm r.1 r.2 x.span
    refine (hcheck.after fun _ => hlast).congr ?_
    simp only [parts, Parts.faults_above, Expr.depsFaults, Option.all_some]
    by_cases hd : (g.1.all fun e => e.ident?.isSome) = true <;> simp [hd, Part.fault?]

theorem reads_watchOther {body : Stmt} (hl : o.classify l.name = .watch)
    (hb : body.isExpression = false) (m : Mark) (s : ScopeId) (st : Stmt) :
    Reads o (watch o s m l.name body) st (labeled m l body).parts := by
  have hfail : o.failing? l.name body = some .watchShape := by
    simp only [Options.failing?, Options.checks, hl, watchChecks, hb]
    rfl
  refine reads_labeled (by simp [hl]) fun _ => ?_
  rw [hfail]
  cases body with
  | expr => cases hb
  | _ => exact .reject _ l.name _

end Stmt

mutual

theorem Expr.reads : ∀ e : Expr, e.Readable o
  | .hole => fun _ => .pure _
  | .ident _ | .literal _ | .this _ | .super _ => fun _ => .above rfl (.pure _)
  | .assign m op left right => by
    cases left with
    | ident i => exact .assignName right.reads m op i
    | member mm x prop computed optional =>
      exact .assignMember x.reads prop.reads right.reads m mm op computed optional
    | _ =>
      intro s
      exact .above rfl (.bind (Expr.assign m op · right) (Expr.readsTarget _ s) fun left =>
        .last (Expr.assign m op left) (right.reads s))
  | .update m op before x => by
    cases x with
    | ident i => exact .updateName m op before i
    | member mm x prop computed optional =>
      exact .updateMember x.reads prop.reads m mm op before computed optional
    | _ => exact fun s => .above rfl (.skip _)
  | .arrow m isAsync params body => fun s =>
    .above rfl (.scope m s fun c => .bind (Expr.arrow m isAsync · body)
      (Expr.readsTargets params c) fun params => .last (Expr.arrow m isAsync params) (body.reads c))
  | .function m f => fun s => .above rfl (.last (Expr.function m) (f.reads s))
  | .template m tag quasis es => fun s =>
    .above rfl (.bind (Expr.template m · quasis es) (Expr.reads? tag s) fun tag =>
      .last (Expr.template m tag quasis) (Expr.readsList es s))
  | .array m es => fun s => .above rfl (.last (Expr.array m) (Expr.readsList es s))
  | .object m es => fun s => .above rfl (.last (Expr.object m) (Expr.readsList es s))
  | .seq m es => fun s => .above rfl (.last (Expr.seq m) (Expr.readsList es s))
  | .property m shape key value => fun s =>
    .above rfl (key.reads.key (Expr.property m shape · value) shape.computed s fun key =>
      .last (Expr.property m shape key) (value.reads s))
  | .spread m x => fun s => .above rfl (.last (Expr.spread m) (x.reads s))
  | .unary m op x => fun s => .above rfl (.last (Expr.unary m op) (x.reads s))
  | .await m x => fun s => .above rfl (.last (Expr.await m) (x.reads s))
  | .binary m op x y => fun s =>
    .above rfl (.bind (Expr.binary m op · y) (x.reads s) fun x =>
      .last (Expr.binary m op x) (y.reads s))
  | .cond m x y z => fun s => by
    have h : Reads o (expr o s (.cond m x y z)) (.cond m x y z)
        (x.parts true ++ (y.parts true ++ z.parts true)) :=
      .bind (Expr.cond m · y z) (x.reads s) fun x => .bind (Expr.cond m x · z) (y.reads s) fun y =>
        .last (Expr.cond m x y) (z.reads s)
    rw [← Parts.append_assoc] at h
    exact .above rfl h
  | .call m c as optional => fun s =>
    .above rfl (.bind (Expr.call m · as optional) (c.reads s) fun c =>
      .last (Expr.call m c · optional) (Expr.readsList as s))
  | .new m c as => fun s =>
    .above rfl (.bind (Expr.new m · as) (c.reads s) fun c =>
      .last (Expr.new m c) (Expr.readsList as s))
  | .member m x prop computed optional => fun s => Expr.reads_member x.reads prop.reads m
    computed optional s
  | .yield m delegate x => fun s => .above rfl (.last (Expr.yield m delegate) (Expr.reads? x s))
  | .arrayPattern m es => fun s => .above rfl (.last (Expr.arrayPattern m) (Expr.readsTargets es s))
  | .objectPattern m es => fun s =>
    .above rfl (.last (Expr.objectPattern m) (Expr.readsTargets es s))
  | .assignPattern m left right => fun s =>
    .above rfl (.bind (Expr.assignPattern m · right) (left.readsTarget s) fun left =>
      .last (Expr.assignPattern m left) (right.reads s))
  | .rest m x => fun s => .above rfl (.last (Expr.rest m) (x.readsTarget s))

theorem Expr.reads? : ∀ (e : Option Expr) (s : ScopeId),
    Reads o (expr? o s e) e (Expr.parts? true e)
  | none, _ => .pure _
  | some e, s => .last some (e.reads s)

theorem Expr.readsList : ∀ (es : List Expr) (s : ScopeId),
    Reads o (exprs o s es) es (Expr.partsList true es)
  | [], _ => .pure _
  | e :: es, s => .bind (· :: es) (e.reads s) fun e => .last (e :: ·) (Expr.readsList es s)

theorem Expr.readsTarget : ∀ (e : Expr) (s : ScopeId), Reads o (pattern o s e) e (e.parts false)
  | .arrayPattern m es, s => .above rfl (.last (Expr.arrayPattern m) (Expr.readsTargets es s))
  | .objectPattern m es, s => .above rfl (.last (Expr.objectPattern m) (Expr.readsTargets es s))
  | .property m shape key value, s =>
    .above rfl (key.reads.key (Expr.property m shape · value) shape.computed s fun key =>
      .last (Expr.property m shape key) (value.readsTarget s))
  | .assignPattern m left right, s =>
    .above rfl (.bind (Expr.assignPattern m · right) (left.readsTarget s) fun left =>
      .last (Expr.assignPattern m left) (right.reads s))
  | .rest m x, s => .above rfl (.last (Expr.rest m) (x.readsTarget s))
  | .member m x prop computed optional, s =>
    Expr.reads_member x.reads prop.reads m computed optional s
  | .hole, _ => .pure _
  | .ident _, _ | .literal _, _ | .template _ _ _ _, _ | .this _, _ | .super _, _ | .array _ _, _
  | .object _ _, _ | .spread _ _, _ | .function _ _, _ | .arrow _ _ _ _, _ | .unary _ _ _, _
  | .update _ _ _ _, _ | .binary _ _ _ _, _ | .assign _ _ _ _, _ | .cond _ _ _ _, _
  | .call _ _ _ _, _ | .new _ _ _, _ | .seq _ _, _ | .await _ _, _ | .yield _ _ _, _ => .skip _

theorem Expr.readsTarget? : ∀ (e : Option Expr) (s : ScopeId),
    Reads o (pattern? o s e) e (Expr.parts? false e)
  | none, _ => .pure _
  | some e, s => .last some (e.readsTarget s)

theorem Expr.readsTargets : ∀ (es : List Expr) (s : ScopeId),
    Reads o (patterns o s es) es (Expr.partsList false es)
  | [], _ => .pure _
  | e :: es, s => .bind (· :: es) (e.readsTarget s) fun e => .last (e :: ·) (Expr.readsTargets es s)

theorem Func.reads : ∀ (f : Func) (s : ScopeId), Reads o (func o s f) f f.parts
  | .mk m name params body isAsync generator, s =>
    .scope m s fun c => .bind (Func.mk m name · body isAsync generator)
      (Expr.readsTargets params c) fun params =>
        .last (Func.mk m name params · isAsync generator) (body.readsSharing c)

theorem Block.readsSharing : ∀ b : Block, b.Readable o
  | .mk m list => fun s => .last (Block.mk m) (Stmt.readsList list s)

theorem Body.reads : ∀ b : Body, b.Readable o
  | .block b => fun s => .last Body.block (b.readsSharing s)
  | .expr e => fun s => .last Body.expr (e.reads s)

theorem Expr.readsWatch (x : Expr) : x.WatchReadable o := by
  cases x with
  | arrow m isAsync params body => exact .arrow body.reads m isAsync params
  | function m f =>
    obtain ⟨fm, name, params, body, isAsync, generator⟩ := f
    exact .function body.readsSharing m fm name params isAsync generator
  | _ => exact fun _ _ _ _ h => nomatch h

theorem Declarator.readsList : ∀ (ds : List Declarator) (s : ScopeId),
    Reads o (declarators o s ds) ds (Declarator.partsList ds)
  | [], _ => .pure _
  | .mk m target init :: ds, s => by
    have h : Reads o (declarators o s (.mk m target init :: ds)) (.mk m target init :: ds)
        (target.parts false ++ (Expr.parts? true init ++ Declarator.partsList ds)) :=
      .bind (Declarator.mk m · init :: ds) (target.readsTarget s) fun target =>
        .bind (Declarator.mk m target · :: ds) (Expr.reads? init s) fun init =>
          .last (Declarator.mk m target init :: ·) (Declarator.readsList ds s)
    rwa [← Parts.append_assoc] at h

theorem VarDecl.reads : ∀ (d : VarDecl) (s : ScopeId), Reads o (varDecl o s d) d d.parts
  | .mk m kind ds, s => .last (VarDecl.mk m kind) (Declarator.readsList ds s)

theorem ForHead.readsInit? : ∀ (i : Option ForHead) (s : ScopeId),
    Reads o (forInit? o s i) i (ForHead.parts? i)
  | none, _ => .pure _
  | some (.decl d), s => .last (some <| ForHead.decl ·) (d.reads s)
  | some (.expr e), s => .last (some <| ForHead.expr ·) (e.reads s)

theorem ForHead.readsTarget : ∀ (t : ForHead) (s : ScopeId),
    Reads o (forTarget o s t) t (t.parts false)
  | .decl d, s => .last ForHead.decl (d.reads s)
  | .expr e, s => .last ForHead.expr (e.readsTarget s)

theorem Block.reads : ∀ (b : Block) (s : ScopeId), Reads o (block o s b) b b.parts
  | .mk m list, s => .scope m s fun c => .last (Block.mk m) (Stmt.readsList list c)

theorem Block.reads? : ∀ (b : Option Block) (s : ScopeId),
    Reads o (block? o s b) b (Block.parts? b)
  | none, _ => .pure _
  | some b, s => .last some (b.reads s)

theorem Catch.reads? : ∀ (c : Option Catch) (s : ScopeId),
    Reads o (handler? o s c) c (Catch.parts? c)
  | none, _ => .pure _
  | some (.mk m param body), s =>
    .scope m s fun c => .bind (fun param => some (Catch.mk m param body))
      (Expr.readsTarget? param c) fun param =>
        .last (fun body => some (Catch.mk m param body)) (body.readsSharing c)

theorem Case.readsList : ∀ (cs : List Case) (s : ScopeId),
    Reads o (cases o s cs) cs (Case.partsList cs)
  | [], _ => .pure _
  | .mk m test body :: cs, s => by
    have h : Reads o (cases o s (.mk m test body :: cs)) (.mk m test body :: cs)
        (Expr.parts? true test ++ (Stmt.partsList body ++ Case.partsList cs)) :=
      .bind (Case.mk m · body :: cs) (Expr.reads? test s) fun test =>
        .bind (Case.mk m test · :: cs) (Stmt.readsList body s) fun body =>
          .last (Case.mk m test body :: ·) (Case.readsList cs s)
    rwa [← Parts.append_assoc] at h

theorem Stmt.reads : ∀ (st : Stmt) (s : ScopeId), Reads o (stmt o s st) st st.parts
  | .labeled m l body, s => by
    cases hl : o.classify l.name with
    | unmatched =>
      have hfault : (Part.stmt (.labeled m l body)).fault? o = none := by
        simp [Part.fault?, Options.failing?, Options.checks, hl]
      simp only [stmt, hl]
      exact .above hfault (.last (Stmt.labeled m l) (body.reads s))
    | state =>
      simp only [stmt, hl]
      cases body with
      | expr xm x =>
        cases x with
        | assign am op left right => exact Stmt.reads_stateAssign right.reads hl m xm am op left s _
        | _ => exact Stmt.reads_stateOther hl rfl m s _
      | _ => exact Stmt.reads_stateOther hl rfl m s _
    | watch =>
      simp only [stmt, hl]
      cases body with
      | expr xm x =>
        cases x with
        | assign am op left right => exact Stmt.reads_memo right.readsWatch hl m xm am op left s _
        | _ => exact Stmt.reads_effect (Expr.readsWatch _) hl m xm rfl s _
      | _ => exact Stmt.reads_watchOther hl rfl m s _
  | .varDecl d, s => .above rfl (.last Stmt.varDecl (d.reads s))
  | .funcDecl m f, s => .above rfl (.last (Stmt.funcDecl m) (f.reads s))
  | .expr m x, s => .above rfl (.last (Stmt.expr m) (x.reads s))
  | .throw m x, s => .above rfl (.last (Stmt.throw m) (x.reads s))
  | .exportValue m x, s => .above rfl (.last (Stmt.exportValue m) (x.reads s))
  | .block b, s => .above rfl (.last Stmt.block (b.reads s))
  | .ret m x, s => .above rfl (.last (Stmt.ret m) (Expr.reads? x s))
  | .ifElse m test yes no, s => by
    have h : Reads o (stmt o s (.ifElse m test yes no)) (.ifElse m test yes no)
        (test.parts true ++ (yes.parts ++ Stmt.parts? no)) :=
      .bind (Stmt.ifElse m · yes no) (test.reads s) fun test =>
        .bind (Stmt.ifElse m test · no) (yes.reads s) fun yes =>
          .last (Stmt.ifElse m test yes) (Stmt.reads? no s)
    rw [← Parts.append_assoc] at h
    exact .above rfl h
  | .forLoop m init test post body, s => by
    have h (c : ScopeId) := Reads.bind (o := o) (Stmt.forLoop m · test post body)
      (ForHead.readsInit? init c) fun init => .bind (Stmt.forLoop m init · post body)
        (Expr.reads? test c) fun test => .bind (Stmt.forLoop m init test · body)
          (Expr.reads? post c) fun post => .last (Stmt.forLoop m init test post) (body.reads c)
    simp only [← Parts.append_assoc] at h
    exact .above rfl (.scope m s h)
  | .forIn m left right body isOf isAwait, s => by
    have h (c : ScopeId) := Reads.bind (o := o) (Stmt.forIn m · right body isOf isAwait)
      (left.readsTarget c) fun left => .bind (Stmt.forIn m left · body isOf isAwait)
        (right.reads c) fun right => .last (Stmt.forIn m left right · isOf isAwait) (body.reads c)
    simp only [← Parts.append_assoc] at h
    exact .above rfl (.scope m s h)
  | .whileLoop m test body, s =>
    .above rfl (.bind (Stmt.whileLoop m · body) (test.reads s) fun test =>
      .last (Stmt.whileLoop m test) (body.reads s))
  | .doWhile m body test, s =>
    .above rfl (.bind (Stmt.doWhile m · test) (body.reads s) fun body =>
      .last (Stmt.doWhile m body) (test.reads s))
  | .tryCatch m b handler finalizer, s => by
    have h : Reads o (stmt o s (.tryCatch m b handler finalizer)) (.tryCatch m b handler finalizer)
        (b.parts ++ (Catch.parts? handler ++ Block.parts? finalizer)) :=
      .bind (Stmt.tryCatch m · handler finalizer) (b.reads s) fun b =>
        .bind (Stmt.tryCatch m b · finalizer) (Catch.reads? handler s) fun handler =>
          .last (Stmt.tryCatch m b handler) (Block.reads? finalizer s)
    rw [← Parts.append_assoc] at h
    exact .above rfl h
  | .switch m disc cs, s =>
    .above rfl (.bind (Stmt.switch m · cs) (disc.reads s) fun disc =>
      .scope m s fun c => .last (Stmt.switch m disc) (Case.readsList cs c))
  | .exportDecl m isDefault decl, s =>
    .above rfl (.last (Stmt.exportDecl m isDefault) (decl.reads s))
  | .branch _ _ _, _ | .empty _, _ | .debugger _, _ | .imports _ _ _, _ | .exportAll _ _ _, _
  | .exportNames _ _ _, _ => .above rfl (.pure _)

theorem Stmt.reads? : ∀ (st : Option Stmt) (s : ScopeId),
    Reads o (stmt? o s st) st (Stmt.parts? st)
  | none, _ => .pure _
  | some st, s => .last some (st.reads s)

theorem Stmt.readsList : ∀ (sts : List Stmt) (s : ScopeId),
    Reads o (stmts o s sts) sts (Stmt.partsList sts)
  | [], _ => .pure _
  | st :: sts, s => .bind (· :: sts) (st.reads s) fun st => .last (st :: ·) (Stmt.readsList sts s)

end
end LabelHooks
