import LabelHooks.Proofs.Fingerprints
import Mathlib.Data.Set.Function
import Mathlib.Logic.Relation

/-!
Calls that compile files and share one store. They go on in any order, files change between their
steps, and the store may fail whenever it is used. What a call returns is what its compiler makes
of the content it read: an entry stands for the settings and the content of the call it is from.
-/

namespace LabelHooks
set_option autoImplicit true

open Relation (ReflTransGen)
open List

namespace Compiler

variable {c c' : Compiler}

def Accepted (c : Compiler) : Prop := ∃ o b clock, new o b clock = .ok c

theorem Accepted.validate (h : c.Accepted) : c.options.validate = .ok () := by
  obtain ⟨o, b, clock, h⟩ := h
  rw [new] at h
  split at h
  · cases h
  · next hv =>
    dsimp only at h
    split at h
    · cases h
    · cases h
      exact hv

def outcome (r : Except BuildError Output) : Except BuildError (Text × Stats) :=
  r.map fun out => (out.code, out.stats)

def compiles (c : Compiler) (file content : Text) : Except BuildError (Text × Stats) :=
  outcome (c.compileSource file content).2

theorem compiles_congr (ho : c.options = c'.options) (h : c.compiles file content = .ok x) :
    c'.compiles file' content = .ok x := by
  rw [compiles, compileSource, compileLowered] at h ⊢
  cases hparse : Program.parse content with
  | error stop =>
    rw [hparse] at h
    cases stop <;> cases h
  | ok p =>
    rw [hparse] at h
    rw [← ho]
    dsimp only at h ⊢
    generalize (p.restoreWatchParams c.options.watchLabel []).desugar c.options = d at h ⊢
    obtain ⟨log, (e | e) | d⟩ := d
    · cases h
    · cases h
    · exact h

theorem lookup_some (h : (c.lookup store src path key).2 = some out) :
    ∃ e, store.get path = .ok (some e) ∧ e.key = key ∧
      outcome (.ok out) = .ok (e.code, e.stats) := by
  rw [lookup] at h
  split at h
  · cases h
  · cases h
  · next e he =>
    split at h
    · next hkey =>
      cases h
      exact ⟨e, he, hkey, rfl⟩
    · cases h

end Compiler

namespace Store

def entries (s : Store) : List Entry := (s.database.map Database.entries).getD []

theorem entries_of_tables {s : Store} (h : s.tables action = .ok d) : s.entries = d.entries := by
  rw [tables, opened?] at h
  cases hd : s.database with
  | none =>
    rw [hd] at h
    cases h
  | some d' =>
    rw [hd] at h
    change (if d'.migrated = true then Except.ok d' else _) = _ at h
    split at h
    · cases h
      rw [entries, hd]
      rfl
    · cases h

theorem mem_of_get {s : Store} {path : Text} (h : s.get path = .ok (some e)) : e ∈ s.entries := by
  rw [get] at h
  cases ht : s.tables "get entry" with
  | error x =>
    rw [ht] at h
    cases h
  | ok d =>
    rw [ht] at h
    have hfind : d.entries.find? (·.path = path) = some e := Except.ok.inj h
    rw [entries_of_tables ht]
    exact mem_of_find?_eq_some hfind

theorem mem_of_put {s s' : Store} (h : s.put e = .ok s') (hx : x ∈ s'.entries) :
    x = e ∨ x ∈ s.entries := by
  rw [put] at h
  cases ht : s.tables "put entry" with
  | error x =>
    rw [ht] at h
    cases h
  | ok d =>
    rw [ht] at h
    cases h
    rw [entries_of_tables ht]
    simp only [entries, keep, Option.map_some, Option.getD_some, mem_append, mem_filter,
      mem_singleton] at hx
    obtain ⟨hx, -⟩ | hx := hx
    · exact .inr hx
    · exact .inl hx

theorem mem_of_remember {c : Compiler} {s : Store} {path : Text}
    (hx : x ∈ (c.remember s path key out).2.entries) :
    x = ⟨path, key, out.code, out.stats, c.clock.now⟩ ∨ x ∈ s.entries := by
  rw [Compiler.remember] at hx
  split at hx
  · exact .inr hx
  · next hput => exact mem_of_put hput hx

theorem get_of_put {s : Store} (hd : s.database = some d) (hm : d.migrated = true) :
    ∃ s', s.put e = .ok s' ∧ s'.get e.path = .ok (some e) := by
  refine ⟨s.keep { d with entries := d.entries.filter (·.path ≠ e.path) ++ [e] }, ?_, ?_⟩
  · simp only [put, tables, opened?, hd]
    change (if d.migrated = true then Except.ok d else _) >>= _ = _
    rw [if_pos hm]
    rfl
  · have hfind : (d.entries.filter (·.path ≠ e.path) ++ [e]).find? (·.path = e.path) = some e := by
      rw [find?_append, find?_eq_none.2, Option.none_or]
      · simp
      · intro x hx
        simpa using (mem_filter.1 hx).2
    simp only [get, tables, opened?, keep]
    change (if d.migrated = true then Except.ok _ else _) >>= _ = _
    rw [if_pos hm]
    exact congrArg Except.ok hfind

theorem lookup_of_remember {c c' : Compiler} {s : Store} {out : Output} {path key : Text}
    (hd : s.database = some d) (hm : d.migrated = true) (src : SourceFile) :
    (c.lookup (c'.remember s path key out).2 src path key).2 =
      some ⟨src, out.code, out.stats, none, true, c.clock.elapsed⟩ := by
  obtain ⟨s', hput, hget⟩ :=
    get_of_put (e := ⟨path, key, out.code, out.stats, c'.clock.now⟩) hd hm
  rw [Compiler.remember, hput]
  dsimp only at hget ⊢
  rw [Compiler.lookup, hget]
  dsimp only
  rw [if_pos rfl]

end Store

inductive Phase where
  | started
  | unread (e : BuildError)
  /-- The content of the file is known, and the path under which the store knows the file. -/
  | read (content path : Text)
  /-- The store had nothing; the output is about to be kept. -/
  | compiled (content path : Text) (out : Output)
  | returned (content : Text) (result : Except BuildError Output)

namespace Phase

def content? : Phase → Option Text
  | .started | .unread _ => none
  | .read content _ | .compiled content _ _ | .returned content _ => some content

def result? : Phase → Option (Except BuildError Output)
  | .started | .read _ _ | .compiled _ _ _ => none
  | .unread e => some (.error e)
  | .returned _ r => some r

end Phase

structure Job where
  compiler : Compiler
  source : SourceFile
  phase : Phase

namespace Job

variable {call call' : Job}

/-- What a call does next with the files and the store as they are; the store after it. A store
that fails may stand in for the shared one. -/
inductive Step (files : Files) (store : Store) : Job → Job → Store → Prop
  | unread {c : Compiler} {src : SourceFile} (h : files.read src.path = .error e) :
      Step files store ⟨c, src, .started⟩ ⟨c, src, .unread (.unreadable src.path e)⟩ store
  | read {c : Compiler} {src : SourceFile} (h : files.read src.path = .ok content) :
      Step files store ⟨c, src, .started⟩ ⟨c, src, .read content (files.abs src.path)⟩ store
  | hit (asked : Store) (ha : asked = store ∨ ∃ e, asked.get path = .error e)
      (h : (c.lookup asked src path (Entry.keyOf c.fingerprint content)).2 = some out) :
      Step files store ⟨c, src, .read content path⟩ ⟨c, src, .returned content (.ok out)⟩ store
  | fail (asked : Store) (ha : asked = store ∨ ∃ e, asked.get path = .error e)
      (h : (c.lookup asked src path (Entry.keyOf c.fingerprint content)).2 = none)
      (he : (c.compileSource src.path content).2 = .error e) :
      Step files store ⟨c, src, .read content path⟩ ⟨c, src, .returned content (.error e)⟩ store
  | compile (asked : Store) (ha : asked = store ∨ ∃ e, asked.get path = .error e)
      (h : (c.lookup asked src path (Entry.keyOf c.fingerprint content)).2 = none)
      (hout : (c.compileSource src.path content).2 = .ok out) :
      Step files store ⟨c, src, .read content path⟩
        ⟨c, src, .compiled content path { out with source := src }⟩ store
  | keep : Step files store ⟨c, src, .compiled content path out⟩
      ⟨c, src, .returned content (.ok out)⟩
      (c.remember store path (Entry.keyOf c.fingerprint content) out).2
  /-- The store fails to keep the output. -/
  | lose : Step files store ⟨c, src, .compiled content path out⟩
      ⟨c, src, .returned content (.ok out)⟩ store

theorem exists_step (files : Files) (store : Store) (h : call.phase.result? = none) :
    ∃ call' store', call.Step files store call' store' := by
  obtain ⟨c, src, phase⟩ := call
  cases phase with
  | started =>
    cases hread : files.read src.path with
    | error e => exact ⟨_, _, .unread hread⟩
    | ok content => exact ⟨_, _, .read hread⟩
  | unread e => cases h
  | read content path =>
    cases hl : (c.lookup store src path (Entry.keyOf c.fingerprint content)).2 with
    | some out => exact ⟨_, _, .hit store (.inl rfl) hl⟩
    | none =>
      cases hout : (c.compileSource src.path content).2 with
      | error e => exact ⟨_, _, .fail store (.inl rfl) hl hout⟩
      | ok out => exact ⟨_, _, .compile store (.inl rfl) hl hout⟩
  | compiled content path out => exact ⟨_, _, .keep⟩
  | returned content r => cases h

structure Later (call call' : Job) : Prop where
  compiler : call'.compiler = call.compiler
  source : call'.source = call.source
  content : ∀ content, call.phase.content? = some content → call'.phase.content? = some content

theorem Step.later (h : call.Step files store call' store') : call.Later call' := by
  cases h with
  | unread h | read h => exact ⟨rfl, rfl, fun _ hcontent => nomatch hcontent⟩
  | hit | fail | compile | keep | lose => exact ⟨rfl, rfl, fun _ hcontent => hcontent⟩

def Sound (call : Job) : Prop :=
  match call.phase with
  | .started | .unread _ | .read _ _ => True
  | .compiled content _ out =>
    Compiler.outcome (.ok out) = call.compiler.compiles call.source.path content
  | .returned content r => Compiler.outcome r = call.compiler.compiles call.source.path content

end Job

def Entry.From (calls : List Job) (e : Entry) : Prop :=
  ∃ call ∈ calls, ∃ content, call.phase.content? = some content ∧
    e.key = Entry.keyOf call.compiler.fingerprint content ∧
    call.compiler.compiles call.source.path content = .ok (e.code, e.stats)

theorem Entry.From.later {e : Entry} (h : e.From calls)
    (hlater : ∀ call ∈ calls, ∃ call' ∈ calls', call.Later call') : e.From calls' := by
  obtain ⟨call, hcall, content, hcontent, hkey, hout⟩ := h
  obtain ⟨call', hcall', hl⟩ := hlater call hcall
  refine ⟨call', hcall', content, hl.content content hcontent, ?_, ?_⟩
  · rw [hl.compiler, hkey]
  · rw [hl.compiler, hl.source, hout]

structure Sharing where
  files : Files
  store : Store
  calls : List Job

namespace Sharing

inductive Step : Sharing → Sharing → Prop
  | change (files : Files) : Step s { s with files }
  | call (src : SourceFile) (hc : c.Accepted) :
      Step s { s with calls := s.calls ++ [⟨c, src, .started⟩] }
  | goOn {s : Sharing} {call call' : Job} {before after : List Job} {store' : Store}
      (hcalls : s.calls = before ++ call :: after) (h : call.Step s.files s.store call' store') :
      Step s { s with store := store', calls := before ++ call' :: after }

variable {s s' : Sharing}

theorem Step.later (h : Step s s') : ∀ call ∈ s.calls, ∃ call' ∈ s'.calls, call.Later call' := by
  intro call hcall
  have hrefl : call.Later call := ⟨rfl, rfl, fun _ h => h⟩
  cases h with
  | change files => exact ⟨call, hcall, hrefl⟩
  | call src hc => exact ⟨call, mem_append_left _ hcall, hrefl⟩
  | goOn hcalls h =>
    rw [hcalls, mem_append, mem_cons] at hcall
    obtain hbefore | rfl | hafter := hcall
    · exact ⟨call, mem_append_left _ hbefore, hrefl⟩
    · exact ⟨_, mem_append_right _ mem_cons_self, h.later⟩
    · exact ⟨call, mem_append_right _ (.tail _ hafter), hrefl⟩

def Digested (s : Sharing) (t : Text) : Prop :=
  ∃ call ∈ s.calls, ∃ content, call.phase.content? = some content ∧
    call.compiler.keyText content = t

def CollisionFree (s : Sharing) : Prop := Set.InjOn Sha256.hex {t | s.Digested t}

theorem CollisionFree.before (h : s'.CollisionFree) (hs : Step s s') : s.CollisionFree := by
  apply Set.InjOn.mono _ h
  rintro t ⟨call, hcall, content, hcontent, rfl⟩
  obtain ⟨call', hcall', hl⟩ := hs.later call hcall
  exact ⟨call', hcall', content, hl.content content hcontent, by rw [hl.compiler]⟩

structure Sound (s : Sharing) : Prop where
  accepted : ∀ call ∈ s.calls, call.compiler.Accepted
  calls : ∀ call ∈ s.calls, call.Sound
  entries : ∀ e ∈ s.store.entries, e.From s.calls

theorem Sound.outcome_of_hit (h : s.Sound) (hfree : s.CollisionFree) {call : Job}
    (hcall : call ∈ s.calls) (hcontent : call.phase.content? = some content)
    (hhit : (call.compiler.lookup s.store src path
      (Entry.keyOf call.compiler.fingerprint content)).2 = some out) :
    Compiler.outcome (.ok out) = call.compiler.compiles call.source.path content := by
  obtain ⟨e, hget, hkey, hout⟩ := Compiler.lookup_some hhit
  obtain ⟨other, hother, content', hcontent', hkey', hcompiles⟩ :=
    h.entries e (Store.mem_of_get hget)
  have htext : other.compiler.keyText content' = call.compiler.keyText content :=
    hfree ⟨other, hother, content', hcontent', rfl⟩ ⟨call, hcall, content, hcontent, rfl⟩
      (hkey'.symm.trans hkey)
  obtain ⟨ho, rfl⟩ := Compiler.keyText_inj (h.accepted other hother).validate
    (h.accepted call hcall).validate htext
  rw [hout, Compiler.compiles_congr ho hcompiles]

theorem Sound.step_call (h : s.Sound) (hfree : s.CollisionFree) (hcall : call ∈ s.calls)
    (hs : call.Step s.files s.store call' store') :
    call'.Sound ∧ ∀ e ∈ store'.entries, e ∈ s.store.entries ∨ e.From [call'] := by
  have hsound := h.calls call hcall
  have hold : ∀ e ∈ s.store.entries, e ∈ s.store.entries ∨ e.From [call'] := fun _ he => .inl he
  cases hs with
  | unread | read => exact ⟨trivial, hold⟩
  | hit asked ha hhit =>
    refine ⟨?_, hold⟩
    obtain rfl | ⟨e, he⟩ := ha
    · have hout := h.outcome_of_hit hfree hcall rfl hhit
      exact hout
    · obtain ⟨e', hget, -⟩ := Compiler.lookup_some hhit
      cases he.symm.trans hget
  | fail asked ha hmiss he =>
    refine ⟨?_, hold⟩
    change _ = Compiler.outcome _
    rw [he]
  | compile asked ha hmiss hout =>
    refine ⟨?_, hold⟩
    change _ = Compiler.outcome _
    rw [hout]
    rfl
  | keep =>
    refine ⟨hsound, fun e he => ?_⟩
    obtain rfl | he := Store.mem_of_remember he
    · exact .inr ⟨_, mem_singleton_self _, _, rfl, rfl, hsound.symm⟩
    · exact .inl he
  | lose => exact ⟨hsound, hold⟩

theorem Sound.step (h : s.Sound) (hs : Step s s') (hfree : s'.CollisionFree) : s'.Sound := by
  have hbefore := hfree.before hs
  have hlater := hs.later
  cases hs with
  | change files => exact ⟨h.accepted, h.calls, h.entries⟩
  | call src hc =>
    refine ⟨?_, ?_, fun e he => (h.entries e he).later hlater⟩
    · exact forall_mem_append.2 ⟨h.accepted, forall_mem_singleton.2 hc⟩
    · exact forall_mem_append.2 ⟨h.calls, forall_mem_singleton.2 trivial⟩
  | @goOn call call' _ _ _ hcalls hs =>
    have hcall : call ∈ s.calls := by simp [hcalls]
    obtain ⟨hsound, hentries⟩ := h.step_call hbefore hcall hs
    have haccepted := h.accepted
    have hsounds := h.calls
    rw [hcalls] at haccepted hsounds
    simp only [forall_mem_append, forall_mem_cons] at haccepted hsounds
    refine ⟨?_, ?_, fun e he => ?_⟩
    · simp only [forall_mem_append, forall_mem_cons]
      exact ⟨haccepted.1, hs.later.compiler ▸ haccepted.2.1, haccepted.2.2⟩
    · simp only [forall_mem_append, forall_mem_cons]
      exact ⟨hsounds.1, hsound, hsounds.2.2⟩
    · obtain he | ⟨x, hx, hfrom⟩ := hentries e he
      · exact (h.entries e he).later hlater
      · rw [mem_singleton.1 hx] at hfrom
        exact ⟨call', by simp, hfrom⟩

def Fresh (s : Sharing) : Prop := s.calls = [] ∧ s.store.entries = []

theorem Fresh.sound (h : s.Fresh) : s.Sound := by
  obtain ⟨hcalls, hentries⟩ := h
  refine ⟨?_, ?_, ?_⟩ <;> simp [hcalls, hentries]

theorem sound_of_steps (h : s.Fresh) (hs : ReflTransGen Step s s') (hfree : s'.CollisionFree) :
    s'.Sound := by
  induction hs with
  | refl => exact h.sound
  | tail _ hstep ih => exact (ih (hfree.before hstep)).step hstep hfree

theorem compileFile_steps (hc : c.Accepted) (s : Sharing) (src : SourceFile) :
    ∃ call store, ReflTransGen Step s { s with store, calls := s.calls ++ [call] } ∧
      call.compiler = c ∧ call.source = src ∧
      call.phase.result? = some (c.compileFile s.files (some s.store) src).2.2 ∧
      (c.compileFile s.files (some s.store) src).1 = some store := by
  have hgo : ∀ {call call' : Job} {store store' : Store}, call.Step s.files store call' store' →
      Step { s with store, calls := s.calls ++ [call] }
        { s with store := store', calls := s.calls ++ [call'] } :=
    fun h => .goOn rfl h
  have hstart : ReflTransGen Step s { s with calls := s.calls ++ [⟨c, src, .started⟩] } :=
    .single (.call src hc)
  rw [Compiler.compileFile]
  cases hread : s.files.read src.path with
  | error e => exact ⟨_, _, hstart.tail (hgo (.unread hread)), rfl, rfl, rfl, rfl⟩
  | ok content =>
    have hstart := hstart.tail (hgo (.read hread))
    dsimp only
    cases hlookup : c.lookup s.store src (s.files.abs src.path)
        (Entry.keyOf c.fingerprint content) with
    | mk looked found =>
      cases found with
      | some out =>
        exact ⟨_, _, hstart.tail (hgo (.hit _ (.inl rfl) (by rw [hlookup]))), rfl, rfl, rfl, rfl⟩
      | none =>
        cases hcompile : c.compileSource src.path content with
        | mk log result =>
          cases result with
          | error e =>
            exact ⟨_, _, hstart.tail (hgo (.fail _ (.inl rfl) (by rw [hlookup])
              (by rw [hcompile]))), rfl, rfl, rfl, rfl⟩
          | ok out =>
            exact ⟨_, _, (hstart.tail (hgo (.compile _ (.inl rfl) (by rw [hlookup])
              (by rw [hcompile])))).tail (hgo .keep), rfl, rfl, rfl, rfl⟩

/-- Whatever the other calls do and wherever the store fails, a call returns what its own settings
make of the content it read. No call is ever stuck, and one that is not interrupted is
`compileFile`. -/
theorem calls_transparent {s₀ s : Sharing} (h₀ : s₀.Fresh) (hs : ReflTransGen Step s₀ s)
    (hfree : s.CollisionFree) :
    (∀ call ∈ s.calls, ∀ content result, call.phase = .returned content result →
      Compiler.outcome result = call.compiler.compiles call.source.path content) ∧
    (∀ call ∈ s.calls, call.phase.result? = none →
      ∃ call' store', call.Step s.files s.store call' store') ∧
    ∀ (c : Compiler) (src : SourceFile), c.Accepted →
      ∃ call store, ReflTransGen Step s { s with store, calls := s.calls ++ [call] } ∧
        call.compiler = c ∧ call.source = src ∧
        call.phase.result? = some (c.compileFile s.files (some s.store) src).2.2 ∧
        (c.compileFile s.files (some s.store) src).1 = some store := by
  refine ⟨?_, fun call _ => call.exists_step s.files s.store,
    fun c src hc => compileFile_steps hc s src⟩
  intro call hcall content result hphase
  have hsound := (sound_of_steps h₀ hs hfree).calls call hcall
  rw [Job.Sound, hphase] at hsound
  exact hsound

/-- Two calls for one file: the first finds the store failing, compiles and keeps its output while
the second one waits; the second one then returns what was kept. -/
theorem calls_transparent_hit : ∃ s₀ s : Sharing, s₀.Fresh ∧ ReflTransGen Step s₀ s ∧
    s.CollisionFree ∧ ∃ call ∈ s.calls, ∃ content out,
      call.phase = .returned content (.ok out) ∧ out.cached = true ∧
      Compiler.outcome (.ok out) = call.compiler.compiles call.source.path content := by
  let c : Compiler := ⟨.default, BuildSettings.withDefaults {}, {}⟩
  let src : SourceFile := ⟨"a.js", "a.js"⟩
  let content : Text := "ref: x = 0; x = 1;"
  let files : Files := ⟨.directory [("a.js", .file content)], []⟩
  let store : Store := { database := some { migrated := true } }
  let path := files.abs src.path
  let key := Entry.keyOf c.fingerprint content
  have hc : c.Accepted := ⟨.default, {}, {}, by decide⟩
  have hread : files.read src.path = .ok content := by rfl
  obtain ⟨out, hout⟩ : ∃ out, (c.compileSource src.path content).2 = .ok out := by
    have hsome : (c.compileSource src.path content).2.toOption.isSome = true := by decide +kernel
    cases hresult : (c.compileSource src.path content).2 with
    | error e =>
      rw [hresult] at hsome
      cases hsome
    | ok out => exact ⟨out, rfl⟩
  let out' : Output := { out with source := src }
  let kept : Store := (c.remember store path key out').2
  let found : Output := ⟨src, out'.code, out'.stats, none, true, c.clock.elapsed⟩
  have hhit : (c.lookup kept src path key).2 = some found := Store.lookup_of_remember rfl rfl src
  let s₀ : Sharing := ⟨files, store, []⟩
  let s : Sharing := ⟨files, kept,
    [⟨c, src, .returned content (.ok out')⟩, ⟨c, src, .returned content (.ok found)⟩]⟩
  have h₀ : s₀.Fresh := ⟨rfl, rfl⟩
  have hs : ReflTransGen Step s₀ s := by
    have h := ReflTransGen.single (Step.call (s := s₀) src hc)
    have h := h.tail (@Step.goOn _ _ _ [] _ _ rfl (.read hread))
    have h := h.tail (.call src hc)
    have h := h.tail (@Step.goOn _ _ _ [_] _ _ rfl (.read hread))
    have h := h.tail (@Step.goOn _ _ _ [] _ _ rfl (.compile .closed (.inr ⟨_, rfl⟩) rfl hout))
    have h := h.tail (@Step.goOn _ _ _ [] _ _ rfl .keep)
    exact h.tail (@Step.goOn _ _ _ [_] _ _ rfl (.hit kept (.inl rfl) hhit))
  have hfree : s.CollisionFree := by
    have hone : ∀ t, s.Digested t → t = c.keyText content := by
      rintro t ⟨call, hcall, content', hcontent, rfl⟩
      simp only [s, List.mem_cons, List.not_mem_nil, or_false] at hcall
      obtain rfl | rfl := hcall <;> cases hcontent <;> rfl
    exact fun a ha b hb _ => (hone a ha).trans (hone b hb).symm
  refine ⟨s₀, s, h₀, hs, hfree, _, .tail _ List.mem_cons_self, content, found, rfl, rfl, ?_⟩
  exact (calls_transparent h₀ hs hfree).1 _ (.tail _ List.mem_cons_self) _ _ rfl

end Sharing

end LabelHooks
