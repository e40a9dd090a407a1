import LabelHooks.Build.Watch
import LabelHooks.Proofs.Routes

/-!
Where the sources of a build are found, and where their outputs go.
-/

namespace LabelHooks
set_option autoImplicit true

open LabelHooks.Path (IsName spell kept isAbs slash Settled lead)

/-- Every name in the tree can be part of a path. -/
inductive FileTree.Named : FileTree → Prop
  | file : Named (.file content)
  | directory (hnames : ∀ e ∈ es, IsName e.1) (hsub : ∀ e ∈ es, Named e.2) : Named (.directory es)

theorem FileTree.Named.get? {t : FileTree} (h : t.Named) (hl : t.get? l = some u) : u.Named := by
  induction l generalizing t with
  | nil => exact Option.some.inj hl ▸ h
  | cons n l ih =>
    obtain ⟨v, hv, hrest⟩ := Option.bind_eq_some_iff.1 hl
    cases h with
    | file => cases hv
    | directory _ hsub =>
      obtain ⟨_, _, rfl, -⟩ := List.lookup_eq_some_iff.1 hv
      exact ih (hsub (n, v) (by simp)) hrest

namespace Files

theorem of_locate {f : Files} (h : f.locate p = .ok l) :
    p ≠ [] ∧ ∃ a, follow f.tree a (Text.splitOn slash p) = .ok l := by
  rw [locate] at h
  split at h
  · cases h
  · split at h
    · cases h
    · next hp =>
      split at h
      · cases h
      · exact ⟨by simpa using hp, _, h⟩

theorem of_find {f : Files} (h : f.find p = .ok t) :
    ∃ l, f.locate p = .ok l ∧ f.tree.get? l = some t := by
  rw [find] at h
  split at h
  · cases h
  · next l hl =>
    split at h
    · cases h
    · next hget =>
      cases h
      exact ⟨l, hl, hget⟩

theorem of_stat {f : Files} (h : f.stat p = .ok t) : f.find p = .ok t := by
  cases hfind : f.find p <;> simp_all [stat, Except.mapError]

/-- Without a name a path stays at a directory. -/
theorem follow_empty (h : follow T a xs = .ok l) (hxs : ∀ x ∈ xs, x = []) (hne : xs ≠ []) :
    ∃ es, T.get? l = some (.directory es) := by
  induction xs with
  | nil => exact absurd rfl hne
  | cons x xs ih =>
    rw [List.forall_mem_cons] at hxs
    rw [follow] at h
    split at h
    · cases h
    · cases h
    · next es hes =>
      rw [if_pos (by simp [hxs.1])] at h
      obtain rfl | hne := eq_or_ne xs []
      · cases h
        exact ⟨es, hes⟩
      · exact ih h hxs.2 hne

/-- The base of the path of a file is one part. -/
theorem slash_notMem_base {f : Files} (h : f.find p = .ok (.file content)) :
    slash ∉ Path.base p := by
  have hlast : ∀ t, slash ∉ Path.lastPart t := by
    intro t hmem
    have := List.all_eq_true.1 List.all_takeWhile _ (List.mem_reverse.1 hmem)
    simp at this
  obtain ⟨l, hl, hget⟩ := of_find h
  obtain ⟨hne, a, hfollow⟩ := of_locate hl
  rw [Path.base, if_neg (by simpa using hne)]
  dsimp only
  split
  · next htrim =>
    have hall : ∀ b ∈ p, b = slash := by
      have := List.takeWhile_append_dropWhile (p := (· = slash)) (l := p.reverse)
      simp only [List.isEmpty_iff, Text.trimRight, List.reverse_eq_nil_iff] at htrim
      rw [htrim, List.append_nil] at this
      intro b hb
      rw [← List.mem_reverse, ← this] at hb
      simpa using List.all_eq_true.1 List.all_takeWhile _ hb
    have hempty : ∀ x ∈ Text.splitOn slash p, x = [] := by
      intro x hx
      refine List.eq_nil_iff_forall_not_mem.2 fun b hb => ?_
      obtain ⟨hmem, hb⟩ := Text.mem_of_mem_splitOn hx hb
      exact hb (hall b hmem)
    obtain ⟨es, hes⟩ := follow_empty hfollow hempty (Text.splitOn_ne_nil _ _)
    simp [hes] at hget
  · exact hlast _

end Files

namespace Compiler

variable {c : Compiler} {s : SourceFile}

theorem of_mem_sourcesIn (hs : s ∈ c.sourcesIn root path es) :
    ∃ e ∈ es, s ∈ c.sourcesAt root (Path.join [path, e.1]) e.2 := by
  induction es with
  | nil => cases hs
  | cons e es ih =>
    rw [sourcesIn, List.mem_append] at hs
    obtain hs | hs := hs
    · split at hs
      · cases hs
      · exact ⟨e, List.mem_cons_self, hs⟩
    · obtain ⟨e, he, hs⟩ := ih hs
      exact ⟨e, .tail _ he, hs⟩

theorem join_name (hp : p ≠ []) (hn : IsName n) :
    Path.join [p, n] = spell (isAbs p) (kept p ++ [n]) :=
  Path.join_eq hp (List.cons_ne_nil n []) (List.forall_mem_singleton.2 hn)

/-- A source below a settled path, with the names that lead to it. -/
theorem of_mem_sourcesAt (h : t.Named) (hk : Settled r ks)
    (hs : s ∈ c.sourcesAt root (spell r ks) t) : ∃ ns, (∀ n ∈ ns, IsName n) ∧
      s.path = spell r (ks ++ ns) ∧ s.rel = (Path.rel? root s.path).getD s.path := by
  induction h generalizing ks with
  | file =>
    rw [sourcesAt] at hs
    split at hs
    · obtain rfl := List.mem_singleton.1 hs
      exact ⟨[], by simp, by simp, rfl⟩
    · cases hs
  | directory hnames _ ih =>
    rw [sourcesAt] at hs
    obtain ⟨e, he, hs⟩ := of_mem_sourcesIn hs
    have hn := List.forall_mem_singleton.2 (hnames e he)
    rw [join_name (Path.spell_ne_nil hk) (hnames e he), Path.isAbs_spell hk,
      Path.kept_spell hk] at hs
    obtain ⟨ns, hns, hpath, hrel⟩ := ih e he (hk.append hn) hs
    exact ⟨e.1 :: ns, List.forall_mem_cons.2 ⟨hnames e he, hns⟩, by simpa using hpath, hrel⟩

theorem below_of_mem_sourcesIn (h : (FileTree.directory es).Named) (hp : p ≠ [])
    (hs : s ∈ c.sourcesIn p p es) : ∃ ns, ns ≠ [] ∧ (∀ n ∈ ns, IsName n) ∧
      s.path = spell (isAbs p) (kept p ++ ns) ∧ s.rel = Text.join [slash] ns := by
  obtain ⟨e, he, hs⟩ := of_mem_sourcesIn hs
  cases h with
  | directory hnames hsub =>
    have hn := List.forall_mem_singleton.2 (hnames e he)
    rw [join_name hp (hnames e he)] at hs
    obtain ⟨ns, hns, hpath, hrel⟩ :=
      of_mem_sourcesAt (hsub e he) ((Path.settled_kept p).append hn) hs
    have hall : ∀ n ∈ e.1 :: ns, IsName n := List.forall_mem_cons.2 ⟨hnames e he, hns⟩
    have hsettled := (Path.settled_kept p).append hall
    have hpath : s.path = spell (isAbs p) (kept p ++ e.1 :: ns) := by simpa using hpath
    refine ⟨e.1 :: ns, List.cons_ne_nil _ _, hall, hpath, ?_⟩
    rw [hrel, Path.rel?_of_append _ _ (List.cons_ne_nil e.1 ns)]
    · rfl
    · rw [hpath, Path.isAbs_spell hsettled]
    · rw [hpath, Path.kept_spell hsettled]

/-- A source that discovery lists for one of the paths. -/
inductive Lists (c : Compiler) (f : Files) (p : Text) : SourceFile → Prop
  | file (h : f.stat p = .ok (.file content)) : Lists c f p ⟨p, Path.base p⟩
  | below (h : f.stat p = .ok (.directory es)) (hs : src ∈ c.sourcesIn p p es) :
      Lists c f p src

theorem of_mem_discover {f : Files} (h : c.discover f paths = .ok sources) (hs : s ∈ sources) :
    ∃ p ∈ paths, Lists c f p s := by
  induction paths generalizing sources with
  | nil =>
    cases h
    cases hs
  | cons p paths ih =>
    rw [discover] at h
    split at h
    · cases h
    · next found hfound =>
      cases hrest : c.discover f paths with
      | error e =>
        rw [hrest] at h
        cases h
      | ok rest =>
        rw [hrest] at h
        cases h
        obtain hs | hs := List.mem_append.1 hs
        · refine ⟨p, List.mem_cons_self, ?_⟩
          rw [discoverOne] at hfound
          split at hfound
          · cases hfound
          · next hstat =>
            cases hfound
            exact List.mem_singleton.1 hs ▸ .file hstat
          · next hstat =>
            cases hfound
            exact .below hstat hs
        · obtain ⟨q, hq, hs⟩ := ih hrest hs
          exact ⟨q, .tail _ hq, hs⟩

def stem (rel : Text) : Text := rel.take (rel.length - (Path.ext rel).length)

theorem length_ext_le (h : slash ∉ n) : (Path.ext n).length ≤ n.length := by
  rw [Path.ext, show Path.lastPart n = n from Path.lastPart_lead [] h]
  split
  · next hdot =>
    have hstart := List.takeWhile_prefix (l := n.reverse) (· ≠ byte '.')
    have hne : (n.reverse.takeWhile (· ≠ byte '.')).length ≠ n.reverse.length := by
      intro heq
      have hmem := hstart.eq_of_length heq ▸ List.contains_iff_mem.1 hdot
      simpa using List.all_eq_true.1 List.all_takeWhile _ hmem
    have hlt := Nat.lt_of_le_of_ne hstart.length_le hne
    simpa [Nat.succ_le_iff] using hlt
  · exact Nat.zero_le _

theorem stem_lead (init : List Text) (h : slash ∉ n) :
    stem (lead init ++ n) = lead init ++ stem n := by
  have hext : Path.ext (lead init ++ n) = Path.ext n := by
    rw [Path.ext, Path.lastPart_lead init h, Path.ext, show Path.lastPart n = n from
      Path.lastPart_lead [] h]
  have hle := length_ext_le h
  rw [stem, stem, hext, List.length_append, Nat.add_sub_assoc hle, List.take_length_add_append]

/-- The names below the output directory under which a source is written. -/
theorem outputPath_names (hout : c.build.outDir ≠ []) (hinit : ∀ m ∈ init, IsName m)
    (hn : slash ∉ n) (hrel : s.rel = lead init ++ n) : ∃ ms : List Text,
      ms ≠ [] ∧ (∀ m ∈ ms, IsName m) ∧ stem s.rel ++ BuildSettings.outExt = Text.join [slash] ms ∧
      c.outputPath s = spell (isAbs c.build.outDir) (kept c.build.outDir ++ ms) := by
  have hlast : IsName (stem n ++ BuildSettings.outExt) := by
    have hlong : 3 ≤ (stem n ++ BuildSettings.outExt).length := by
      rw [List.length_append]
      exact Nat.le_add_left 3 _
    have hshort : ∀ t : Text, t.length < 3 → stem n ++ BuildSettings.outExt ≠ t := by
      rintro _ ht rfl
      omega
    refine ⟨⟨hshort _ (by decide), ?_, hshort _ (by decide)⟩, hshort _ (by decide)⟩
    rw [List.mem_append, not_or]
    exact ⟨fun hmem => hn (List.mem_of_mem_take hmem), by decide⟩
  have hms : ∀ m ∈ init ++ [stem n ++ BuildSettings.outExt], IsName m :=
    List.forall_mem_append.2 ⟨hinit, List.forall_mem_singleton.2 hlast⟩
  have hstem : stem s.rel ++ BuildSettings.outExt =
      Text.join [slash] (init ++ [stem n ++ BuildSettings.outExt]) := by
    rw [hrel, Path.join_concat, stem_lead init hn, List.append_assoc]
  refine ⟨_, List.append_ne_nil_of_right_ne_nil _ (List.cons_ne_nil _ []), hms, hstem, ?_⟩
  rw [outputPath, ← Path.join_eq hout (by simp) hms, ← hstem]
  rfl

/-- The relative path of every source is a text of names, up to its last part. -/
theorem Lists.names {f : Files} (hf : f.tree.Named) (h : Lists c f p s) :
    ∃ init n, (∀ m ∈ init, IsName m) ∧ slash ∉ n ∧ s.rel = lead init ++ n := by
  cases h with
  | file h => exact ⟨[], _, by simp, Files.slash_notMem_base (Files.of_stat h), rfl⟩
  | below h hs =>
    obtain ⟨l, hl, hget⟩ := Files.of_find (Files.of_stat h)
    obtain ⟨ns, hne, hns, -, hrel⟩ :=
      below_of_mem_sourcesIn (hf.get? hget) (Files.of_locate hl).1 hs
    obtain ⟨init, n, rfl⟩ := (List.eq_nil_or_concat ns).resolve_left hne
    rw [List.concat_eq_append, List.forall_mem_append, List.forall_mem_singleton] at hns
    exact ⟨init, n, hns.1, hns.2.slash, by rw [hrel, List.concat_eq_append, Path.join_concat]⟩

theorem outputPath_inj (hout : c.build.outDir ≠ []) {f : Files} (hf : f.tree.Named)
    (hs : Lists c f p s) (ht : Lists c f q t) :
    c.outputPath s = c.outputPath t ↔ stem s.rel = stem t.rel := by
  obtain ⟨init, n, hinit, hn, hrel⟩ := hs.names hf
  obtain ⟨init', n', hinit', hn', hrel'⟩ := ht.names hf
  obtain ⟨ms, hne, hms, hstem, hpath⟩ := outputPath_names hout hinit hn hrel
  obtain ⟨ms', hne', hms', hstem', hpath'⟩ := outputPath_names hout hinit' hn' hrel'
  have hsettled := Path.settled_kept c.build.outDir
  calc c.outputPath s = c.outputPath t
    _ ↔ ms = ms' := by
      rw [hpath, hpath']
      refine ⟨fun heq => ?_, fun heq => by rw [heq]⟩
      have := Path.kept_spell (hsettled.append hms)
      rw [heq, Path.kept_spell (hsettled.append hms')] at this
      exact (List.append_cancel_left this).symm
    _ ↔ Text.join [slash] ms = Text.join [slash] ms' := by
      refine ⟨fun heq => by rw [heq], fun heq => ?_⟩
      rw [← Text.splitOn_join hne fun m hm => (hms m hm).slash, heq,
        Text.splitOn_join hne' fun m hm => (hms' m hm).slash]
    _ ↔ stem s.rel = stem t.rel := by rw [← hstem, ← hstem', List.append_left_inj]

theorem of_write {f : Files} {o : Output} (h : (c.write f o).1 = .ok path) :
    c.build.outDir ≠ [] ∧ path = c.outputPath o.source := by
  rw [write] at h
  split at h
  · cases h
  · next hout =>
    refine ⟨by simpa using hout, ?_⟩
    dsimp only at h
    repeat' split at h
    all_goals cases h
    rfl

/-- Where a source was found: it is one of the paths, or lies below one of them as its relative path
says. -/
def Placed (f : Files) (paths : List Text) (s : SourceFile) : Prop := ∃ p ∈ paths,
  (∃ content, f.stat p = .ok (.file content) ∧ s = ⟨p, Path.base p⟩) ∨
    ∃ es, f.stat p = .ok (.directory es) ∧ s.path = Path.join [p, s.rel]

/-- Two sources are written to one path just if their relative paths differ in nothing but their
extensions. -/
theorem write_apart {f : Files} (hf : f.tree.Named) {paths : List Text} {sources : List SourceFile}
    (h : c.discover f paths = .ok sources) :
    (∀ s ∈ sources, Placed f paths s) ∧
      ∀ (o o' : Output) (g g' : Files) (a b : Text), o.source ∈ sources → o'.source ∈ sources →
        (c.write g o).1 = .ok a → (c.write g' o').1 = .ok b →
        (a = b ↔ stem o.source.rel = stem o'.source.rel) := by
  refine ⟨fun s hs => ?_, ?_⟩
  · obtain ⟨p, hp, hlists⟩ := of_mem_discover h hs
    refine ⟨p, hp, ?_⟩
    cases hlists with
    | file hstat => exact .inl ⟨_, hstat, rfl⟩
    | below hstat hs =>
      obtain ⟨l, hl, hget⟩ := Files.of_find (Files.of_stat hstat)
      have hp := (Files.of_locate hl).1
      obtain ⟨ns, hne, hns, hpath, hrel⟩ := below_of_mem_sourcesIn (hf.get? hget) hp hs
      exact .inr ⟨_, hstat, by rw [hpath, hrel, Path.join_eq hp hne hns]⟩
  · intro o o' g g' a b ho ho' ha hb
    obtain ⟨p, -, hs⟩ := of_mem_discover h ho
    obtain ⟨q, -, ht⟩ := of_mem_discover h ho'
    obtain ⟨hout, rfl⟩ := of_write ha
    obtain ⟨-, rfl⟩ := of_write hb
    exact outputPath_inj hout hf hs ht

/-- A compiler that writes below `out`. -/
def toOut : Compiler where
  options := .default
  build := { outDir := "out", extensions := BuildSettings.defaultExtensions }

/-- What is written for a source that holds the code already. -/
def plain (s : SourceFile) (code : Text) : Output := ⟨s, code, ⟨0, 0, 0, 0, 0⟩, none, false, 0⟩

theorem write_apart_dotted :
    let f : Files :=
      ⟨.directory [("a.b.ts", .file "x"), ("d", .directory [("a.ts", .file "y")])], []⟩
    let sources : List SourceFile :=
      [⟨"d/a.ts", "a.ts"⟩, ⟨"a.b.ts", "a.b.ts"⟩, ⟨"d/a.ts", "d/a.ts"⟩]
    toOut.discover f ["d", "."] = .ok sources ∧ ∀ (g g' : Files) (a b : Text),
      (toOut.write g (plain ⟨"d/a.ts", "a.ts"⟩ "x")).1 = .ok a →
        (toOut.write g' (plain ⟨"a.b.ts", "a.b.ts"⟩ "y")).1 = .ok b → a ≠ b := by
  intro f sources
  have hnames : ∀ n ∈ ([("a.b.ts" : Text), "d", "a.ts"] : List Text), IsName n := by decide
  have hf : f.tree.Named := by
    have hinner : (FileTree.directory [("a.ts", .file "y")]).Named :=
      .directory (by simp [hnames]) (by simp [FileTree.Named.file])
    exact .directory (by simp [hnames]) (by simp [FileTree.Named.file, hinner])
  have hfound : toOut.discover f ["d", "."] = .ok sources := by decide +kernel
  refine ⟨hfound, fun g g' a b ha hb heq => ?_⟩
  have hstem := ((write_apart hf hfound).2 _ _ g g' a b (by decide) (by decide) ha hb).1 heq
  exact absurd hstem (by decide +kernel)

/-- Sources that differ in their extensions are written over one another. -/
theorem write_over :
    let f : Files := ⟨.directory [("a.js", .file "x"), ("a.mjs", .file "y")], []⟩
    let s : SourceFile := ⟨"a.js", "a.js"⟩
    let t : SourceFile := ⟨"a.mjs", "a.mjs"⟩
    let written := toOut.write f (plain s "x")
    let again := toOut.write written.2 (plain t "y")
    toOut.discover f ["."] = .ok [s, t] ∧ written.1 = .ok "out/a.js" ∧ again.1 = .ok "out/a.js" ∧
      again.2.read "out/a.js" = .ok "y" := by
  decide +kernel

end Compiler

/-- A file in a directory that discovery skips is taken for a source once another file in it is
watched by name. -/
theorem Watch.source?_skipped :
    let paths : List Text := [".", "node_modules/f.js"]
    let named : Text × FileTree := ("f.js", .file "x")
    let other : Text × FileTree := ("g.js", .file "y")
    let before : Files := ⟨.directory [("node_modules", .directory [named])], []⟩
    let after : Files := ⟨.directory [("node_modules", .directory [named, other])], []⟩
    let s : SourceFile := ⟨"node_modules/g.js", "node_modules/g.js"⟩
    ∃ w, (start .toOut before paths).2 = .ok w ∧ ⟨["node_modules"], "node_modules"⟩ ∈ w.dirs ∧
      w.source? "node_modules/g.js" = some s ∧ w.changed before after = [s] ∧
      Compiler.toOut.discover after paths = .ok [⟨"node_modules/f.js", "f.js"⟩] := by
  intro paths named other before after s
  exact ⟨⟨.toOut, ["."], ["node_modules/f.js"], [⟨[], "."⟩, ⟨["node_modules"], "node_modules"⟩]⟩,
    by decide +kernel⟩

end LabelHooks
