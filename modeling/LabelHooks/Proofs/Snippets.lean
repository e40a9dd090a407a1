import LabelHooks.Command.Run
import Mathlib.Tactic.Common

/-!
How a session cuts its lines into snippets: a run of lines is one snippet, up to a blank line, a
line that ends in two semicolons, or the end of the lines. Each snippet is answered alone.
-/

namespace LabelHooks
set_option autoImplicit true

namespace Text

/-- A byte of ASCII starts a chunk wherever it stands, and the chunks before it end there. -/
theorem rune_append {b : UInt8} (hb : b < 0x80) (a : UInt8) (x y : Text) :
    rune (a :: (x ++ b :: y)) = rune (a :: x) ∧ (rune (a :: x)).size ≤ x.length + 1 := by
  have hstop : isContinuation b = false := by
    have := UInt8.lt_iff_toNat_lt.1 hb
    simp only [isContinuation, Bool.and_eq_false_iff, decide_eq_false_iff_not]
    exact .inl fun h => absurd (UInt8.le_iff_toNat_le.1 h) (by simpa using this)
  obtain _ | ⟨c, _ | ⟨d, _ | ⟨e, x⟩⟩⟩ := x
  all_goals
    simp only [rune, List.nil_append, List.cons_append, hstop]
    constructor
  all_goals
    repeat' split
    all_goals simp_all [Rune.invalid]

theorem chunks_append {b : UInt8} (hb : b < 0x80) (x y : Text) :
    chunks (x ++ b :: y) = chunks x ++ (⟨b.toNat, 1⟩, [b]) :: chunks y := by
  suffices h : ∀ skip ≤ x.length, chunksFrom skip (x ++ b :: y) =
      chunksFrom skip x ++ (⟨b.toNat, 1⟩, [b]) :: chunks y from h 0 (Nat.zero_le _)
  induction x with
  | nil =>
    intro skip hskip
    obtain rfl := Nat.le_zero.1 hskip
    simp [chunksFrom, chunks, rune, hb]
  | cons a x ih =>
    intro skip hskip
    cases skip with
    | succ skip => exact ih skip (Nat.le_of_succ_le_succ hskip)
    | zero =>
      obtain ⟨hrune, hsize⟩ := rune_append hb a x y
      have hrest := ih ((rune (a :: x)).size - 1) (by omega)
      have htake : (a :: (x ++ b :: y)).take (rune (a :: x)).size =
          (a :: x).take (rune (a :: x)).size :=
        @List.take_append_of_le_length _ (a :: x) _ _ hsize
      simp only [List.cons_append, chunksFrom, hrune, hrest, htake]

def White (t : Text) : Prop := ∀ c ∈ t.chunks, isBlank c.1.code = true

theorem White.notMem {t : Text} (h : White t) {b : UInt8} (hb : b < 0x80)
    (hblank : isBlank b.toNat = false) : b ∉ t := by
  intro hmem
  obtain ⟨x, y, rfl⟩ := List.append_of_mem hmem
  have := h (⟨b.toNat, 1⟩, [b]) (by simp [chunks_append hb])
  simp [hblank] at this

end Text

namespace Repl

abbrev IsBlank (line : Text) : Prop := Text.trim line = []

abbrev IsCommand (line : Text) : Prop := Text.hasPrefix "." (Text.trim line) = true

abbrev IsClosing (line : Text) : Prop := Text.hasSuffix terminator (Text.trim line) = true

/-- Lines of one snippet that is not ended yet. -/
structure Open (run : List Text) : Prop where
  going : ∀ line ∈ run, ¬ IsBlank line ∧ ¬ IsClosing line
  first : ∀ line, run.head? = some line → ¬ IsCommand line

theorem Open.nil : Open [] := ⟨by simp, by simp⟩

def source (run : List Text) : Text := run.flatMap lineOf

/-- Lines and what is read from them. The run of lines of a snippet is as long as can be, since no
line in it could end it. -/
inductive Cut : List Text → List Event → Prop
  | quit (hl : IsCommand l) (hq : isQuit (commandWord (Text.trim l)) = true) : Cut (l :: rest) []
  | command (hl : IsCommand l) (hq : isQuit (commandWord (Text.trim l)) = false)
      (hrest : Cut rest es) : Cut (l :: rest) (.command (commandWord (Text.trim l)) :: es)
  | ended (hrun : Open run) : Cut run (flush (source run))
  | blank (hrun : Open run) (hl : IsBlank l) (hrest : Cut rest es) :
      Cut (run ++ l :: rest) (flush (source run) ++ es)
  | closed (hrun : Open run) (hl : IsClosing (body ++ terminator ++ ws)) (hws : Text.White ws)
      (hc : run = [] → ¬ IsCommand (body ++ terminator ++ ws)) (hrest : Cut rest es) :
      Cut (run ++ (body ++ terminator ++ ws) :: rest) (flush (source (run ++ [body])) ++ es)

theorem eventsFrom_blank (h : IsBlank l) (pending : Text) (rest : List Text) :
    eventsFrom pending (l :: rest) = flush pending ++ eventsFrom [] rest := by
  have hc : Text.hasPrefix "." [] = false := by decide
  simp [eventsFrom, h, hc]

theorem eventsFrom_going (hl : ¬ IsBlank l ∧ ¬ IsClosing l) (hc : pending = [] → ¬ IsCommand l)
    (rest : List Text) :
    eventsFrom pending (l :: rest) = eventsFrom (pending ++ lineOf l) rest := by
  simp only [eventsFrom]
  rw [if_neg (by simpa using hc), if_neg (by simpa using hl.1), if_neg hl.2]

theorem eventsFrom_closing (hl : IsClosing l) (hc : pending = [] → ¬ IsCommand l)
    (rest : List Text) : eventsFrom pending (l :: rest) =
      flush (pending ++ lineOf (withoutTerminator l)) ++ eventsFrom [] rest := by
  have hblank : ¬ IsBlank l := by
    intro h
    rw [IsClosing, h] at hl
    exact absurd hl (by decide)
  simp only [eventsFrom]
  rw [if_neg (by simpa using hc), if_neg (by simpa using hblank), if_pos hl]

/-- An open run of lines is only collected. -/
theorem eventsFrom_append (hrun : ∀ l ∈ run, ¬ IsBlank l ∧ ¬ IsClosing l)
    (hfirst : pending = [] → ∀ l, run.head? = some l → ¬ IsCommand l) (rest : List Text) :
    eventsFrom pending (run ++ rest) = eventsFrom (pending ++ source run) rest := by
  induction run generalizing pending with
  | nil => simp [source]
  | cons l run ih =>
    rw [List.forall_mem_cons] at hrun
    rw [List.cons_append, eventsFrom_going hrun.1 fun hp => hfirst hp l rfl,
      ih hrun.2 fun hp => by simp [lineOf] at hp]
    simp [source]

theorem Open.eventsFrom (h : Open run) (rest : List Text) :
    Repl.eventsFrom [] (run ++ rest) = Repl.eventsFrom (source run) rest :=
  eventsFrom_append h.going (fun _ => h.first) rest

theorem source_eq_nil (h : source run = []) : run = [] := by
  cases run with
  | nil => rfl
  | cons l run => simp [source, lineOf] at h

def isPad (b : UInt8) : Bool := b = byte ' ' || b = byte '\t'

/-- A line that ends a snippet has nothing but spaces and tabs after the two semicolons. -/
def Tidy (line : Text) : Prop :=
  IsClosing line → ∃ body pad, line = body ++ terminator ++ pad ∧ ∀ b ∈ pad, isPad b = true

theorem terminator_eq : terminator = [byte ';', byte ';'] := rfl

theorem withoutTerminator_padded (body : Text) (h : ∀ b ∈ pad, isPad b = true) :
    withoutTerminator (body ++ terminator ++ pad) = body := by
  have hstop : isPad (byte ';') = false := by decide
  have htrim : Text.trimRight isPad (body ++ terminator ++ pad) = body ++ terminator := by
    rw [Text.trimRight, List.reverse_append, List.dropWhile_append_of_pos (by simpa using h)]
    simp [terminator_eq, hstop]
  calc withoutTerminator (body ++ terminator ++ pad)
    _ = Text.dropSuffix terminator (Text.trimRight isPad (body ++ terminator ++ pad)) := rfl
    _ = body := by rw [htrim]; simp [Text.dropSuffix, Text.hasSuffix]

theorem pad_unique (hpad : ∀ b ∈ pad, isPad b = true) (hws : Text.White ws)
    (h : body ++ terminator ++ ws = body' ++ terminator ++ pad) : ws = pad := by
  have hlast : ∀ {u v : Text}, byte ';' ∉ v →
      (u ++ terminator ++ v).reverse.takeWhile (· ≠ byte ';') = v.reverse := by
    intro u v hv
    rw [List.reverse_append, List.takeWhile_append_of_pos (by grind)]
    simp [terminator_eq]
  have hsemi : byte ';' ∉ pad := fun hmem => absurd (hpad _ hmem) (by decide)
  rw [← List.reverse_inj, ← hlast (hws.notMem (by decide) (by decide)), h, hlast hsemi]

theorem white_of_pad (h : ∀ b ∈ pad, isPad b = true) : Text.White pad := by
  induction pad with
  | nil => exact fun c hc => absurd hc List.not_mem_nil
  | cons b pad ih =>
    rw [List.forall_mem_cons] at h
    have hb : b < 0x80 ∧ Text.isBlank b.toNat = true := by
      obtain h | h := Bool.or_eq_true_iff.1 h.1 <;> rw [of_decide_eq_true h] <;> decide
    have hchunks := Text.chunks_append hb.1 [] pad
    rw [Text.White, show Text.chunks (b :: pad) = _ from hchunks]
    exact List.forall_mem_cons.2 ⟨hb.2, ih h.2⟩

theorem cut_eventsFrom (hrun : Open run) (h : ∀ l ∈ ls, Tidy l) :
    Cut (run ++ ls) (eventsFrom (source run) ls) := by
  induction ls generalizing run with
  | nil => simpa [eventsFrom] using Cut.ended hrun
  | cons l ls ih =>
    rw [List.forall_mem_cons] at h
    have hrest : Cut ls (eventsFrom [] ls) := ih .nil h.2
    by_cases hc : run = [] ∧ IsCommand l
    · obtain ⟨rfl, hc⟩ := hc
      cases hq : isQuit (commandWord (Text.trim l)) with
      | true => simpa [eventsFrom, source, hc, hq] using Cut.quit hc hq
      | false => simpa [eventsFrom, source, hc, hq] using Cut.command hc hq hrest
    · have hc : source run = [] → ¬ IsCommand l := fun hs hl => hc ⟨source_eq_nil hs, hl⟩
      by_cases hblank : IsBlank l
      · rw [eventsFrom_blank hblank]
        exact .blank hrun hblank hrest
      by_cases hclose : IsClosing l
      · obtain ⟨body, pad, rfl, hpad⟩ := h.1 hclose
        rw [eventsFrom_closing hclose hc, withoutTerminator_padded body hpad]
        have := Cut.closed hrun hclose (white_of_pad hpad)
          (fun hrun => hc (by rw [hrun]; rfl)) hrest
        simpa [source] using this
      · have hopen : Open (run ++ [l]) := by
          refine ⟨List.forall_mem_append.2 ⟨hrun.going, ?_⟩, ?_⟩
          · exact List.forall_mem_singleton.2 ⟨hblank, hclose⟩
          · cases run with
            | nil => simpa using hc rfl
            | cons first run => exact hrun.first
        have := ih hopen h.2
        rw [eventsFrom_going ⟨hblank, hclose⟩ hc]
        simpa [source] using this

theorem eq_eventsFrom_of_cut (hcut : Cut ls es) (h : ∀ l ∈ ls, Tidy l) :
    es = eventsFrom [] ls := by
  induction hcut with
  | quit hl hq => simp [eventsFrom, hl, hq]
  | command hl hq _ ih => simp [eventsFrom, hl, hq, ih (List.forall_mem_cons.1 h).2]
  | @ended run hrun =>
    have := hrun.eventsFrom []
    rw [List.append_nil] at this
    rw [this]
    rfl
  | blank hrun hl _ ih =>
    have hrest := (List.forall_mem_append.1 h).2
    rw [hrun.eventsFrom, eventsFrom_blank hl, ih (List.forall_mem_cons.1 hrest).2]
  | closed hrun hl hws hc _ ih =>
    have hrest := List.forall_mem_cons.1 (List.forall_mem_append.1 h).2
    obtain ⟨body', pad, heq, hpad⟩ := hrest.1 hl
    obtain rfl := pad_unique hpad hws heq
    rw [hrun.eventsFrom, eventsFrom_closing hl fun hs => hc (source_eq_nil hs),
      withoutTerminator_padded _ hpad, ih hrest.2]
    simp [source]

/-- What an answer adds to what has been printed, on both streams. -/
def told (verbose : Option Bool) (r : Response) : Text × Text :=
  let after := (Command.say verbose r { files := ⟨.empty, []⟩ }).2
  (after.out, after.err)

theorem say_eq (verbose : Option Bool) {r : Response} (h : r.crashed = false) (s : Stage) :
    Command.say verbose r s = (.ok (), { s with
      out := s.out ++ (told verbose r).1
      err := s.err ++ (told verbose r).2 }) := by
  have hrun : ∀ s : Stage, Command.say verbose r s = (.ok (), { s with
      out := s.out ++ r.out
      err := s.err ++ (Session.log verbose r.log { files := ⟨.empty, []⟩ }).2.err ++ r.err }) := by
    intro s
    simp only [Command.say, h]
    rfl
  simp [told, hrun]

/-- Each answer adds to the streams what it would print alone. -/
theorem forM_say {es : List Event} {f : Event → Response} (h : ∀ e ∈ es, (f e).crashed = false)
    (verbose : Option Bool) (s : Stage) :
    (es.forM fun e => Command.say verbose (f e)) s = (.ok (), { s with
      out := s.out ++ es.flatMap fun e => (told verbose (f e)).1
      err := s.err ++ es.flatMap fun e => (told verbose (f e)).2 }) := by
  induction es generalizing s with
  | nil => simp; rfl
  | cons e es ih =>
    rw [List.forall_mem_cons] at h
    simp only [List.forM, bind, ExceptT.bind, ExceptT.mk, StateT.bind, say_eq verbose h.1 s]
    simp only [ExceptT.bindCont]
    rw [ih h.2]
    simp

/-- Lines are cut in the one way that there is, and what a snippet prints, an error or not, is
what it prints alone. -/
theorem session_cut {ls : List Text} (h : ∀ l ∈ ls, Tidy l) :
    (∀ es, Cut ls es ↔ es = eventsFrom [] ls) ∧
      ∀ (config : Config) (compiler : Compiler) (file : Text) (verbose : Option Bool) (s : Stage),
        (∀ e ∈ eventsFrom [] ls, (respond config compiler file e).crashed = false) →
        ((eventsFrom [] ls).forM fun e => Command.say verbose (respond config compiler file e)) s =
          (.ok (), { s with
            out := s.out ++ (eventsFrom [] ls).flatMap fun e =>
              (told verbose (respond config compiler file e)).1
            err := s.err ++ (eventsFrom [] ls).flatMap fun e =>
              (told verbose (respond config compiler file e)).2 }) := by
  refine ⟨fun es => ⟨fun hcut => eq_eventsFrom_of_cut hcut h, ?_⟩, ?_⟩
  · rintro rfl
    exact cut_eventsFrom .nil h
  · intro config compiler file verbose s hes
    exact forM_say hes verbose s

theorem tidy_of_one {ls : List Text} {k : Text} (hk : Tidy k)
    (h : ∀ l ∈ ls, l ≠ k → ¬ IsClosing l) : ∀ l ∈ ls, Tidy l := by
  intro l hl
  by_cases heq : l = k
  · exact heq ▸ hk
  · exact fun hclose => absurd hclose (h l hl heq)

/-- A snippet with an error and an unknown command stand before a snippet that is compiled. -/
theorem session_cut_mixed :
    let config : Config := ⟨.default, {}, false, [], [], []⟩
    let compiler : Compiler := { options := .default, build := {} }
    let errors : Text := ("Error: repl: parse error at line 1, column 3: " : Text) ++
      ("unexpected token IDENT \"b\", expected ;\n" : Text) ++
      ("Unknown command: .x (type .help for commands)\n" : Text)
    Cut ["a", ".b", "", ".HELP me", "c;; ", ".quit", "d"]
      [.snippet "a\n.b\n", .command ".help", .snippet "c\n"] ∧
    ∀ s : Stage, ((eventsFrom [] ["a b;;", ".x", "c", ""]).forM fun e =>
      Command.say none (respond config compiler "repl" e)) s =
        (.ok (), { s with out := s.out ++ ("c;\n\n" : Text), err := s.err ++ errors }) := by
  intro config compiler errors
  have hfirst : Tidy "c;; " := fun _ => ⟨"c", " ", rfl, by decide +kernel⟩
  have hsecond : Tidy "a b;;" := fun _ => ⟨"a b", "", rfl, by decide +kernel⟩
  refine ⟨((session_cut (tidy_of_one hfirst (by decide +kernel))).1 _).2 (by decide +kernel),
    fun s => ?_⟩
  rw [(session_cut (tidy_of_one hsecond (by decide +kernel))).2 config compiler "repl" none s
    (by decide +kernel)]
  have hout : ((eventsFrom [] ["a b;;", ".x", "c", ""]).flatMap fun e =>
      (told none (respond config compiler "repl" e)).1) = ("c;\n\n" : Text) := by decide +kernel
  have herr : ((eventsFrom [] ["a b;;", ".x", "c", ""]).flatMap fun e =>
      (told none (respond config compiler "repl" e)).2) = errors := by decide +kernel
  rw [hout, herr]

/-- White space other than spaces and tabs keeps the two semicolons in the snippet. -/
theorem eventsFrom_keeps_terminator : Cut ["x;;\x0b"] [.snippet "x\n"] ∧
    eventsFrom [] ["x;;\x0b"] = [.snippet "x;;\x0b\n"] := by
  have hwhite : Text.White [0x0b] := by unfold Text.White; decide
  exact ⟨@Cut.closed [] "x" _ [] [] .nil (by decide) hwhite (fun _ => by decide) (.ended .nil),
    by decide +kernel⟩

end Repl
end LabelHooks
