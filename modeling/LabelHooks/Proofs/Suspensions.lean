import LabelHooks.Proofs.Runs

/-!
Where an `await` or a `yield` can end up. It stays in its function, unless it stands in a mutation
of a state: the callback that such a mutation becomes takes it along.
-/

namespace LabelHooks
set_option autoImplicit true

open Pass

namespace Parts

/-- `qs` comes from `ps`: each `await` and `yield` is still in its function, or it was taken along
with a mutation of one of the states `bs`. -/
structure Keeps (bs : Registry) (ps qs : Parts) : Prop where
  suspensions : ∀ k ∈ qs.suspensions, k ∈ ps.suspensions
  arrows : ∀ a ∈ qs.holding (·.role.arrow?), a ∈ ps.holding (·.role.arrow?) ∨
    ∃ b ∈ bs, (b.name, a.2) ∈ ps.holding Part.base?

namespace Keeps

variable {bs bs' : Registry} {ps ps' qs qs' : Parts} {x y : Part}

theorem refl (ps : Parts) : Keeps bs ps ps := ⟨fun _ h => h, fun _ h => .inl h⟩

theorem mono (h : Keeps bs ps qs) (hb : ∀ b ∈ bs, b ∈ bs') : Keeps bs' ps qs where
  suspensions := h.suspensions
  arrows a ha := (h.arrows a ha).imp_right fun ⟨b, hmem, hbase⟩ => ⟨b, hb b hmem, hbase⟩

theorem append (h : Keeps bs ps qs) (h' : Keeps bs ps' qs') :
    Keeps bs (ps ++ ps') (qs ++ qs') where
  suspensions k hk := by
    rw [suspensions_append, List.mem_append] at hk ⊢
    exact hk.imp (h.suspensions k) (h'.suspensions k)
  arrows a ha := by
    simp only [holding_append, List.mem_append] at ha ⊢
    obtain ha | ha := ha
    · exact (h.arrows a ha).imp .inl fun ⟨b, hb, hbase⟩ => ⟨b, hb, .inl hbase⟩
    · exact (h'.arrows a ha).imp .inr fun ⟨b, hb, hbase⟩ => ⟨b, hb, .inr hbase⟩

theorem recast (h : Keeps bs ps qs) (hp : ps'.Covers ps) (hq : qs.Covers qs') :
    Keeps bs ps' qs' where
  suspensions k hk := hp.suspensions k (h.suspensions k (hq.suspensions k hk))
  arrows a ha := (h.arrows a (hq.arrows a ha)).imp (hp.arrows a)
    fun ⟨b, hb, hbase⟩ => ⟨b, hb, hp.bases _ hbase⟩

theorem above (h : Keeps bs ps qs) (hx : y.role = x.role) :
    Keeps bs (Parts.above x ps) (Parts.above y qs) where
  suspensions := suspensions_above_mono hx h.suspensions
  arrows a ha := by
    simp only [holding_above, List.mem_append, List.mem_flatMap, List.mem_map, hx] at ha ⊢
    obtain ⟨m, hm, k, hk, rfl⟩ | ha := ha
    · exact .inl (.inl ⟨m, hm, k, h.suspensions k hk, rfl⟩)
    · exact (h.arrows a ha).imp .inr fun ⟨b, hb, hbase⟩ => ⟨b, hb, .inr hbase⟩

theorem function (h : Keeps bs ps' qs) (hf : y.role = .function) :
    Keeps bs (Parts.above x (ps ++ ps')) (Parts.above y qs) where
  suspensions k hk := by
    simp [suspensions_above, hf, Part.Role.suspension?, Part.Role.isFunction] at hk
  arrows a ha := by
    simp only [holding_above, hf, Part.Role.arrow?, Option.toList_none, List.flatMap_nil,
      List.nil_append] at ha
    simp only [holding_above, holding_append, List.mem_append]
    obtain ha | ⟨b, hb, hbase⟩ := h.arrows a ha
    · exact .inl (.inr (.inr ha))
    · exact .inr ⟨b, hb, .inr (.inr hbase)⟩

theorem callback (h : Keeps bs ps' qs) (hp : ps.Covers ps') (hb : b ∈ bs)
    (hs : ∀ k ∈ ps'.suspensions, (b.name, k) ∈ ps.holding Part.base?) (hy : y.role = .arrow m) :
    Keeps bs ps (Parts.above y qs) where
  suspensions k hk := by
    simp [suspensions_above, hy, Part.Role.suspension?, Part.Role.isFunction] at hk
  arrows a ha := by
    simp only [holding_above, hy, Part.Role.arrow?, List.mem_append, List.mem_flatMap,
      List.mem_map] at ha
    obtain ⟨_, -, k, hk, rfl⟩ | ha := ha
    · exact .inr ⟨b, hb, hs k (h.suspensions k hk)⟩
    · exact (h.recast hp (.refl qs)).arrows a ha

end Keeps
end Parts

theorem Rewrites.keeps (h : Rewrites o s p xs ps p' ys qs ds) : ps.Keeps p'.done.bindings qs := by
  induction h with
  | keep | hide | drop | add | renode | relabel | note | share | state => exact .refl _
  | append _ hy ihx ihy => exact (ihx.mono hy.bindings_subset).append ihy
  | hoist _ ih | scope _ ih | stray _ _ ih | call _ _ _ ih | memo _ _ _ _ ih => exact ih
  | part hx _ _ ih => exact ih.above hx
  | recast hp hq _ ih => exact ih.recast hp hq
  | watch _ _ _ _ hf ih => exact ih.function hf
  | miss _ hx hy _ ih => exact ih.above (hy.trans hx.symm)
  | callback hb hy _ hx _ _ hp hs ha ih =>
    obtain ⟨hmem, hname, -⟩ := Registry.of_reactive? hb
    obtain ⟨-, rfl⟩ := yields_openCallback hy
    exact ih.callback hp (hx.bindings_subset _ hmem) (hname ▸ hs) ha

namespace Program

variable {o : Options} {p : Program} {d : Desugared} {log : List LogRecord}

/-- An `await` or a `yield` whose innermost function is an arrow with parameters was there before,
or it was taken along with a mutation of a state. -/
theorem desugar_keeps_suspensions (h : p.desugar o = (log, .ok d)) :
    ∀ a ∈ d.program.parts.holding (·.role.arrow?),
      a ∈ p.numbered.1.parts.holding (·.role.arrow?) ∨
      ∃ b ∈ d.expansions.bindings, (b.name, a.2) ∈ p.numbered.1.parts.holding Part.base? := by
  obtain ⟨p', ds, hrun⟩ := run_of_desugar h
  rw [hrun.done]
  exact hrun.rewrites.keeps.arrows

/-- One of each. -/
theorem desugar_keeps_suspensions_both :
    ∃ p log d, Program.parse
        ("async n => \x7b ref: m = await n; m[await n]++ \x7d" : Text) = .ok p ∧
      p.desugar .empty = (log, .ok d) ∧
      (d.program.parts.holding (·.role.arrow?)).length = 2 ∧
      ∀ a ∈ d.program.parts.holding (·.role.arrow?),
        a ∈ p.numbered.1.parts.holding (·.role.arrow?) ∨
        ∃ b ∈ d.expansions.bindings, (b.name, a.2) ∈ p.numbered.1.parts.holding Part.base? := by
  obtain ⟨p, log, d, hp, hd, htwo⟩ := Text.exists_of_desugars .empty
    "async n => \x7b ref: m = await n; m[await n]++ \x7d"
    (fun _ d => decide ((d.program.parts.holding (·.role.arrow?)).length = 2)) (by decide +kernel)
  exact ⟨p, log, d, hp, hd, of_decide_eq_true htwo, desugar_keeps_suspensions hd⟩

/-- An `await` can get into a callback, which is not async. -/
theorem desugar_moves_await :
    ∃ p log d, Program.parse
        ("async function f() \x7b ref: x = 0; x = await g(); \x7d" : Text) = .ok p ∧
      p.desugar .empty = (log, .ok d) ∧ p.numbered.1.parts.holding (·.role.arrow?) = [] ∧
      d.program.parts.holding (·.role.arrow?) ≠ [] := by
  obtain ⟨p, log, d, hp, hd, h⟩ := Text.exists_of_desugars .empty
    "async function f() \x7b ref: x = 0; x = await g(); \x7d"
    (fun p d => decide (p.numbered.1.parts.holding (·.role.arrow?) = [] ∧
      d.program.parts.holding (·.role.arrow?) ≠ [])) (by decide +kernel)
  exact ⟨p, log, d, hp, hd, of_decide_eq_true h⟩

end Program
end LabelHooks
