import LabelHooks.Proofs.Parts

/-!
When some parts have all that others have of what matters: labels, mutations, parts that the pass
does not look at, and every `await` and `yield` with the function or the mutation it stands in.
-/

namespace LabelHooks
set_option autoImplicit true

namespace Part.Role

def isSugar : Role → Bool
  | .label _ | .mutation _ => true
  | .plain | .suspension _ | .arrow _ | .function => false

theorem ofTarget_congr (h : y.ident? = x.ident?) : ofTarget y = ofTarget x := by
  rw [ofTarget, h, ofTarget]

end Part.Role

theorem Part.role_of_isWord {x : Part} (h : x.isWord = true) : x.role = .plain := by
  cases x with
  | stmt s => cases h
  | expr e =>
    cases e with
    | ident | literal => rfl
    | _ => cases h

namespace Parts

variable {ps qs ps' qs' : Parts} {x : Part} {α : Type}

@[simp] theorem skipped_above : (above x ps).skipped = ps.skipped := by simp [above, skipped]

theorem suspensions_above : (above x ps).suspensions =
    x.role.suspension?.toList ++ if x.role.isFunction then [] else ps.suspensions := by
  cases hs : x.role.suspension? <;> cases hf : x.role.isFunction <;>
    simp [above, suspensions, own, hs, hf]

theorem mem_suspensions_of_above (hx : x.role.suspension? = none)
    (hk : k ∈ (above x ps).suspensions) : k ∈ ps.suspensions := by
  rw [suspensions_above, hx] at hk
  split at hk
  · cases hk
  · exact hk

theorem holding_above (f : Part → Option α) : (above x ps).holding f =
    (f x).toList.flatMap (fun a => ps.suspensions.map (a, ·)) ++ ps.holding f := by
  simp [above, holding]

theorem suspensions_above_mono (hx : y.role = x.role)
    (h : ∀ k ∈ qs.suspensions, k ∈ ps.suspensions) :
    ∀ k ∈ (above y qs).suspensions, k ∈ (above x ps).suspensions := by
  intro k hk
  rw [suspensions_above, List.mem_append, hx] at hk
  rw [suspensions_above, List.mem_append]
  refine hk.imp_right fun hk => ?_
  split at hk
  · cases hk
  · next hf =>
    rw [if_neg hf]
    exact h k hk

theorem holding_above_mono (hx : f y = f x) (hs : ∀ k ∈ qs.suspensions, k ∈ ps.suspensions)
    (hf : ∀ a ∈ qs.holding f, a ∈ ps.holding f) :
    ∀ a ∈ (above y qs).holding f, a ∈ (above x ps).holding f := by
  intro a ha
  rw [holding_above, List.mem_append, hx] at ha
  rw [holding_above, List.mem_append]
  refine ha.imp (fun ha => ?_) (hf a)
  simp only [List.mem_flatMap, List.mem_map] at ha ⊢
  obtain ⟨m, hm, k, hk, rfl⟩ := ha
  exact ⟨m, hm, k, hs k hk, rfl⟩

structure Covers (ps qs : Parts) : Prop where
  skipped : ∀ x ∈ qs.skipped, x ∈ ps.skipped
  roles : ∀ x ∈ qs.flat, x.role.isSugar = true → ∃ y ∈ ps.flat, y.role = x.role
  suspensions : ∀ k ∈ qs.suspensions, k ∈ ps.suspensions
  arrows : ∀ a ∈ qs.holding (·.role.arrow?), a ∈ ps.holding (·.role.arrow?)
  bases : ∀ a ∈ qs.holding Part.base?, a ∈ ps.holding Part.base?

namespace Covers

theorem refl (ps : Parts) : Covers ps ps where
  skipped _ h := h
  roles x hx _ := ⟨x, hx, rfl⟩
  suspensions _ h := h
  arrows _ h := h
  bases _ h := h

theorem nil (ps : Parts) : Covers ps .nil where
  skipped _ h := nomatch h
  roles _ h := nomatch h
  suspensions _ h := nomatch h
  arrows _ h := nomatch h
  bases _ h := nomatch h

theorem append (h : Covers ps qs) (h' : Covers ps' qs') : Covers (ps ++ ps') (qs ++ qs') where
  skipped x hx := by
    rw [skipped_append, List.mem_append] at hx ⊢
    exact hx.imp (h.skipped x) (h'.skipped x)
  roles x hx hs := by
    rw [flat_append, List.mem_append] at hx
    obtain hx | hx := hx
    · obtain ⟨y, hy, hyx⟩ := h.roles x hx hs
      exact ⟨y, by simp [hy], hyx⟩
    · obtain ⟨y, hy, hyx⟩ := h'.roles x hx hs
      exact ⟨y, by simp [hy], hyx⟩
  suspensions k hk := by
    rw [suspensions_append, List.mem_append] at hk ⊢
    exact hk.imp (h.suspensions k) (h'.suspensions k)
  arrows a ha := by
    rw [holding_append, List.mem_append] at ha ⊢
    exact ha.imp (h.arrows a) (h'.arrows a)
  bases a ha := by
    rw [holding_append, List.mem_append] at ha ⊢
    exact ha.imp (h.bases a) (h'.bases a)

theorem right (h : Covers ps qs) (ps' : Parts) : Covers (ps' ++ ps) qs := (nil ps').append h

theorem before (h : Covers ps qs) (hg : Covers .nil qs') : Covers ps (qs' ++ qs) := hg.append h

theorem after (h : Covers ps qs) (hg : Covers .nil qs') : Covers ps (qs ++ qs') := by
  have := h.append hg
  rwa [append_nil] at this

theorem under (h : Covers ps qs) (hx : x.role.isFunction = false) : Covers (above x ps) qs where
  skipped y hy := by
    rw [skipped_above]
    exact h.skipped y hy
  roles y hy hs := by
    obtain ⟨z, hz, hzy⟩ := h.roles y hy hs
    exact ⟨z, by simp [hz], hzy⟩
  suspensions k hk := by simp [suspensions_above, hx, h.suspensions k hk]
  arrows a ha := by simp [holding_above, h.arrows a ha]
  bases a ha := by simp [holding_above, h.bases a ha]

theorem plain (h : Covers ps qs) (hx : x.role = .plain) (hb : x.base? = none) :
    Covers ps (above x qs) where
  skipped y hy := by
    rw [skipped_above] at hy
    exact h.skipped y hy
  roles y hy hs := by
    rw [flat_above, List.mem_cons] at hy
    obtain rfl | hy := hy
    · simp [hx, Part.Role.isSugar] at hs
    · exact h.roles y hy hs
  suspensions k hk := by
    simp only [suspensions_above, hx, Part.Role.suspension?, Part.Role.isFunction] at hk
    exact h.suspensions k hk
  arrows a ha := by
    simp only [holding_above, hx, Part.Role.arrow?] at ha
    exact h.arrows a ha
  bases a ha := by
    simp only [holding_above, hb] at ha
    exact h.bases a ha

theorem inside (h : Covers ps qs) (x : Part) : Covers (above x ps) (above x qs) where
  skipped y hy := by
    rw [skipped_above] at hy ⊢
    exact h.skipped y hy
  roles y hy hs := by
    rw [flat_above, List.mem_cons] at hy
    obtain rfl | hy := hy
    · exact ⟨y, by simp, rfl⟩
    · obtain ⟨z, hz, hzy⟩ := h.roles y hy hs
      exact ⟨z, by simp [hz], hzy⟩
  suspensions := suspensions_above_mono rfl h.suspensions
  arrows := holding_above_mono rfl h.suspensions h.arrows
  bases := holding_above_mono rfl h.suspensions h.bases

theorem word (hx : x.isWord = true) : Covers .nil (.skip (above x .nil) .nil) := by
  have hrole := Part.role_of_isWord hx
  refine ⟨?_, ?_, ?_, ?_, ?_⟩ <;>
    simp [Parts.skipped, flat, Parts.suspensions, own, holding, above, hx, hrole,
      Part.Role.isSugar, Part.Role.suspension?]

theorem ident (i : Ident) : Covers .nil ((Expr.ident i).parts false) := .word rfl

theorem visited (h : Covers ps qs) (hv : ps.Visited) : qs.Visited := by
  refine List.eq_nil_iff_forall_not_mem.2 fun x hx => ?_
  have hmem := h.skipped x hx
  rw [show ps.skipped = [] from hv] at hmem
  cases hmem

end Covers
end Parts
end LabelHooks
