import LabelHooks.Proofs.Runs
import Mathlib.Logic.Relation

/-!
The pass changes its state in a few ways only. What holds of the start and is kept by every such
edit holds at the end.
-/

namespace LabelHooks
set_option autoImplicit true

open Pass Relation

/-- One change of the state of the pass. State and memo labels declare names of `T`, and watch
labels stand before functions of `W`, whose numbers are below `N`. -/
inductive PassState.Edit (N : Nat) (T : List Text) (W : List Mark) : PassState → PassState → Prop
  | note (h : p.Same p') : Edit N T W p p'
  | share : Edit N T W p (p.marked (p.table.bind (p.newMark span) s))
  | state {target : Ident} (ht : target.name ∈ T) (hs : p.table.OpenedBy s i)
    (h : Yields (declareState target s span) p b p') : Edit N T W p p'
  | memo {target : Ident} (ht : target.name ∈ T) :
    Edit N T W p { p with table := p.table.declare s target.name .const i }
  | watch (hw : n.mark ∈ W) (hi : n.mark.id = some i) (hlt : i < N)
    (ho : p.table.Opens s .function n c sc) :
    Edit N T W p (p.marked (p.table.watched n.mark (p.newMark span) c))
  | callback (hb : b ∈ p.done.bindings) (hq : b.name = q.name)
    (h : p.table.Wraps t (p.newMark span) q s xs cs) : Edit N T W p (p.marked t)

namespace Sites

def Within (o : Options) (T : List Text) (W : List Mark) (xs : Sites) : Prop :=
  ∀ x ∈ xs.flat, (∀ i, x.declared? o = some i → i.name ∈ T) ∧
    ∀ m, x.watched? o = some m → m ∈ W

/-- The names that state and memo labels declare. -/
def targets (o : Options) (xs : Sites) : List Text :=
  (xs.flat.filterMap (Site.declared? o)).map (·.name)

def watchers (o : Options) (xs : Sites) : List Mark := xs.flat.filterMap (Site.watched? o)

theorem within_self (o : Options) (xs : Sites) : xs.Within o (xs.targets o) (xs.watchers o) :=
  fun x hx => ⟨fun _ hi => List.mem_map_of_mem (List.mem_filterMap.2 ⟨x, hx, hi⟩),
    fun _ hm => List.mem_filterMap.2 ⟨x, hx, hm⟩⟩

theorem Within.mono (h : Within o T W xs) (hsub : ∀ y ∈ Sites.flat ys, y ∈ xs.flat) :
    Within o T W ys := fun x hx => h x (hsub x hx)

theorem Within.left (h : Within o T W (xs ++ ys)) : Within o T W xs :=
  h.mono fun y hy => by simp [hy]

theorem Within.right (h : Within o T W (xs ++ ys)) : Within o T W ys :=
  h.mono fun y hy => by simp [hy]

theorem Within.inside {inner} (h : Within o T W (.scope k n inner rest)) : Within o T W inner :=
  h.mono fun y hy => by simp [flat, hy]

end Sites

theorem Rewrites.edits (h : Rewrites o s p xs ps p' ys qs ds) (hr : xs.Ready N p s)
    (hw : xs.Within o T W) : ReflTransGen (PassState.Edit N T W) p p' := by
  induction h with
  | keep | hide | drop | add | renode | relabel => exact .refl
  | part _ _ _ ih | recast _ _ _ ih => exact ih hr hw
  | miss _ _ _ _ ih => exact ih hr.split.right (hw.mono fun y hy => List.mem_cons_of_mem _ hy)
  | append hx _ ihx ihy =>
    exact (ihx hr.left hw.left).trans (ihy (hr.next (hx.effect hr.left).frame) hw.right)
  | hoist _ ih => exact ih hr.ofHoist (hw.mono (by simp [Sites.flat]))
  | scope _ ih =>
    obtain ⟨c, sc, j, hopen, -, -, -, -, hin⟩ := hr.ofScope
    rw [hopen.owner] at ih
    exact ih hin hw.inside
  | stray hx => cases hx.symm.trans (hr.memberFree _ List.mem_cons_self)
  | call _ _ _ ih => exact ih hr hw
  | note h => exact .single (.note h)
  | share => exact .single .share
  | state hd _ hy =>
    obtain ⟨i, hs, -⟩ := hr.around
    exact .single (.state ((hw _ List.mem_cons_self).1 _ hd) hs hy)
  | memo hd _ _ _ ih =>
    exact (ih hr hw).tail (.memo ((hw _ List.mem_cons_self).1 _ hd))
  | watch hm _ hy _ _ ih =>
    have hscope := hr.underLabel
    obtain ⟨rfl, rfl, hin, sc, j, hopen, hj, -⟩ := hscope.ofWatch hy
    exact .head (.watch ((hw _ List.mem_cons_self).2 _ hm) hj (hscope.old j (by simp [hj])) hopen)
      (ih hin (hw.mono (by simp +contextual [Sites.flat])))
  | callback hb hy _ _ _ _ _ _ _ ih =>
    obtain ⟨hmem, hname, -⟩ := Registry.of_reactive? hb
    obtain ⟨rfl, hin, t, cs, rfl, hwraps⟩ := hr.ofCallback hy
    exact .head (.callback hmem hname hwraps) (ih hin hw)

theorem Program.Run.edits {o : Options} {p : Program} {ds : List Text} (h : p.Run o d p' ds)
    (hp : p.sites.MemberFree) :
    ReflTransGen (PassState.Edit p.numbered.2 (p.numbered.1.sites.targets o)
      (p.numbered.1.sites.watchers o)) (start p.numbered) p' :=
  h.rewrites.edits (ready_numbered hp) (Sites.within_self o _)

end LabelHooks
