import Grove.Project.Workspace

/-!
# The checkouts of a workspace

Whatever checkouts and projects a scan comes across, a workspace holds its outermost checkout and no
other that counts as outermost, and its checkouts are in path order without repetition. So the
outermost checkout, the checkouts without projects and those with projects are all of them.

## What is proved

* `lawful_ofFinds` — every workspace is `Workspace.Lawful`.
* `mem_checkouts_iff` — the three kinds of checkout cover a lawful workspace and nothing else.
-/

namespace Grove

namespace Path

theorem order_congr {p p' q q' : Path} (hp : p.alike p') (hq : q.alike q') :
    p.order q = p'.order q' := by
  simp only [alike, decide_eq_true_iff] at hp hq
  rw [order, order, hp, hq]

end Path

namespace Checkout

theorem same_iff_order {a b : Checkout} : a.same b ↔ a.order b = .eq :=
  Path.alike_iff_order

instance : Std.TransCmp order where
  eq_swap {a b} := @Std.OrientedCmp.eq_swap _ Path.order _ a.root b.root
  isLE_trans {a b c} := @Std.TransCmp.isLE_trans _ Path.order _ a.root b.root c.root

end Checkout

namespace Workspace

/-- A workspace holds its outermost checkout and no other outermost one, and its checkouts are in
path order without repetition. -/
structure Lawful (w : Workspace) : Prop where
  root : w.root ∈ w.checkouts
  outermost : ∀ c ∈ w.checkouts, c.isOutermost → c = w.root
  increasing : Ordered.Increasing Checkout.order w.checkouts

/-- The checkout made for a directory has that directory for its root. -/
theorem alike_checkoutAt (root dir : Path) : (checkoutAt root dir).root.alike dir := by
  rw [checkoutAt]
  split
  · next h =>
    rw [Path.alike_comm]
    exact h
  · exact Path.alike_self dir

theorem checkouts_ofFinds (root : Path) (roots : List Path) (poms : List Pom) :
    (ofFinds root roots poms).checkouts =
      (Ordered.ofList Path.order (roots ++ [root])).map (checkoutAt root) := by
  simp [checkouts, ofFinds, Function.comp_def]

theorem lawful_ofFinds (root : Path) (roots : List Path) (poms : List Pom) :
    (ofFinds root roots poms).Lawful := by
  have hcheckouts := checkouts_ofFinds root roots poms
  refine ⟨?_, ?_, ?_⟩ <;> rw [hcheckouts]
  · have hroot : root ∈ roots ++ [root] := by simp
    obtain ⟨dir, hdir, halike⟩ := Ordered.exists_mem_ofList Path.order hroot
    rw [← Path.alike_iff_order, Path.alike_comm] at halike
    exact List.mem_map.2 ⟨dir, hdir, by rw [checkoutAt, if_pos halike]; rfl⟩
  · intro c hc houter
    obtain ⟨dir, -, rfl⟩ := List.mem_map.1 hc
    rw [checkoutAt] at houter ⊢
    split at houter
    · next h => rw [if_pos h]; rfl
    · simp [Checkout.isOutermost, Checkout.nested] at houter
  · refine List.pairwise_map.2 ((Ordered.increasing_ofList Path.order _).imp fun hlt => ?_)
    exact (Path.order_congr (alike_checkoutAt _ _) (alike_checkoutAt _ _)).trans hlt

variable {w : Workspace}

/-- The outermost checkout, those without projects and those with projects are all checkouts. -/
theorem mem_checkouts_iff (hw : w.Lawful) {c : Checkout} :
    c ∈ w.root :: w.withoutProjects ++ w.withProjects ↔ c ∈ w.checkouts := by
  simp only [List.cons_append, List.mem_cons, List.mem_append, withoutProjects, withProjects,
    checkouts, List.mem_map, List.mem_filter, Prod.exists, Bool.and_eq_true, Bool.not_eq_true',
    exists_and_right, exists_eq_right]
  constructor
  · rintro (rfl | ⟨poms, hmem, -, -⟩ | ⟨poms, hmem, -⟩)
    · simpa [checkouts] using hw.root
    · exact ⟨poms, hmem⟩
    · exact ⟨poms, hmem⟩
  · rintro ⟨poms, hmem⟩
    cases hpoms : poms.isEmpty with
    | false => exact .inr (.inr ⟨poms, hmem, hpoms⟩)
    | true =>
      cases houter : c.isOutermost with
      | false => exact .inr (.inl ⟨poms, hmem, hpoms, rfl⟩)
      | true => exact .inl (hw.outermost c (List.mem_map.2 ⟨_, hmem, rfl⟩) houter)

/-- Two checkouts of a workspace with like roots are one. -/
theorem eq_of_same (hw : w.Lawful) {c c' : Checkout} (hc : c ∈ w.checkouts)
    (hc' : c' ∈ w.checkouts) (h : c.same c') : c = c' :=
  hw.increasing.eq_of_compare _ hc hc' (Checkout.same_iff_order.1 h)

end Workspace

end Grove
