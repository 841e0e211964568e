import Grove.Proofs.ChangeDetection

/-!
# Commits on the host

The changed checkouts are committed one after another, whatever becomes of each: the inner ones from
the deepest outwards, then the outermost one if it is known to be changed or, asked at that point,
dirty. Each of these is an operation on the host, so committing comes to a run there.

## What is proved

* `precedes_commitOrder` — the inner checkouts are in order without repetition, so none comes
  before one that lies in it.
* `commitChanges_apply` — what committing does, for any client, as a run on the host alone.
* `CommitReport.of_sorts` — every checkout that is tried is reported once, in order.
-/

namespace Grove

open Git

variable {σ : Type}

/-! ### The order of commits -/

namespace Checkout

/-- Whether the root directory of `b` is that of `a` or lies below it. -/
def Encloses (a b : Checkout) : Prop :=
  a.root.components <+: b.root.components

/-- Whether `a` is committed before `b`: it lies deeper, or as deep and before `b` in path order. -/
def Precedes (a b : Checkout) : Prop :=
  b.depth < a.depth ∨ (a.depth = b.depth ∧ a.order b = .lt)

instance (a b : Checkout) : Decidable (a.Encloses b) :=
  inferInstanceAs (Decidable (_ <+: _))

theorem encloses_of_same {a b : Checkout} (h : a.same b) : a.Encloses b := by
  have hcomponents : a.root.components = b.root.components :=
    Path.order_eq_eq_iff.1 (same_iff_order.1 h)
  exact ⟨[], by rw [List.append_nil, hcomponents]⟩

theorem Precedes.not_encloses {a b : Checkout} (h : a.Precedes b) : ¬a.Encloses b := by
  intro hprefix
  have hlength : a.depth ≤ b.depth := hprefix.length_le
  rcases h with hdeeper | ⟨hdepth, hlt⟩
  · omega
  · have hcomponents : a.root.components = b.root.components := hprefix.eq_of_length hdepth
    rw [order, Path.order_eq_eq_iff.2 hcomponents] at hlt
    exact absurd hlt (by simp)

end Checkout

theorem commitsBefore_iff {a b : Checkout} :
    commitsBefore a b = true ↔ b.depth < a.depth ∨ (a.depth = b.depth ∧ (a.order b).isLE) := by
  simp [commitsBefore]

theorem commitsBefore_trans (a b c : Checkout) (hab : commitsBefore a b) (hbc : commitsBefore b c) :
    commitsBefore a c := by
  rw [commitsBefore_iff] at *
  rcases hab with hab | ⟨hab, hle⟩ <;> rcases hbc with hbc | ⟨hbc, hle'⟩
  · exact .inl (by omega)
  · exact .inl (by omega)
  · exact .inl (by omega)
  · exact .inr ⟨by omega, Std.TransCmp.isLE_trans hle hle'⟩

theorem commitsBefore_total (a b : Checkout) : (commitsBefore a b || commitsBefore b a) = true := by
  rw [Bool.or_eq_true, commitsBefore_iff, commitsBefore_iff]
  rcases Nat.lt_trichotomy a.depth b.depth with hlt | heq | hgt
  · exact .inr (.inl hlt)
  · cases horder : a.order b with
    | lt | eq => exact .inl (.inr ⟨heq, by simp⟩)
    | gt => exact .inr (.inr ⟨heq.symm, by simp [Std.OrientedCmp.lt_of_gt horder]⟩)
  · exact .inl (.inl hgt)

/-- The inner ones of some changed checkouts in the order in which they are committed. -/
def commitOrder (changed : List Checkout) : List Checkout :=
  (changed.filter fun c => !c.isOutermost).mergeSort commitsBefore

theorem commitOrder_perm (changed : List Checkout) :
    (commitOrder changed).Perm (changed.filter fun c => !c.isOutermost) :=
  List.mergeSort_perm _ _

theorem mem_commitOrder {changed : List Checkout} {c : Checkout} :
    c ∈ commitOrder changed ↔ c ∈ changed ∧ c.isOutermost = false := by
  rw [(commitOrder_perm changed).mem_iff, List.mem_filter, Bool.not_eq_true']

/-- The inner checkouts are in order without repetition. -/
theorem precedes_commitOrder {changed : List Checkout} (hnodup : changed.Nodup)
    (hdistinct : Distinct changed) : (commitOrder changed).Pairwise Checkout.Precedes := by
  have hsorted : (commitOrder changed).Pairwise fun a b => commitsBefore a b :=
    List.pairwise_mergeSort commitsBefore_trans commitsBefore_total _
  have hnodup' : (commitOrder changed).Nodup :=
    (commitOrder_perm changed).nodup_iff.2 (hnodup.filter _)
  refine (hsorted.and hnodup').imp_of_mem fun {a b} ha hb ⟨hle, hne⟩ => ?_
  rcases commitsBefore_iff.1 hle with hdeeper | ⟨hdepth, hle⟩
  · exact .inl hdeeper
  · refine .inr ⟨hdepth, ?_⟩
    cases horder : a.order b with
    | lt => rfl
    | eq =>
      -- one and the same checkout, which is not there twice
      have hsame := hdistinct a (mem_commitOrder.1 ha).1 b (mem_commitOrder.1 hb).1
        (Checkout.same_iff_order.2 horder)
      exact absurd hsame hne
    | gt => simp [horder] at hle

/-! ### One checkout -/

/-- Stages and commits everything in a repository; pretending does neither. -/
def Git.Client.commitAll (git : Git.Client σ) (message : String) (pretend : Bool) (root : Path) :
    EStateM Failure σ Unit := do
  if pretend then return
  git.mutate root .addAll
  git.mutate root (.commit message)

/-- The report on some checkouts in order, by what became of each. -/
def CommitReport.of (tries : List (Checkout × Except Failure Unit)) : CommitReport where
  committed := tries.filterMap fun
    | (c, .ok ()) => some c
    | (_, .error _) => none
  failed := tries.filterMap fun
    | (_, .ok ()) => none
    | (c, .error e) => some (c, e.message)

theorem CommitReport.of_append (tries tries' : List (Checkout × Except Failure Unit)) :
    CommitReport.of (tries ++ tries') = .of tries ++ .of tries' := by
  show _ = CommitReport.append _ _
  simp [CommitReport.of, CommitReport.append]

section

variable (git : Git.Client σ) (message : String) (pretend : Bool)

/-- On the host two changes in a row are what their operations on the client are. -/
theorem change_change_apply (c : Checkout) (m m' : Git.Mutation) (s : Session σ) :
    answer ((c.change git m >>= fun _ => c.change git m') s) =
        answer ((git.mutate c.root m >>= fun _ => git.mutate c.root m') s.host) ∧
      (reached ((c.change git m >>= fun _ => c.change git m') s)).host =
        reached ((git.mutate c.root m >>= fun _ => git.mutate c.root m') s.host) := by
  obtain ⟨hanswer, hreached⟩ := c.change_apply git m s
  have hhost : (reached (c.change git m s)).host = reached (git.mutate c.root m s.host) := by
    rw [hreached]
  refine ⟨answer_bind_congr hanswer fun _ => ?_,
    reached_bind_congr (R := fun t h => t.host = h) hanswer hhost fun _ t h hsame => ?_⟩
  · rw [(c.change_apply git m' _).1, hhost]
  · rw [(c.change_apply git m' t).2, hsame]

/-- Committing a checkout reports on that one, by what comes of it on the host. -/
theorem commitOne_apply (c : Checkout) (s : Session σ) :
    ∃ t, commitOne git message pretend c s =
        .ok (.of [(c, answer (git.commitAll message pretend c.root s.host))]) t ∧
      t.host = reached (git.commitAll message pretend c.root s.host) := by
  rw [commitOne, bind_of_ok (Action.note_apply _ _ _)]
  cases pretend with
  | true => exact ⟨_, rfl, rfl⟩
  | false =>
    obtain ⟨hanswer, hreached⟩ := change_change_apply git c .addAll (.commit message)
      { s with log := s.log ++ [⟨.info, "Commit " ++ c.name⟩] }
    have hall : git.commitAll message false c.root s.host =
        (git.mutate c.root .addAll >>= fun _ => git.mutate c.root (.commit message)) s.host := rfl
    simp only [Bool.false_eq_true, if_false]
    rw [hall, bind_of_ok (Action.attempt_apply _ _), hanswer, ← hreached]
    cases answer ((git.mutate c.root .addAll >>= fun _ =>
        git.mutate c.root (.commit message)) s.host) with
    | ok u => exact ⟨_, rfl, rfl⟩
    | error e => exact ⟨_, bind_of_ok (Action.note_apply _ _ _), rfl⟩

/-! ### One after another -/

/-- Commits checkouts one after another, whatever fails: what became of each, and the state that is
reached. -/
def Git.Client.commitIn (git : Git.Client σ) (message : String) (pretend : Bool) :
    List Checkout → σ → List (Checkout × Except Failure Unit) × σ
  | [], h => ([], h)
  | c :: cs, h =>
    let first := git.commitAll message pretend c.root h
    let rest := git.commitIn message pretend cs (reached first)
    ((c, answer first) :: rest.1, rest.2)

theorem checkouts_commitIn (cs : List Checkout) (h : σ) :
    (git.commitIn message pretend cs h).1.map (·.1) = cs := by
  induction cs generalizing h with
  | nil => rfl
  | cons c cs ih => simp only [Client.commitIn, List.map_cons, ih]

theorem mem_of_mem_commitIn {cs : List Checkout} {h : σ} {c : Checkout}
    {result : Except Failure Unit} (hc : (c, result) ∈ (git.commitIn message pretend cs h).1) :
    c ∈ cs := by
  rw [← checkouts_commitIn git message pretend cs h]
  exact List.mem_map.2 ⟨(c, result), hc, rfl⟩

/-- Pretending succeeds everywhere and leaves the host as it is. -/
theorem commitIn_pretending (cs : List Checkout) (h : σ) :
    git.commitIn message true cs h = (cs.map fun c => (c, .ok ()), h) := by
  induction cs generalizing h with
  | nil => rfl
  | cons c cs ih =>
    have hfirst : git.commitAll message true c.root h = .ok () h := rfl
    simp only [Client.commitIn, hfirst, answer_ok, reached_ok, ih, List.map_cons]

theorem commitEach_apply (cs : List Checkout) (s : Session σ) :
    ∃ t, commitEach git message pretend cs s =
        .ok (.of (git.commitIn message pretend cs s.host).1) t ∧
      t.host = (git.commitIn message pretend cs s.host).2 := by
  induction cs generalizing s with
  | nil => exact ⟨s, rfl, rfl⟩
  | cons c cs ih =>
    obtain ⟨t, hfirst, hhost⟩ := commitOne_apply git message pretend c s
    obtain ⟨t', hrest, hhost'⟩ := ih t
    rw [hhost] at hrest hhost'
    rw [commitEach, bind_of_ok hfirst, bind_of_ok hrest, pure_apply, ← CommitReport.of_append]
    exact ⟨t', rfl, hhost'⟩

/-! ### The outermost checkout -/

/-- Whether the outermost checkout is due, and the state of the host once that is settled: it is
known to be changed, or the client is asked and answers that it is dirty. -/
def Git.Client.rootDue (git : Git.Client σ) (w : Workspace) (changed : List Checkout) (h : σ) :
    Bool × σ :=
  if w.root.isIn changed then (true, h)
  else ((git.status h w.root).toOption.getD false, reached (git.isDirty w.root.root h))

theorem rootIsDue_apply (w : Workspace) (changed : List Checkout) {s : Session σ}
    (hforgotten : s.dirtyFlags = []) :
    ∃ t, rootIsDue git w changed s = .ok (git.rootDue w changed s.host).1 t ∧
      t.host = (git.rootDue w changed s.host).2 := by
  rw [rootIsDue, Client.rootDue]
  by_cases hknown : w.root.isIn changed
  · simp only [hknown, if_true]
    exact ⟨s, rfl, rfl⟩
  · have hunknown : Ordered.get? Path.order w.root.root s.dirtyFlags = none := by
      rw [hforgotten]
      rfl
    simp only [hknown, if_false, Bool.false_eq_true]
    rw [bind_of_ok (Action.attempt_apply _ s), Checkout.isDirty_apply, hunknown, Client.status]
    cases git.isDirty w.root.root s.host with
    | ok dirty host => exact ⟨_, rfl, rfl⟩
    | error e host => exact ⟨_, bind_of_ok (Action.note_apply _ _ _), rfl⟩

/-- The outermost checkout as the last one to commit, if it is due. -/
def Workspace.rootIf (w : Workspace) (due : Bool) : List Checkout :=
  if due then [w.root] else []

theorem Workspace.eq_root_of_mem_rootIf {w : Workspace} {due : Bool} {c : Checkout}
    (hc : c ∈ w.rootIf due) : c = w.root := by
  rw [rootIf] at hc
  split at hc
  · exact List.mem_singleton.1 hc
  · simp at hc

/-- Committing what changed, as a run on the host: the inner checkouts in order, then the question
about the outermost one, then that one if it is due. -/
theorem commitChanges_apply (w : Workspace) (changed : List Checkout) (s : Session σ) :
    let inner := git.commitIn message pretend (commitOrder changed) s.host
    let due := git.rootDue w changed inner.2
    let last := git.commitIn message pretend (w.rootIf due.1) due.2
    ∃ t, commitChanges git w changed message pretend s = .ok (.of (inner.1 ++ last.1)) t ∧
      t.host = last.2 := by
  intro inner due last
  obtain ⟨s₁, hinner, hhost₁⟩ := commitEach_apply git message pretend (commitOrder changed) s
  obtain ⟨s₂, hdue, hhost₂⟩ := rootIsDue_apply git w changed
    (s := { s₁ with dirtyFlags := [], snapshots := [] }) rfl
  have hdue₁ : git.rootDue w changed s₁.host = due := by rw [hhost₁]
  simp only [hdue₁] at hdue hhost₂
  obtain ⟨s₃, hlast, hhost₃⟩ := commitEach_apply git message pretend (w.rootIf due.1) s₂
  rw [hhost₂] at hlast hhost₃
  refine ⟨{ s₃ with dirtyFlags := [], snapshots := [] }, ?_, hhost₃⟩
  rw [commitChanges, ← commitOrder, bind_of_ok hinner, bind_of_ok (Action.forgetAll_apply s₁),
    bind_of_ok hdue, ← Workspace.rootIf, bind_of_ok hlast, bind_of_ok (Action.forgetAll_apply s₃),
    pure_apply, ← CommitReport.of_append]

end

/-! ### Reports in order -/

namespace CommitReport

/-- Every checkout is in one of the two lists, and each list is in order. -/
structure Sorts (report : CommitReport) (cs : List Checkout) : Prop where
  committed : report.committed.Sublist cs
  failed : (report.failed.map (·.1)).Sublist cs
  each : (report.committed ++ report.failed.map (·.1)).Perm cs

theorem of_sorts (tries : List (Checkout × Except Failure Unit)) :
    (CommitReport.of tries).Sorts (tries.map (·.1)) := by
  induction tries with
  | nil => exact ⟨.slnil, .slnil, .nil⟩
  | cons first tries ih =>
    obtain ⟨hcommitted, hfailed, heach⟩ := ih
    obtain ⟨c, result⟩ := first
    cases result with
    | ok u => exact ⟨hcommitted.cons_cons c, hfailed.cons c, heach.cons c⟩
    | error e =>
      exact ⟨hcommitted.cons c, hfailed.cons_cons c, List.perm_middle.trans (heach.cons c)⟩

/-- Where every try succeeds, all checkouts are committed. -/
theorem of_ok (cs : List Checkout) :
    CommitReport.of (cs.map fun c => (c, .ok ())) = ⟨cs, []⟩ := by
  induction cs with
  | nil => rfl
  | cons c cs ih =>
    simp only [CommitReport.of, CommitReport.mk.injEq] at ih
    simp [CommitReport.of, ih.1, ih.2]

end CommitReport

end Grove
