import Grove.Proofs.Memory
import Grove.Proofs.MergePlanning

/-!
# What every workflow keeps

Everything that is done to the checkouts of a workspace is made of a few steps: asking, forgetting,
changing, telling. A property of the session that each of these keeps is kept by whatever is done,
however much of it fails.

## What is proved

* `StepsKeep.perform`, `StepsKeep.run`, `StepsKeep.commitChanges` and their siblings — what the
  steps keep is kept by every operation and every workflow.
-/

namespace Grove

open Git

variable {σ : Type}

/-- A plan is made for one of the checkouts. -/
theorem MergeRequest.checkout_mem_of_planAll {git : Git.Client σ} {r : MergeRequest}
    {cs : List Checkout} {s t : Session σ} {plans : List MergePlan}
    {skipped : List (Checkout × MergeObstacle)}
    (hrun : r.planAll git cs s = .ok (plans, skipped) t) {p : MergePlan} (hp : p ∈ plans) :
    p.checkout ∈ cs := by
  induction cs generalizing s t plans skipped with
  | nil =>
    obtain ⟨hanswer, -⟩ := EStateM.Result.ok.inj hrun
    obtain ⟨rfl, -⟩ := Prod.mk.inj hanswer
    simp at hp
  | cons c cs ih =>
    rw [planAll, bind_of_ok (r.planOne_apply git c s)] at hrun
    cases hrest : r.planAll git cs (reached (c.snapshot git s)) with
    | error e u => simp [bind_of_error hrest] at hrun
    | ok planned u =>
      obtain ⟨plans', skipped'⟩ := planned
      rw [bind_of_ok hrest] at hrun
      have hlater : p ∈ plans' → p.checkout ∈ c :: cs := fun h =>
        List.mem_cons_of_mem _ (ih hrest h)
      cases hplan : r.planFrom c (c.seen git s) with
      | ok plan =>
        simp only [hplan, pure_apply, EStateM.Result.ok.injEq, Prod.mk.injEq] at hrun
        obtain ⟨⟨rfl, -⟩, -⟩ := hrun
        rcases List.mem_cons.1 hp with rfl | hp
        · obtain ⟨branches, -, hof⟩ := planFrom_eq_ok hplan
          rw [(MergePlan.of_eq_ok hof).1]
          exact List.mem_cons_self
        · exact hlater hp
      | error obstacle =>
        simp only [hplan, pure_apply, EStateM.Result.ok.injEq, Prod.mk.injEq] at hrun
        obtain ⟨⟨rfl, -⟩, -⟩ := hrun
        exact hlater hp

/-- Carrying plans out never fails as a whole. -/
theorem MergeRequest.executeAll_answers (git : Git.Client σ) (r : MergeRequest)
    (ps : List MergePlan) (s : Session σ) :
    ∃ merged failed t, r.executeAll git ps s = .ok (merged, failed) t := by
  induction ps generalizing s with
  | nil => exact ⟨[], [], s, rfl⟩
  | cons p ps ih =>
    rw [executeAll, bind_of_ok (Action.attempt_apply _ s)]
    cases answer (r.execute git p s) with
    | ok u =>
      obtain ⟨merged, failed, t, hrest⟩ := ih (reached (r.execute git p s))
      exact ⟨_, _, t, bind_of_ok hrest⟩
    | error e =>
      obtain ⟨merged, failed, t, hrest⟩ := ih { reached (r.execute git p s) with
        log := (reached (r.execute git p s)).log ++ [⟨.error, "merge failed"⟩] }
      exact ⟨_, _, t, (bind_of_ok (Action.note_apply _ _ _)).trans (bind_of_ok hrest)⟩

/-- Planning keeps what taking a snapshot of each checkout keeps. -/
theorem MergeRequest.keeps_planAll {git : Git.Client σ} {P : Session σ → Prop} {r : MergeRequest}
    {cs : List Checkout} (hsnapshot : ∀ c ∈ cs, Action.Keeps P (c.snapshot git)) :
    Action.Keeps P (r.planAll git cs) := by
  induction cs with
  | nil => exact .pure _
  | cons c cs ih =>
    have hone : Action.Keeps P (r.planOne git c) := by
      refine (hsnapshot c List.mem_cons_self).attempt.bind fun seen => ?_
      cases seen <;> exact .pure _
    refine hone.bind fun planned =>
      (ih fun c' hc' => hsnapshot c' (List.mem_cons_of_mem _ hc')).bind fun _ => ?_
    cases planned <;> exact .pure _

/-! ### Steps -/

/-- The steps that everything done to some checkouts is made of keep a property of the session. -/
structure StepsKeep (git : Git.Client σ) (all : List Checkout) (P : Session σ → Prop) : Prop where
  note : ∀ severity message, Action.Keeps P (Action.note severity message)
  forgetAll : Action.Keeps P Action.forgetAll
  forget : ∀ c ∈ all, Action.Keeps P c.forget
  isDirty : ∀ c ∈ all, Action.Keeps P (c.isDirty git)
  currentBranch : ∀ c ∈ all, Action.Keeps P (Action.onHost (git.currentBranch c.root))
  change : ∀ c ∈ all, ∀ m, Action.Keeps P (c.change git m)

namespace StepsKeep

variable {git : Git.Client σ} {all : List Checkout} {P : Session σ → Prop}
  (hP : StepsKeep git all P)

include hP

theorem perform {c : Checkout} (hc : c ∈ all) (operation : Checkout.Operation) :
    Action.Keeps P (c.perform git operation) := by
  cases operation with
  | change m => exact hP.change c hc m
  | deleteLeaving branch fallback force =>
    refine (hP.currentBranch c hc).bind fun current? => ?_
    split
    · exact (hP.change c hc _).bind fun _ => hP.change c hc _
    · exact hP.change c hc _
  | pushCreating =>
    refine (hP.currentBranch c hc).bind fun current? => ?_
    cases current? with
    | none => exact .throw _
    | some branch => exact hP.change c hc _

theorem dirtyCheckouts {w : Workspace}
    (hall : ∀ c, c ∈ w.root :: w.withoutProjects ++ w.withProjects → c ∈ all) :
    Action.Keeps P (dirtyCheckouts git w) :=
  hP.forgetAll.bind fun _ => .dirtyAmong (fun c hc => hP.isDirty c (hall c hc)) _

theorem ensureClean {cs : List Checkout} (hcs : ∀ c ∈ cs, c ∈ all) :
    Action.Keeps P (ensureClean git cs) :=
  .ensureClean fun c hc => hP.isDirty c (hcs c hc)

/-! #### Merges -/

theorem execute {r : MergeRequest} {p : MergePlan} (hp : p.checkout ∈ all) :
    Action.Keeps P (r.execute git p) := by
  rw [MergeRequest.execute]
  induction p.steps r.flags with
  | nil => exact .pure _
  | cons step rest ih =>
    cases step with
    | announce message => exact (hP.note _ _).bind fun _ => ih
    | perform operation =>
      rw [MergeRequest.runSteps]
      split
      · exact (hP.perform hp operation).bind fun _ => ih
      · exact ih

theorem executeAll {r : MergeRequest} {ps : List MergePlan} (hps : ∀ p ∈ ps, p.checkout ∈ all) :
    Action.Keeps P (r.executeAll git ps) := by
  induction ps with
  | nil => exact .pure _
  | cons p ps ih =>
    have hrest := ih fun p' hp' => hps p' (List.mem_cons_of_mem _ hp')
    refine (hP.execute (hps p List.mem_cons_self)).attempt.bind fun result => ?_
    cases result with
    | ok u => exact hrest.bind fun _ => .pure _
    | error e => exact (hP.note _ _).bind fun _ => hrest.bind fun _ => .pure _

/-- Merging keeps what the steps keep, if taking a snapshot keeps it too. -/
theorem run (hsnapshot : ∀ c ∈ all, Action.Keeps P (c.snapshot git)) {r : MergeRequest}
    {cs : List Checkout} (hcs : ∀ c ∈ cs, c ∈ all) : Action.Keeps P (r.run git cs) := by
  intro s hs
  have hplanned : P (reached (r.planAll git cs s)) :=
    MergeRequest.keeps_planAll (fun c hc => hsnapshot c (hcs c hc)) s hs
  rw [MergeRequest.run]
  cases hplan : r.planAll git cs s with
  | error e t =>
    rw [hplan] at hplanned
    rw [bind_of_error hplan]
    exact hplanned
  | ok planned t =>
    obtain ⟨plans, skipped⟩ := planned
    rw [hplan] at hplanned
    rw [bind_of_ok hplan]
    have hps : ∀ p ∈ plans, p.checkout ∈ all := fun p hp =>
      hcs p.checkout (MergeRequest.checkout_mem_of_planAll hplan hp)
    simp only
    split
    · exact ((hP.note _ _).bind fun _ => .pure _) t hplanned
    · exact ((hP.note _ _).bind fun _ => (hP.executeAll hps).bind fun _ =>
        hP.forgetAll.bind fun _ => .pure _) t hplanned

/-! #### Commits -/

variable (message : String) (pretend : Bool)

theorem commitEach {cs : List Checkout} (hcs : ∀ c ∈ cs, c ∈ all) :
    Action.Keeps P (commitEach git message pretend cs) := by
  induction cs with
  | nil => exact .pure _
  | cons c cs ih =>
    have hc := hcs c List.mem_cons_self
    have hone : Action.Keeps P (commitOne git message pretend c) := by
      refine (hP.note _ _).bind fun _ => ?_
      split
      · exact .pure _
      · have hwork := (hP.change c hc .addAll).bind fun _ => hP.change c hc (.commit message)
        refine hwork.attempt.bind fun result => ?_
        cases result with
        | ok u => exact .pure _
        | error e => exact (hP.note _ _).bind fun _ => .pure _
    exact hone.bind fun _ =>
      (ih fun c' hc' => hcs c' (List.mem_cons_of_mem _ hc')).bind fun _ => .pure _

theorem commitChanges {w : Workspace} (hroot : w.root ∈ all) {changed : List Checkout}
    (hchanged : ∀ c ∈ changed, c ∈ all) :
    Action.Keeps P (commitChanges git w changed message pretend) := by
  have hinner : ∀ c ∈ (changed.filter fun c => !c.isOutermost).mergeSort commitsBefore, c ∈ all :=
    fun c hc => hchanged c (List.mem_filter.1 (List.mem_mergeSort.1 hc)).1
  have hdue : Action.Keeps P (rootIsDue git w changed) := by
    rw [rootIsDue]
    split
    · exact .pure _
    · refine (hP.isDirty w.root hroot).attempt.bind fun result => ?_
      cases result with
      | ok dirty => exact .pure _
      | error e => exact (hP.note _ _).bind fun _ => .pure _
  have hlast : ∀ due : Bool, ∀ c ∈ if due then [w.root] else [], c ∈ all := by
    intro due c hc
    cases due with
    | false => simp at hc
    | true => exact List.mem_singleton.1 hc ▸ hroot
  exact (hP.commitEach message pretend hinner).bind fun _ => hP.forgetAll.bind fun _ =>
    hdue.bind fun due => (hP.commitEach message pretend (hlast due)).bind fun _ =>
      hP.forgetAll.bind fun _ => .pure _

end StepsKeep

end Grove
