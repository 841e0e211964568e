import Grove.Proofs.Recorder
import Grove.Workflow.Merge

/-!
# The steps of a merge in one repository

A plan is a list of steps fixed before the first change, while some of its steps ask which branch is
checked out by then. On recorded repositories the questions have one answer: a step that asks
follows a check-out that succeeded, and nothing in between checks out another branch. So a plan
issues the list `MergePlan.changes` as far as it gets.

## What is proved

* `carries_runSteps` — carrying out steps is a trial in the checkout's own repository
  (`Repo.follow`).
* `follow_steps` — for a plan that merges a branch into another one, this trial tries
  `MergePlan.changes`, one change after another.
-/

namespace Grove

open Git

/-! ### The changes of a plan -/

namespace MergeTarget

/-- The change that checks a target out: a new branch at its start point where none is local. -/
def checkingOut (t : MergeTarget) : Mutation :=
  if t.needsLocalBranch then .create t.name (some t.branch.trackingName) else .switchTo t.name

/-- The change that pushes a target, to a remote that may not have it where none has. -/
def pushing (t : MergeTarget) : Mutation :=
  if t.onRemote then .push else .pushNew Branch.defaultRemote t.name

end MergeTarget

namespace MergePlan

/-- The changes for the second target. -/
def secondChanges (p : MergePlan) (flags : MergeFlags) (t : MergeTarget) : List Mutation :=
  [t.checkingOut, .merge p.source.name] ++ if flags.push then [t.pushing] else []

/-- The changes for the target itself. -/
def mainChanges (p : MergePlan) (flags : MergeFlags) : List Mutation :=
  [p.target.checkingOut, .merge p.source.name] ++
    (if flags.tag then [.tag (tagName p.source.name) true] else []) ++
    (if flags.deleteMerged then [.delete p.source.name false] else []) ++
    if flags.push then [p.target.pushing] else []

/-- The changes that a plan issues when none of them fails. -/
def changes (p : MergePlan) (flags : MergeFlags) : List Mutation :=
  (match p.also? with
    | some t => p.secondChanges flags t
    | none => []) ++ p.mainChanges flags

end MergePlan

/-! ### Steps as a trial -/

/-- What the steps of a merge come to in a repository. -/
def Git.Repo.follow (repo : Repo) : List MergeStep → Trial
  | [] => .idle repo
  | .announce _ :: rest => repo.follow rest
  | .perform op :: rest => (repo.perform op).andThen fun next => next.follow rest

section

variable {σ : Type} (git : Git.Client σ) (c : Checkout) (rest : List MergeStep)

theorem runSteps_announce (pretend : Bool) (message : String) (s : Session σ) :
    MergeRequest.runSteps git pretend c (.announce message :: rest) s =
      MergeRequest.runSteps git pretend c rest
        { s with log := s.log ++ [⟨.info, message⟩] } := rfl

theorem runSteps_perform (op : Checkout.Operation) :
    MergeRequest.runSteps git false c (.perform op :: rest) =
      (c.perform git op >>= fun _ => MergeRequest.runSteps git false c rest) := rfl

theorem runSteps_pretended (op : Checkout.Operation) :
    MergeRequest.runSteps git true c (.perform op :: rest) =
      MergeRequest.runSteps git true c rest := rfl

end

/-- The log lines that steps announce. -/
def MergeStep.announcements (steps : List MergeStep) : List LogLine :=
  steps.filterMap fun
    | .announce message => some ⟨.info, message⟩
    | .perform _ => none

/-- Pretending announces every step and does nothing else, whatever the client would do. -/
theorem runSteps_pretending {σ : Type} (git : Git.Client σ) (c : Checkout) (steps : List MergeStep)
    (s : Session σ) :
    MergeRequest.runSteps git true c steps s =
      .ok () { s with log := s.log ++ MergeStep.announcements steps } := by
  induction steps generalizing s with
  | nil => simp [MergeRequest.runSteps, MergeStep.announcements]
  | cons step rest ih =>
    cases step with
    | announce message =>
      rw [runSteps_announce, ih]
      simp [MergeStep.announcements]
    | perform op =>
      rw [runSteps_pretended, ih]
      rfl

/-- Carrying out steps on a checkout is a trial in its repository. -/
theorem carries_runSteps (c : Checkout) (steps : List MergeStep) (s : Session Recorder) :
    Carries c.root (MergeRequest.runSteps Recorder.client false c steps) s
      ((s.host.repo c.root).follow steps) := by
  induction steps generalizing s with
  | nil => exact .pure
  | cons step rest ih =>
    cases step with
    | announce message =>
      obtain ⟨hanswer, hcarried⟩ := ih { s with log := s.log ++ [⟨.info, message⟩] }
      rw [Carries, runSteps_announce]
      exact ⟨hanswer, hcarried.repo, hcarried.calls, hcarried.queries, hcarried.snapshots⟩
    | perform op =>
      rw [runSteps_perform]
      refine (carries_perform c s op).bind fun s' _ hs' => ?_
      rw [← hs'.repo_root]
      exact ih s'

/-! ### Questions on the way -/

namespace MergeStep

/-- The changes that steps come to while a branch is checked out. -/
def changesOn (branch : String) : List MergeStep → List Mutation
  | [] => []
  | .announce _ :: rest => changesOn branch rest
  | .perform (.change m) :: rest => m :: changesOn ((m.currentAfter none).getD branch) rest
  | .perform (.deleteLeaving name fallback force) :: rest =>
    if branch = name then .switchTo fallback :: .delete name force :: changesOn fallback rest
    else .delete name force :: changesOn branch rest
  | .perform .pushCreating :: rest =>
    .pushNew Branch.defaultRemote branch :: changesOn branch rest

end MergeStep

namespace Git

namespace Repo

/-- Once a branch is checked out, steps try the changes they come to on it. -/
theorem follow_eq_tryAll {repo : Repo} {branch : String} (steps : List MergeStep)
    (hask : .currentBranch ∉ repo.failing) (hcurrent : repo.current? = some branch) :
    repo.follow steps = repo.tryAll (MergeStep.changesOn branch steps) := by
  induction steps generalizing repo branch with
  | nil => rfl
  | cons step rest ih =>
    -- after changes that succeed the question can still be asked, and its answer is known
    have hnext : ∀ (ms : List Mutation) (branch' : String),
        ms.foldl Mutation.currentAfter (some branch) = some branch' →
        (repo.tryAll ms).andThen (fun next => next.follow rest) =
          repo.tryAll (ms ++ MergeStep.changesOn branch' rest) := by
      intro ms branch' hbranch
      rw [tryAll_append]
      refine Trial.andThen_congr fun hnone => ?_
      obtain ⟨hfailing, hcur⟩ := tryAll_frame hnone
      rw [hcurrent, hbranch] at hcur
      exact ih (hfailing ▸ hask) hcur
    have hknown : ∀ k, repo.knowing k = k (some branch) := by
      intro k
      simp [knowing, askCurrent, hask, hcurrent]
    cases step with
    | announce message => exact ih hask hcurrent
    | perform op =>
      cases op with
      | change m =>
        rw [follow, perform, ← tryAll_singleton]
        refine hnext [m] _ ?_
        cases m <;> rfl
      | deleteLeaving name fallback force =>
        simp only [follow, perform, hknown, MergeStep.changesOn, Option.some.injEq]
        split
        · exact hnext [_, _] _ rfl
        · rw [← tryAll_singleton]
          exact hnext [_] _ rfl
      | pushCreating =>
        simp only [follow, perform, hknown, ← tryAll_singleton]
        exact hnext [_] _ rfl

/-- Where the question is made to fail, steps go along the same changes up to the one that asks. -/
theorem tried_follow {repo : Repo} (branch : String) (steps : List MergeStep)
    (hask : .currentBranch ∈ repo.failing) :
    repo.Tried (MergeStep.changesOn branch steps) (repo.follow steps) := by
  induction steps generalizing repo branch with
  | nil => exact ⟨[], [], rfl, rfl, .inl ⟨rfl, rfl, rfl⟩⟩
  | cons step rest ih =>
    have hunknown : ∀ (k : Option String → Trial) (m : Mutation) (ms : List Mutation),
        repo.Tried (m :: ms) ((repo.knowing k).andThen fun next => next.follow rest) := by
      intro k m ms
      simp only [knowing, askCurrent, hask, if_true, Trial.andThen]
      exact ⟨[], m :: ms, rfl, rfl, .inr ⟨m, ms, _, rfl, rfl, .inr ⟨hask, rfl⟩⟩⟩
    cases step with
    | announce message => exact ih branch hask
    | perform op =>
      cases op with
      | change m =>
        cases hm : repo.attempt m with
        | error e => exact .refused hm
        | ok next =>
          refine .cons hm (ih _ ?_)
          rwa [(apply_frame (apply_of_attempt hm).2).1]
      | deleteLeaving name fallback force =>
        simp only [MergeStep.changesOn]
        split
        · exact hunknown _ _ _
        · exact hunknown _ _ _
      | pushCreating => exact hunknown _ _ _

end Repo

end Git

/-! ### A plan comes to its changes -/

namespace MergePlan

variable (p : MergePlan) (flags : MergeFlags) (t : MergeTarget) (rest : List MergeStep)

theorem changesOn_checkOut (branch : String) :
    MergeStep.changesOn branch (p.checkOut t ++ rest) =
      t.checkingOut :: MergeStep.changesOn t.name rest := by
  cases hlocal : t.needsLocalBranch <;>
    simp [checkOut, MergeTarget.checkingOut, hlocal, MergeStep.changesOn, Mutation.currentAfter]

theorem changesOn_pushing :
    MergeStep.changesOn t.name ((if flags.push then p.pushing t else []) ++ rest) =
      (if flags.push then [t.pushing] else []) ++ MergeStep.changesOn t.name rest := by
  cases flags.push <;> cases hremote : t.onRemote <;>
    simp [pushing, MergeTarget.pushing, hremote, MergeStep.changesOn, Mutation.currentAfter]

theorem changesOn_secondSteps (branch : String) :
    MergeStep.changesOn branch (p.secondSteps flags t ++ rest) =
      p.secondChanges flags t ++ MergeStep.changesOn t.name rest := by
  simp only [secondSteps, List.cons_append, List.append_assoc, MergeStep.changesOn,
    changesOn_checkOut, List.nil_append, Mutation.currentAfter, Option.getD_none,
    changesOn_pushing, secondChanges]

/-- The source is another branch than the target, so it is not checked out when it is deleted. -/
theorem changesOn_mainSteps (branch : String) (hne : p.source.name ≠ p.target.name) :
    MergeStep.changesOn branch (p.mainSteps flags) = p.mainChanges flags := by
  have hpush := p.changesOn_pushing flags p.target []
  rw [List.append_nil] at hpush
  simp only [mainSteps, List.cons_append, List.append_assoc, MergeStep.changesOn,
    changesOn_checkOut, List.nil_append, Mutation.currentAfter, Option.getD_none, mainChanges]
  cases flags.tag <;> cases flags.deleteMerged <;>
    simp [MergeStep.changesOn, Mutation.currentAfter, hne.symm, hpush]

theorem follow_checkOut {repo : Repo} (hask : .currentBranch ∉ repo.failing) :
    repo.follow (p.checkOut t ++ rest) =
      repo.tryAll (t.checkingOut :: MergeStep.changesOn t.name rest) := by
  have hone : repo.follow (p.checkOut t ++ rest) =
      (repo.tryOne t.checkingOut).andThen fun next => next.follow rest := by
    cases hlocal : t.needsLocalBranch <;>
      simp [checkOut, MergeTarget.checkingOut, hlocal, Repo.follow, Repo.perform]
  have hcurrent : t.checkingOut.currentAfter repo.current? = some t.name := by
    cases hlocal : t.needsLocalBranch <;>
      simp [MergeTarget.checkingOut, hlocal, Mutation.currentAfter]
  rw [hone, Repo.tryAll]
  refine Trial.andThen_congr fun hnone => ?_
  rw [← Repo.tryAll_singleton] at hnone ⊢
  obtain ⟨hfailing, hcur⟩ := Repo.tryAll_frame hnone
  exact Repo.follow_eq_tryAll rest (hfailing ▸ hask) (hcur.trans hcurrent)

theorem changesOn_steps (branch : String) (hne : p.source.name ≠ p.target.name) :
    MergeStep.changesOn branch (p.steps flags) = p.changes flags := by
  cases halso : p.also? with
  | none =>
    rw [steps, changes, halso]
    exact p.changesOn_mainSteps flags branch hne
  | some t =>
    have h := p.changesOn_secondSteps flags t (p.mainSteps flags) branch
    rw [p.changesOn_mainSteps flags t.name hne] at h
    rw [steps, changes, halso]
    exact h

/-- The first thing that a plan does to its repository is to check a target out. -/
theorem exists_checkOut :
    ∃ message t rest, p.steps flags = .announce message :: (p.checkOut t ++ rest) := by
  cases halso : p.also? with
  | none =>
    simp only [steps, halso, mainSteps, List.nil_append, List.cons_append, List.append_assoc]
    exact ⟨_, p.target, _, rfl⟩
  | some t =>
    simp only [steps, halso, secondSteps, List.cons_append, List.append_assoc]
    exact ⟨_, t, _, rfl⟩

/-- **A plan comes to its changes**: where the branch checked out can be asked for, carrying out the
steps of a plan tries `MergePlan.changes`, one after another. -/
theorem follow_steps {repo : Repo} (hask : .currentBranch ∉ repo.failing)
    (hne : p.source.name ≠ p.target.name) :
    repo.follow (p.steps flags) = repo.tryAll (p.changes flags) := by
  obtain ⟨message, t, rest, hsteps⟩ := p.exists_checkOut flags
  have hchanges := p.changesOn_steps flags t.name hne
  rw [hsteps, MergeStep.changesOn, changesOn_checkOut] at hchanges
  rw [hsteps, Repo.follow, p.follow_checkOut t rest hask, hchanges]

/-- **A plan stops at the first change that fails**: whatever was made to fail, carrying out its
steps goes along `MergePlan.changes`. -/
theorem tried_steps (repo : Repo) (hne : p.source.name ≠ p.target.name) :
    repo.Tried (p.changes flags) (repo.follow (p.steps flags)) := by
  by_cases hask : .currentBranch ∈ repo.failing
  · rw [← p.changesOn_steps flags p.target.name hne]
    exact Repo.tried_follow _ _ hask
  · rw [p.follow_steps flags hask hne]
    exact repo.tried_tryAll _

end MergePlan

end Grove
