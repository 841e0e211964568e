import Grove.Proofs.MergePlans

/-!
# How the targets of a merge are pushed

A target is pushed plainly where some remote carried a branch of its name when the merge was
planned, whichever remote that was, and else for the first time to `origin`. So where only another
remote carried the name, the plain push is used although `origin` has no such branch.

## What is proved

* `MergeStep.Issue.pushes` — the pushes among the changes that steps come to.
* `Branches.Pushes.plain_iff_default_iff` — when the plain push goes with `origin`.
* `pushes_follow_remotes` — the pushes in the trace of every run.
-/

namespace Grove

open Git Event

/-! ### Pushes by a snapshot -/

/-- The push of a branch by a snapshot: plainly where a remote carries the name, and for the first
time, to the default remote, where none does. -/
inductive Branches.Pushes (bs : Branches) (name : String) : Mutation → Prop
  /-- A remote carries the name. -/
  | plain {remote : String} (carried : bs.Carries remote name) : Pushes bs name .push
  /-- No remote does. -/
  | first {branch : String} (missing : ∀ remote, ¬bs.Carries remote name) :
    Pushes bs name (.pushNew Branch.defaultRemote branch)

namespace Branches.Pushes

variable {bs : Branches} {name : String} {m : Mutation}

theorem plain_iff (h : bs.Pushes name m) : m = .push ↔ ∃ remote, bs.Carries remote name := by
  cases h with
  | plain carried => exact iff_of_true rfl ⟨_, carried⟩
  | first missing => exact iff_of_false (by simp) fun ⟨remote, carried⟩ => missing remote carried

/-- The plain push is the one for names that the default remote carries, unless only another remote
carries the name. -/
theorem plain_iff_default_iff (h : bs.Pushes name m) :
    (m = .push ↔ bs.Carries Branch.defaultRemote name) ↔
      ∀ remote, bs.Carries remote name → bs.Carries Branch.defaultRemote name := by
  rw [h.plain_iff]
  constructor
  · exact fun hiff remote hcarries => hiff.1 ⟨remote, hcarries⟩
  · exact fun hall => ⟨fun ⟨remote, hcarries⟩ => hall remote hcarries, fun hcarries => ⟨_, hcarries⟩⟩

end Branches.Pushes

/-! ### The pushes of a plan -/

namespace MergeStep

/-- The operation by which a step pushes. -/
def push? : MergeStep → Option Checkout.Operation
  | .perform (.change m) => if m.isPush then some (.change m) else none
  | .perform .pushCreating => some .pushCreating
  | _ => none

/-- The pushes among the changes that steps come to are those of the steps that push. -/
theorem Issue.pushes {steps : List MergeStep} {ms : List Mutation} (h : Issue steps ms) :
    List.Forall₂ (fun op m => op.Issues [m]) (steps.filterMap push?) (ms.filter Mutation.isPush) := by
  induction h with
  | nil => exact .nil
  | announce later ih => exact ih
  | @perform op rest ms ms' first later ih =>
    rw [List.filter_append]
    cases first with
    | change m =>
      cases hpush : m.isPush with
      | false => simpa [List.filterMap_cons, push?, hpush] using ih
      | true => simpa [List.filterMap_cons, push?, hpush] using ⟨.change m, ih⟩
    | leaving | deleting => exact ih
    | pushing branch => exact .cons (.pushing branch) ih

end MergeStep

/-- The operation by which a target is pushed. -/
def MergeTarget.pushOperation (t : MergeTarget) : Checkout.Operation :=
  if t.onRemote then .change .push else .pushCreating

namespace MergePlan

/-- A plan that pushes pushes its targets, one after another. -/
theorem pushes_steps (p : MergePlan) {flags : MergeFlags} (hpush : flags.push = true) :
    (p.steps flags).filterMap MergeStep.push? = p.targets.map MergeTarget.pushOperation := by
  refine p.filterMap_steps flags (fun _ => rfl) (fun _ => rfl) (fun _ _ => rfl) (fun _ _ _ => rfl)
    fun t => ?_
  cases hlocal : t.needsLocalBranch <;> cases hremote : t.onRemote <;>
    simp [checkOut, pushing, MergeTarget.pushOperation, List.filterMap_cons, MergeStep.push?,
      Mutation.isPush, hlocal, hremote, hpush]

/-- A target of a plan is known to be on a remote where the snapshot has it there. -/
theorem onRemote_iff {r : MergeRequest} {bs : Branches} {c : Checkout} {p : MergePlan}
    (h : MergePlan.of r bs c = .ok p) {t : MergeTarget} (ht : t ∈ p.targets) :
    t.onRemote = true ↔ ∃ remote, bs.Carries remote t.name := by
  obtain ⟨source, target, -, -, -, rfl⟩ := of_eq_ok_iff.1 h
  obtain ⟨b, rfl⟩ : ∃ b, t = MergeTarget.of bs b := by
    rcases List.mem_append.1 ht with ht | ht
    · obtain ⟨b, -, rfl⟩ := Option.map_eq_some_iff.1 (Option.mem_toList.1 ht)
      exact ⟨b, rfl⟩
    · exact ⟨target, List.mem_singleton.1 ht⟩
  exact Branches.isSome_findRemote?_iff

/-- The pushes among some changes are those of some targets, each as the snapshot says. -/
def Pushed (bs : Branches) (ts : List MergeTarget) (ms : List Mutation) : Prop :=
  List.Forall₂ (fun t m => bs.Pushes t.name m) ts (ms.filter Mutation.isPush)

/-- The steps of a plan that pushes come to pushes of all its targets. -/
theorem pushed_of_issue {r : MergeRequest} {bs : Branches} {c : Checkout} {p : MergePlan}
    (hpush : r.flags.push = true) (hof : MergePlan.of r bs c = .ok p) {ms : List Mutation}
    (h : MergeStep.Issue (p.steps r.flags) ms) : Pushed bs p.targets ms := by
  have hpushes := h.pushes
  rw [p.pushes_steps hpush, List.forall₂_map_left_iff] at hpushes
  refine ((List.forall₂_and_left _ _).2 ⟨fun t ht => onRemote_iff hof ht, hpushes⟩).imp ?_
  rintro t m ⟨hremote, hissues⟩
  rw [MergeTarget.pushOperation] at hissues
  split at hissues
  · next hon =>
    cases hissues
    obtain ⟨remote, hcarries⟩ := hremote.1 hon
    exact .plain hcarries
  · next hoff =>
    cases hissues
    exact .first fun remote hcarries => hoff (hremote.2 ⟨remote, hcarries⟩)

/-- A first part of the changes pushes a first part of the targets. -/
theorem Pushed.exists_part {bs : Branches} {ts : List MergeTarget} {ms ms' : List Mutation}
    (h : Pushed bs ts ms) (hpre : ms' <+: ms) : ∃ ts', ts' <+: ts ∧ Pushed bs ts' ms' := by
  have hpart := List.prefix_iff_eq_take.1 (hpre.filter Mutation.isPush)
  have htake := List.forall₂_take (ms'.filter Mutation.isPush).length h
  rw [← hpart] at htake
  exact ⟨_, List.take_prefix _ _, htake⟩

end MergePlan

/-! ### Runs -/

namespace MergeRequest

variable {σ : Type}

/-- **Pushes follow the remotes.** In a run that pushes and does not pretend, through any client,
the pushes on the way of a plan are those of its targets, in order, as far as the plan gets. A
target is pushed plainly exactly where some remote carried its name in the snapshot that the plan
was made from, and for the first time to `origin` otherwise. -/
theorem pushes_follow_remotes (git : Git.Client σ) (r : MergeRequest) (hpush : r.flags.push = true)
    (hreal : r.flags.pretend = false) (cs : List Checkout) (s : Session (Traced σ)) :
    ∃ plans report t asked parts, r.run git.traced cs s = .ok report t ∧
      r.Planning git.traced s cs plans report.skipped ∧
      t.host.events = s.host.events ++ asked ++ parts.flatten ∧ mutations asked = [] ∧
      List.Forall₂ (fun p part => ChangesOnly p.checkout.root part ∧
        ∀ bs, MergePlan.of r bs p.checkout = .ok p →
          ∃ ts, ts <+: p.targets ∧ (p.checkout ∉ report.failed.map (·.1) → ts = p.targets) ∧
            List.Forall₂ (fun t m => bs.Pushes t.name m) ts
              ((mutations part).filter Mutation.isPush)) plans parts := by
  obtain ⟨plans, report, t, asked, parts, hrun, hplanning, hevents, hasked, hcarried⟩ :=
    run_carries git r cs s
  refine ⟨plans, report, t, asked, parts, hrun, hplanning, hevents, hasked, hcarried.imp ?_⟩
  rintro p part ⟨hown, ms, hissue, hpre, hall⟩
  have hdue : p.due r.flags = p.steps r.flags := by simp [MergePlan.due, hreal]
  rw [hdue] at hissue
  refine ⟨hown, fun bs hof => ?_⟩
  have hpushed := MergePlan.pushed_of_issue hpush hof hissue
  by_cases hfailed : p.checkout ∈ report.failed.map (·.1)
  · obtain ⟨ts, hts, hpart⟩ := hpushed.exists_part hpre
    exact ⟨ts, hts, fun h => absurd hfailed h, hpart⟩
  · rw [hall hfailed]
    exact ⟨p.targets, List.prefix_rfl, fun _ => rfl, hpushed⟩

/-- With one target on `origin` and one on no remote, the first is pushed plainly and the second for
the first time. -/
theorem pushes_follow_remotes_of_two :
    let lib := Checkout.outermost ⟨["lib"]⟩
    let r : MergeRequest := ⟨none, "main", some "dev", ⟨false, false, true, false⟩⟩
    let repo := { Repo.onFeature [] with locals := ["feature", "main"], remotes := ["dev"] }
    let s : Session (Traced Recorder) := .start ⟨Recorder.empty.put lib.root repo, []⟩
    ∃ report t, ∃ ts : List MergeTarget, r.run Recorder.client.traced [lib] s = .ok report t ∧
      (mutations t.host.events).filter Mutation.isPush = [.push, .pushNew "origin" "main"] ∧
      List.Forall₂ (fun t m => repo.snapshot.Pushes t.name m) ts
        [.push, .pushNew "origin" "main"] := by
  intro lib r repo s
  have hseen : lib.seen Recorder.client.traced s = .ok repo.snapshot := by decide +kernel
  have hplan : (r.planFrom lib (.ok repo.snapshot)).isOk = true := by decide +kernel
  have hpushes : (mutations
      (reached (r.run Recorder.client.traced [lib] s)).host.events).filter Mutation.isPush =
        [.push, .pushNew "origin" "main"] := by decide +kernel
  obtain ⟨plans, report, t, asked, parts, hrun, hplanning, hevents, hasked, hparts⟩ :=
    pushes_follow_remotes Recorder.client r rfl rfl [lib] s
  rw [hrun, reached_ok] at hpushes
  generalize report.skipped = skipped at hplanning
  -- the one checkout has a plan, made from its own record
  cases hplanning with
  | skipped reason rest =>
    rw [hseen] at reason
    rw [reason] at hplan
    simp [Except.isOk, Except.toBool] at hplan
  | @planned _ _ _ p _ _ plan rest =>
    cases rest
    cases hparts with
    | cons first later =>
      cases later
      rw [hseen] at plan
      have hof : MergePlan.of r repo.snapshot lib = .ok p := plan
      obtain ⟨ts, -, -, hpart⟩ := first.2 repo.snapshot ((MergePlan.of_eq_ok hof).1.symm ▸ hof)
      refine ⟨report, t, ts, hrun, hpushes, ?_⟩
      rw [hevents, mutations_append, mutations_append, hasked] at hpushes
      rw [← hpushes]
      simpa [s, Session.start, mutations] using hpart

/-- Where only the remote `fork` has `develop`, a merge into it pushes plainly, though `origin` has
no such branch. -/
theorem pushes_plainly_beside_fork :
    let lib := Checkout.outermost ⟨["lib"]⟩
    let r : MergeRequest := ⟨none, "develop", none, ⟨false, false, true, false⟩⟩
    let repo := { Repo.onFeature [] with
      locals := ["develop", "feature"], remotes := [],
      others := [Branch.remoteNamed "fork" "develop"] }
    ¬repo.snapshot.Carries Branch.defaultRemote "develop" ∧
      ∃ report t, r.run Recorder.client [lib] (.start (Recorder.empty.put lib.root repo)) =
        .ok report t ∧ report.merged = [lib] ∧
        t.host.callsAt lib.root = ["switch develop", "merge feature", "push"] := by
  intro lib r repo
  have hmerged : (answer (r.run Recorder.client [lib]
      (.start (Recorder.empty.put lib.root repo)))).toOption.map (·.merged) = some [lib] := by
    decide +kernel
  have hcalls : (reached (r.run Recorder.client [lib]
      (.start (Recorder.empty.put lib.root repo)))).host.callsAt lib.root =
        ["switch develop", "merge feature", "push"] := by decide +kernel
  refine ⟨by rw [Branches.Carries]; decide +kernel, ?_⟩
  cases hrun : r.run Recorder.client [lib] (.start (Recorder.empty.put lib.root repo)) with
  | error e t => simp [hrun, Except.toOption] at hmerged
  | ok report t =>
    rw [hrun] at hmerged hcalls
    exact ⟨report, t, rfl, Option.some.inj hmerged, hcalls⟩

end MergeRequest

end Grove
