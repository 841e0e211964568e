import Grove.Proofs.Recorder
import Grove.Proofs.Branches
import Grove.Workflow.Merge

/-!
# Planning a merge

Every checkout is planned before any is changed, each from what is seen of its branches: the
snapshot remembered of it, or else what the client lists. Planning never fails as a whole, writes no
log line, and sorts the checkouts into those with a plan and those passed over, each in order.

## What is proved

* `planAll_apply` — what planning a list does, for any client whose questions change nothing.
* `planAll_recorded` — on recorded repositories each plan is read off what is seen of its checkout
  at the start, whatever else is planned before it.
* `MergePlan.of_eq_ok` — what a plan says about the branches of its checkout.
-/

namespace Grove

open Git

/-- Asking a client for branches leaves the host as it is. -/
structure Git.Client.Reading {σ : Type} (git : Git.Client σ) : Prop where
  currentBranch : ∀ root h, reached (git.currentBranch root h) = h
  listBranches : ∀ root h, reached (git.listBranches root h) = h

theorem Git.Client.Reading.branches {σ : Type} {git : Git.Client σ} (hgit : git.Reading)
    (root : Path) (h : σ) : reached (git.branches root h) = h :=
  reached_bind (P := fun t => t = h) (hgit.currentBranch root h) fun _ t ht =>
    reached_bind (P := fun u => u = h) ((hgit.listBranches root t).trans ht) fun _ _ hu => hu

/-! ### What is seen of a checkout -/

namespace Checkout

section

variable {σ : Type} (git : Git.Client σ) (c : Checkout) (s : Session σ)

/-- What is seen of a checkout's branches: the snapshot remembered, else the client's answer. -/
def seen : Except Failure Branches :=
  answer (c.snapshot git s)

/-- A snapshot writes no log line and changes nothing on a host that questions leave as it is. -/
theorem reached_snapshot (hgit : git.Reading) :
    (reached (c.snapshot git s)).log = s.log ∧ (reached (c.snapshot git s)).host = s.host := by
  have hhost := hgit.branches c.root s.host
  rw [snapshot_apply]
  cases Ordered.get? Path.order c.root s.snapshots with
  | some branches => exact ⟨rfl, rfl⟩
  | none => cases h : git.branches c.root s.host <;> rw [h] at hhost <;> exact ⟨rfl, hhost⟩

end

/-- Two sessions in which the same snapshot of a checkout is remembered, if any. -/
def RemembersAlike {σ τ : Type} (c : Checkout) (s : Session σ) (s' : Session τ) : Prop :=
  Ordered.get? Path.order c.root s.snapshots = Ordered.get? Path.order c.root s'.snapshots

end Checkout

namespace Git

/-- What a record answers when asked for its branches. -/
def Repo.askBranches (repo : Repo) : Except Failure Branches :=
  if .currentBranch ∈ repo.failing then .error (Recorder.simulated Kind.currentBranch.name)
  else if .listBranches ∈ repo.failing then .error (Recorder.simulated Kind.listBranches.name)
  else .ok repo.snapshot

theorem Recorder.reading_client : Recorder.client.Reading := by
  constructor <;> intro root h <;> simp only [client, ask] <;> split <;> rfl

/-- Recorded repositories answer for their branches from the record, which stays. -/
theorem Recorder.branches_apply (root : Path) (rec : Recorder) :
    client.branches root rec =
      match (rec.repo root).askBranches with
      | .ok branches => .ok branches rec
      | .error e => .error e rec := by
  by_cases hcurrent : Kind.currentBranch ∈ (rec.repo root).failing <;>
    by_cases hlist : Kind.listBranches ∈ (rec.repo root).failing <;>
      simp only [Client.branches, client, ask, Repo.askBranches, Repo.snapshot, bind_apply,
        hcurrent, hlist, if_true, if_false, pure_apply]

end Git

namespace Checkout

variable (c : Checkout) (s : Session Recorder)

theorem seen_recorded :
    c.seen Recorder.client s =
      match Ordered.get? Path.order c.root s.snapshots with
      | some branches => .ok branches
      | none => (s.host.repo c.root).askBranches := by
  rw [seen, snapshot_apply]
  cases Ordered.get? Path.order c.root s.snapshots with
  | some branches => rfl
  | none =>
    simp only [Recorder.branches_apply]
    cases (s.host.repo c.root).askBranches <;> rfl

/-- What is seen of a checkout depends on its own record and snapshot. -/
theorem seen_congr {s s' : Session Recorder} (hmemory : c.RemembersAlike s s')
    (hrepo : s.host.repo c.root = s'.host.repo c.root) :
    c.seen Recorder.client s = c.seen Recorder.client s' := by
  rw [seen_recorded, seen_recorded, hmemory, hrepo]

/-- Looking at one checkout leaves what is seen of every checkout. -/
theorem seen_snapshot (other : Checkout) :
    other.seen Recorder.client (reached (c.snapshot Recorder.client s)) =
      other.seen Recorder.client s := by
  have hhost := (c.reached_snapshot Recorder.client s Recorder.reading_client).2
  rw [seen_recorded, seen_recorded, hhost, snapshot_apply]
  cases hmemory : Ordered.get? Path.order c.root s.snapshots with
  | some branches => rfl
  | none =>
    simp only [Recorder.branches_apply]
    cases hask : (s.host.repo c.root).askBranches with
    | error e => rfl
    | ok branches =>
      simp only [reached_ok]
      by_cases halike : other.root.alike c.root
      · have horder := Path.alike_iff_order.1 halike
        rw [Ordered.get?_congr _ horder, Ordered.get?_congr _ horder, Ordered.get?_put_self,
          hmemory, Recorder.repo_congr _ halike, hask]
      · rw [Ordered.get?_put_of_ne _ (fun h => halike (Path.alike_iff_order.2 h))]

end Checkout

/-! ### Planning -/

namespace MergeRequest

/-- The plan for a checkout of which these branches are seen. -/
def planFrom (r : MergeRequest) (c : Checkout) : Except Failure Branches →
    Except MergeObstacle MergePlan
  | .ok branches => MergePlan.of r branches c
  | .error e => .error (.unlisted e.message)

/-- The plans for some checkouts, by what is seen of each. -/
def plansFrom (r : MergeRequest) (seen : Checkout → Except Failure Branches)
    (cs : List Checkout) : List MergePlan :=
  cs.filterMap fun c =>
    match r.planFrom c (seen c) with
    | .ok plan => some plan
    | .error _ => none

/-- The checkouts passed over, by what is seen of each. -/
def skipsFrom (r : MergeRequest) (seen : Checkout → Except Failure Branches)
    (cs : List Checkout) : List (Checkout × MergeObstacle) :=
  cs.filterMap fun c =>
    match r.planFrom c (seen c) with
    | .ok _ => none
    | .error obstacle => some (c, obstacle)

section

variable {σ : Type} (git : Git.Client σ) (r : MergeRequest)

theorem planOne_apply (c : Checkout) (s : Session σ) :
    r.planOne git c s = .ok (r.planFrom c (c.seen git s)) (reached (c.snapshot git s)) := by
  rw [planOne, bind_of_ok (Action.attempt_apply _ s), ← Checkout.seen]
  cases c.seen git s <;> rfl

/-- Planning answers, writes no log line and changes nothing on the host. -/
theorem planAll_apply (hgit : git.Reading) (cs : List Checkout) (s : Session σ) :
    ∃ plans skipped t, r.planAll git cs s = .ok (plans, skipped) t ∧
      t.log = s.log ∧ t.host = s.host := by
  induction cs generalizing s with
  | nil => exact ⟨[], [], s, rfl, rfl, rfl⟩
  | cons c cs ih =>
    obtain ⟨hlog, hhost⟩ := c.reached_snapshot git s hgit
    obtain ⟨plans, skipped, t, hplan, hlog', hhost'⟩ := ih (reached (c.snapshot git s))
    rw [planAll, bind_of_ok (r.planOne_apply git c s), bind_of_ok hplan]
    cases r.planFrom c (c.seen git s) with
    | ok plan => exact ⟨plan :: plans, skipped, t, rfl, hlog'.trans hlog, hhost'.trans hhost⟩
    | error o => exact ⟨plans, (c, o) :: skipped, t, rfl, hlog'.trans hlog, hhost'.trans hhost⟩

end

/-- On recorded repositories every plan is read off what is seen of its checkout at the start. -/
theorem planAll_recorded (r : MergeRequest) (cs : List Checkout) (s : Session Recorder) :
    answer (r.planAll Recorder.client cs s) =
      .ok (r.plansFrom (·.seen Recorder.client s) cs,
        r.skipsFrom (·.seen Recorder.client s) cs) := by
  induction cs generalizing s with
  | nil => rfl
  | cons c cs ih =>
    have hrest := ih (reached (c.snapshot Recorder.client s))
    simp only [c.seen_snapshot] at hrest
    rw [planAll, bind_of_ok (r.planOne_apply _ c s), bind_of_ok (eq_ok_of_answer hrest)]
    cases hplan : r.planFrom c (c.seen Recorder.client s) with
    | ok plan => simp [plansFrom, skipsFrom, hplan]
    | error o => simp [plansFrom, skipsFrom, hplan]

/-! ### What follows planning -/

/-- The line that opens the log of a run. -/
def heading (plans : List MergePlan) : LogLine :=
  if plans = [] then ⟨.warn, "No checkouts found to merge"⟩
  else ⟨.info, "Have " ++ toString plans.length ++ " checkouts to merge"⟩

/-- A session after its plans: where there were any, what was remembered is forgotten. -/
def settled {σ : Type} (plans : List MergePlan) (t : Session σ) : Session σ :=
  if plans = [] then t else { t with dirtyFlags := [], snapshots := [] }

@[simp] theorem settled_log {σ : Type} (plans : List MergePlan) (t : Session σ) :
    (settled plans t).log = t.log := by
  rw [settled]
  split <;> rfl

@[simp] theorem settled_host {σ : Type} (plans : List MergePlan) (t : Session σ) :
    (settled plans t).host = t.host := by
  rw [settled]
  split <;> rfl

/-- A run plans, writes its heading, carries the plans out and settles. -/
theorem run_of_planAll {σ : Type} {git : Git.Client σ} {r : MergeRequest} {plans : List MergePlan}
    {skipped : List (Checkout × MergeObstacle)} {cs : List Checkout} {s s₁ t : Session σ}
    {merged : List Checkout} {failed : List (Checkout × String)}
    (hplan : r.planAll git cs s = .ok (plans, skipped) s₁)
    (hexecute : r.executeAll git plans { s₁ with log := s₁.log ++ [heading plans] } =
      .ok (merged, failed) t) :
    r.run git cs s = .ok ⟨merged, skipped, failed⟩ (settled plans t) := by
  rw [run, bind_of_ok hplan]
  by_cases hempty : plans = []
  · subst hempty
    obtain ⟨hanswer, rfl⟩ := EStateM.Result.ok.inj hexecute
    obtain ⟨rfl, rfl⟩ := Prod.mk.inj hanswer
    rfl
  · simp only [heading, settled, hempty, if_false] at hexecute ⊢
    rw [bind_of_ok (Action.note_apply _ _ _), bind_of_ok hexecute]
    rfl

end MergeRequest

/-! ### What a plan says -/

theorem MergePlan.source?_eq_ok {r : MergeRequest} {branches : Branches} {b : Branch}
    (h : MergePlan.source? r branches = .ok b) :
    (r.source? <|> branches.current?.map (·.name)) = some b.name := by
  simp only [MergePlan.source?] at h
  split at h
  · next name hname =>
    split at h
    · next hfind =>
      obtain rfl := by simpa using h
      rw [hname, (Branches.findLocal?_eq_some hfind).2.2]
      rfl
    · simp at h
  · next hnone =>
    split at h
    · next hcurrent =>
      obtain rfl := by simpa using h
      rw [hnone, hcurrent]
      rfl
    · simp at h

/-- A plan follows its request, merges a branch into one of another name, and has a second target
only where that is a third branch; each target was found in the snapshot. -/
structure MergePlan.Planned (r : MergeRequest) (branches : Branches) (p : MergePlan) : Prop where
  source : (r.source? <|> branches.current?.map (·.name)) = some p.source.name
  target : branches.find? r.target = some p.target.branch
  also : ∀ t ∈ p.also?, ∃ name, r.also? = some name ∧ branches.find? name = some t.branch
  distinct : p.source.name ≠ p.target.name
  third : ∀ t ∈ p.also?, t.name ≠ p.source.name ∧ t.name ≠ p.target.name

theorem MergePlan.of_eq_ok {r : MergeRequest} {branches : Branches} {c : Checkout} {p : MergePlan}
    (h : MergePlan.of r branches c = .ok p) : p.checkout = c ∧ p.Planned r branches := by
  simp only [MergePlan.of] at h
  split at h
  · simp at h
  · next source hsource =>
    split at h
    · simp at h
    · next target htarget =>
      split at h
      · simp at h
      · next hne =>
        obtain rfl := by simpa using h
        have halso : ∀ t ∈ secondTarget? r branches source target,
            (∃ name, r.also? = some name ∧ branches.find? name = some t.branch) ∧
              t.name ≠ source.name ∧ t.name ≠ target.name := by
          intro t ht
          simp only [secondTarget?, Option.mem_def, Option.map_eq_some_iff,
            Option.filter_eq_some_iff, Option.bind_eq_some_iff, Bool.and_eq_true, bne_iff_ne] at ht
          obtain ⟨b, ⟨hfind, hsrc, htgt⟩, rfl⟩ := ht
          exact ⟨hfind, hsrc, htgt⟩
        exact ⟨rfl, source?_eq_ok hsource, htarget, fun t ht => (halso t ht).1, hne,
          fun t ht => (halso t ht).2⟩

/-- A plan made from what is seen was made from branches that were listed. -/
theorem MergeRequest.planFrom_eq_ok {r : MergeRequest} {c : Checkout}
    {seen : Except Failure Branches} {p : MergePlan} (h : r.planFrom c seen = .ok p) :
    ∃ branches, seen = .ok branches ∧ MergePlan.of r branches c = .ok p := by
  cases seen with
  | ok branches => exact ⟨branches, rfl, h⟩
  | error e => simp [planFrom] at h

/-- A record to merge in: it is on `feature`, and its remote has `dev` and `main`. -/
def Git.Repo.onFeature (failing : List Kind) : Repo :=
  ⟨false, some "feature", ["feature"], ["dev", "main"], [], [], failing⟩

end Grove
