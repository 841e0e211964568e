import Grove.Proofs.MergePlanning
import Grove.Proofs.MergeSteps

/-!
# Pretending to merge

A run that pretends and one that does not plan the same merges, since planning reads neither the
flag nor anything that a merge has changed. They part where a plan is carried out: there the steps
are the same, and the one run announces all of them while the other stops where a step fails.

## What is proved

* `log_runSteps` — carrying out steps tells a first part of their announcements, and all of them if
  none fails.
* `executeAll_told`, `executeAll_pretending` — the same for all plans.
* `run_pretending` — the two runs side by side.
-/

namespace Grove

open Git

variable {σ : Type} (git : Git.Client σ)

/-! ### What is told on the way -/

/-- Operations write no log line. -/
theorem Checkout.quiet_perform (c : Checkout) (op : Checkout.Operation) :
    (c.perform git op).Quiet := by
  cases op with
  | change m => exact c.quiet_change git m
  | deleteLeaving branch fallback force =>
    refine .bind (.onHost _) fun current? => ?_
    split
    · exact .bind (c.quiet_change git _) fun _ => c.quiet_change git _
    · exact c.quiet_change git _
  | pushCreating =>
    refine .bind (.onHost _) fun current? => ?_
    cases current? with
    | none => exact .throw _
    | some branch => exact c.quiet_change git _

/-- Carrying out steps tells a first part of their announcements, and all of them if none fails. -/
theorem log_runSteps (c : Checkout) (steps : List MergeStep) (s : Session σ) :
    ∃ told, told <+: MergeStep.announcements steps ∧
      (reached (MergeRequest.runSteps git false c steps s)).log = s.log ++ told ∧
      (answer (MergeRequest.runSteps git false c steps s) = .ok () →
        told = MergeStep.announcements steps) := by
  induction steps generalizing s with
  | nil => exact ⟨[], List.nil_prefix, by simp [MergeRequest.runSteps], fun _ => rfl⟩
  | cons step rest ih =>
    cases step with
    | announce message =>
      obtain ⟨told, hprefix, hlog, hall⟩ := ih { s with log := s.log ++ [⟨.info, message⟩] }
      rw [runSteps_announce]
      have htell : MergeStep.announcements (.announce message :: rest) =
          ⟨.info, message⟩ :: MergeStep.announcements rest := rfl
      rw [htell]
      refine ⟨⟨.info, message⟩ :: told, (List.prefix_cons_inj _).2 hprefix, ?_, fun hok => ?_⟩
      · rw [hlog, List.append_assoc, List.singleton_append]
      · rw [hall hok]
    | perform op =>
      have hquiet := c.quiet_perform git op s
      rw [runSteps_perform, bind_apply]
      cases h : c.perform git op s with
      | ok u t =>
        obtain ⟨told, hprefix, hlog, hall⟩ := ih t
        rw [h, reached_ok] at hquiet
        rw [hquiet] at hlog
        exact ⟨told, hprefix, hlog, hall⟩
      | error e t =>
        rw [h] at hquiet
        exact ⟨[], List.nil_prefix, by simpa using hquiet, fun hok => by simp at hok⟩

/-! ### All plans -/

/-- What a plan announces. -/
def MergePlan.announcements (p : MergePlan) (flags : MergeFlags) : List LogLine :=
  MergeStep.announcements (p.steps flags)

/-- What is told while plans are carried out, with the checkouts merged and those that failed: a
plan that goes through tells all its announcements, one that fails a first part of them and that it
failed. -/
inductive Told (announced : MergePlan → List LogLine) :
    List MergePlan → List Checkout → List (Checkout × String) → List LogLine → Prop
  /-- There is no plan. -/
  | nil : Told announced [] [] [] []
  /-- The first plan goes through. -/
  | merged {p ps merged failed lines} (rest : Told announced ps merged failed lines) :
    Told announced (p :: ps) (p.checkout :: merged) failed (announced p ++ lines)
  /-- The first plan fails. -/
  | failed {p ps merged failed lines told message} (part : told <+: announced p)
      (rest : Told announced ps merged failed lines) :
    Told announced (p :: ps) merged ((p.checkout, message) :: failed)
      (told ++ ⟨.error, "merge failed"⟩ :: lines)

/-- Where nothing fails, every plan tells all its announcements. -/
theorem Told.eq_of_no_failure {announced : MergePlan → List LogLine} {ps : List MergePlan}
    {merged : List Checkout} {lines : List LogLine} (h : Told announced ps merged [] lines) :
    lines = ps.flatMap announced := by
  generalize hfailed : ([] : List (Checkout × String)) = failed at h
  induction h with
  | nil => rfl
  | merged rest ih => rw [ih hfailed, List.flatMap_cons]
  | failed part rest ih => cases hfailed

namespace MergeRequest

variable (r : MergeRequest)

/-- The request, to be carried out or only to be announced. -/
def pretending (pretend : Bool) : MergeRequest :=
  { r with flags := { r.flags with pretend } }

theorem executeAll_told (hreal : r.flags.pretend = false) (ps : List MergePlan) (s : Session σ) :
    ∃ merged failed lines t, r.executeAll git ps s = .ok (merged, failed) t ∧
      t.log = s.log ++ lines ∧ Told (·.announcements r.flags) ps merged failed lines := by
  induction ps generalizing s with
  | nil => exact ⟨[], [], [], s, rfl, by simp, .nil⟩
  | cons p ps ih =>
    obtain ⟨told, hprefix, hlog, hall⟩ := log_runSteps git p.checkout (p.steps r.flags) s
    rw [← hreal] at hlog hall
    rw [executeAll, bind_of_ok (Action.attempt_apply _ s)]
    cases hanswer : answer (r.execute git p s) with
    | ok u =>
      obtain ⟨merged, failed, lines, t, hrun, hlog', htold⟩ := ih (reached (r.execute git p s))
      obtain rfl : told = p.announcements r.flags := hall hanswer
      refine ⟨p.checkout :: merged, failed, _, t, ?_, ?_, .merged htold⟩
      · simp only [bind_of_ok hrun, pure_apply]
      · rw [hlog', ← List.append_assoc]
        exact congrArg (· ++ lines) hlog
    | error e =>
      obtain ⟨merged, failed, lines, t, hrun, hlog', htold⟩ :=
        ih { reached (r.execute git p s) with
          log := (reached (r.execute git p s)).log ++ [⟨.error, "merge failed"⟩] }
      refine ⟨merged, (p.checkout, e.message) :: failed, _, t, ?_, ?_, .failed hprefix htold⟩
      · simp only [bind_of_ok (Action.note_apply _ _ _), bind_of_ok hrun, pure_apply]
      · rw [hlog', execute, hlog]
        simp

/-- Pretending tells all announcements of all plans and does nothing else. -/
theorem executeAll_pretending (ps : List MergePlan) (s : Session σ) :
    (r.pretending true).executeAll git ps s =
      .ok (ps.map (·.checkout), [])
        { s with log := s.log ++ ps.flatMap (·.announcements r.flags) } := by
  induction ps generalizing s with
  | nil => simp [executeAll]
  | cons p ps ih =>
    have hfirst : (r.pretending true).execute git p s =
        .ok () { s with log := s.log ++ p.announcements r.flags } :=
      runSteps_pretending git p.checkout _ s
    rw [executeAll, bind_of_ok (Action.attempt_apply _ s), hfirst]
    simp only [answer_ok, reached_ok, bind_of_ok (ih _), pure_apply, List.map_cons,
      List.flatMap_cons, List.append_assoc]

/-! ### Whole runs -/

/-- Planning does not read whether the run pretends, nor how the client changes a repository. -/
theorem planAll_pretending (pretend : Bool) (mutate : Path → Mutation → EStateM Failure σ Unit)
    (cs : List Checkout) :
    (r.pretending pretend).planAll { git with mutate } cs = r.planAll git cs := by
  induction cs with
  | nil => rfl
  | cons c cs ih =>
    rw [planAll, planAll, ih]
    rfl

/-- **Pretending tells everything and does nothing.** A run that pretends and one that does not,
from one session, pass over the same checkouts for the same reasons. The one that pretends reports
every planned checkout as merged, leaves the host as it is, and comes out the same however the
client would change a repository. Plan by plan, the other one tells a first part of what is
announced, and all of it where the plan goes through; so the two logs agree where nothing fails. -/
theorem run_pretending (hgit : git.Reading) (cs : List Checkout) (s : Session σ) :
    ∃ plans real pretended t t',
      (r.pretending false).run git cs s = .ok real t ∧
      (r.pretending true).run git cs s = .ok pretended t' ∧
      answer (r.planAll git cs s) = .ok (plans, real.skipped) ∧
      pretended.skipped = real.skipped ∧ pretended.merged = plans.map (·.checkout) ∧
      pretended.failed = [] ∧ t'.host = s.host ∧
      (∀ mutate, (r.pretending true).run { git with mutate } cs s = .ok pretended t') ∧
      (∃ lines, t.log = s.log ++ heading plans :: lines ∧
        Told (·.announcements r.flags) plans real.merged real.failed lines) ∧
      t'.log = s.log ++ heading plans :: plans.flatMap (·.announcements r.flags) ∧
      (real.failed = [] → t.log = t'.log) := by
  obtain ⟨plans, skipped, s₁, hplan, hlog, hhost⟩ := r.planAll_apply git hgit cs s
  have hplan' : ∀ pretend mutate,
      (r.pretending pretend).planAll { git with mutate } cs s = .ok (plans, skipped) s₁ := by
    intro pretend mutate
    rw [planAll_pretending, hplan]
  obtain ⟨merged, failed, lines, u, hexecute, hlines, htold⟩ :=
    (r.pretending false).executeAll_told git rfl plans
      { s₁ with log := s₁.log ++ [heading plans] }
  have hrun := run_of_planAll (hplan' false git.mutate) hexecute
  have hrun' : ∀ mutate, (r.pretending true).run { git with mutate } cs s = _ := fun mutate =>
    run_of_planAll (hplan' true mutate) (r.executeAll_pretending _ plans _)
  have hfull : u.log = s.log ++ heading plans :: lines := by
    rw [hlines, hlog, List.append_assoc, List.singleton_append]
  have hfull' : s₁.log ++ [heading plans] ++ plans.flatMap (·.announcements r.flags) =
      s.log ++ heading plans :: plans.flatMap (·.announcements r.flags) := by
    rw [hlog, List.append_assoc, List.singleton_append]
  refine ⟨plans, _, _, _, _, hrun, hrun' git.mutate, by rw [hplan]; rfl, rfl, rfl, rfl, ?_, hrun',
    ⟨lines, ?_, htold⟩, ?_, fun hnone => ?_⟩
  · rw [settled_host]
    exact hhost
  · rw [settled_log]
    exact hfull
  · rw [settled_log]
    exact hfull'
  · obtain rfl : failed = [] := hnone
    rw [settled_log, settled_log]
    refine hfull.trans (Eq.trans ?_ hfull'.symm)
    rw [htold.eq_of_no_failure]
    rfl

/-- Pretending merges also where a merge would fail. -/
theorem run_pretending_beside_failure :
    let lib := Checkout.outermost ⟨["lib"]⟩
    let app := Checkout.outermost ⟨["app"]⟩
    let r : MergeRequest := ⟨none, "main", none, ⟨false, false, true, false⟩⟩
    let s := Session.start
      ((Recorder.empty.put lib.root (.onFeature [.merge])).put app.root (.onFeature []))
    ∃ report t, (r.pretending true).run Recorder.client [lib, app] s = .ok report t ∧
      report.merged = [lib, app] ∧ report.failed = [] ∧ t.host = s.host := by
  intro lib app r s
  have hplans : (answer (r.planAll Recorder.client [lib, app] s)).toOption.map
      (·.1.map (·.checkout)) = some [lib, app] := by decide +kernel
  obtain ⟨plans, real, pretended, t, t', -, hrun, hplan, -, hmerged, hfailed, hhost, -⟩ :=
    run_pretending Recorder.client r Recorder.reading_client [lib, app] s
  rw [hplan] at hplans
  exact ⟨pretended, t', hrun, hmerged.trans (Option.some.inj hplans), hfailed, hhost⟩

end MergeRequest

end Grove
