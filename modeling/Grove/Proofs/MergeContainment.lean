import Grove.Proofs.MergePlanning
import Grove.Proofs.MergeSteps
import Mathlib.Data.List.Pairwise

/-!
# A failure stays in its checkout

On recorded repositories a run comes to one trial for each checkout: what the steps of its plan do
to its own record, if it has a plan. The record and what is seen of the checkout at the start
decide the trial, so neither the other checkouts nor their failures matter.

## What is proved

* `executeAll_recorded` — carrying out plans is a trial for each, in its own repository.
* `run_recorded` — a run sorts the checkouts by their verdicts and carries out the trials of those
  that have a plan.
* `run_contained` — every checkout is in one list of the report, stops at its first failure, and
  fares in every run as it does in this one.
-/

namespace Grove

open Git

namespace MergeRequest

variable (r : MergeRequest)

/-- What carrying out a plan comes to in its repository. -/
def trial (s : Session Recorder) (p : MergePlan) : Trial :=
  if r.flags.pretend then .idle (s.host.repo p.checkout.root)
  else (s.host.repo p.checkout.root).follow (p.steps r.flags)

theorem trial_congr {s s' : Session Recorder} {p : MergePlan}
    (h : s.host.repo p.checkout.root = s'.host.repo p.checkout.root) :
    r.trial s p = r.trial s' p := by
  rw [trial, trial, h]

theorem carries_execute (p : MergePlan) (s : Session Recorder) :
    Carries p.checkout.root (r.execute Recorder.client p) s (r.trial s p) := by
  rw [execute, trial]
  cases r.flags.pretend with
  | true =>
    rw [Carries, runSteps_pretending]
    refine ⟨rfl, fun other => ?_, by simp [Trial.idle], rfl, rfl⟩
    split
    · next h => exact Recorder.repo_congr _ h
    · rfl
  | false => exact carries_runSteps _ _ s

/-- From `s` to `t` the trial of every plan took place, and nothing else. -/
structure CarriedOut (trial : MergePlan → Trial) (ps : List MergePlan)
    (s t : Session Recorder) : Prop where
  own : ∀ p ∈ ps, t.host.repo p.checkout.root = (trial p).repo
  others : ∀ root, (∀ p ∈ ps, ¬root.alike p.checkout.root) → t.host.repo root = s.host.repo root
  calls : t.host.calls = s.host.calls ++
    ps.flatMap fun p => (trial p).tried.map fun m => (p.checkout.root, m.call)

/-- Plans for different checkouts. -/
def Apart (ps : List MergePlan) : Prop :=
  ps.Pairwise fun p q => ¬p.checkout.same q.checkout

/-- The trial of one plan and then those of the others, in other repositories. -/
theorem CarriedOut.cons {trial : MergePlan → Trial} {p : MergePlan} {ps : List MergePlan}
    {s s' t : Session Recorder} (hp : ∀ q ∈ ps, ¬p.checkout.same q.checkout)
    (hfirst : Carried p.checkout.root (trial p) s s') (hrest : CarriedOut trial ps s' t) :
    CarriedOut trial (p :: ps) s t := by
  refine ⟨?_, fun root hroot => ?_, ?_⟩
  · intro q hq
    rcases List.mem_cons.1 hq with rfl | hq
    · rw [hrest.others _ hp, hfirst.repo_root]
    · exact hrest.own q hq
  · rw [hrest.others root fun q hq => hroot q (List.mem_cons_of_mem _ hq)]
    exact hfirst.repo_of_not_alike (hroot p List.mem_cons_self)
  · rw [hrest.calls, hfirst.calls, List.flatMap_cons, List.append_assoc]

private theorem filter_calls_eq_nil {trial : MergePlan → Trial} {ps : List MergePlan} {root : Path}
    (hroot : ∀ p ∈ ps, ¬root.alike p.checkout.root) :
    (ps.flatMap fun p => (trial p).tried.map fun m => (p.checkout.root, m.call)).filter
      (fun call => call.1.alike root) = [] := by
  simp only [List.filter_eq_nil_iff, List.mem_flatMap, List.mem_map]
  rintro _ ⟨p, hp, m, -, rfl⟩
  rw [Path.alike_comm]
  exact hroot p hp

theorem CarriedOut.callsAt_others {trial : MergePlan → Trial} {ps : List MergePlan}
    {s t : Session Recorder} (h : CarriedOut trial ps s t) {root : Path}
    (hroot : ∀ p ∈ ps, ¬root.alike p.checkout.root) :
    t.host.callsAt root = s.host.callsAt root := by
  rw [Recorder.callsAt, h.calls, List.filter_append, filter_calls_eq_nil hroot, List.append_nil,
    Recorder.callsAt]

/-- The calls that reach the repository of a plan are those of its own trial. -/
theorem CarriedOut.callsAt_own {trial : MergePlan → Trial} {ps : List MergePlan}
    {s t : Session Recorder} (h : CarriedOut trial ps s t) (hapart : Apart ps) {p : MergePlan}
    (hp : p ∈ ps) :
    t.host.callsAt p.checkout.root =
      s.host.callsAt p.checkout.root ++ (trial p).tried.map Mutation.call := by
  obtain ⟨before, after, rfl⟩ := List.append_of_mem hp
  obtain ⟨-, hafter, hbefore⟩ := List.pairwise_append.1 hapart
  have hbefore : ∀ q ∈ before, ¬p.checkout.root.alike q.checkout.root := fun q hq => by
    rw [Path.alike_comm]
    exact hbefore q hq p List.mem_cons_self
  have hown : ((trial p).tried.map fun m => (p.checkout.root, m.call)).filter
      (fun call => call.1.alike p.checkout.root) =
        (trial p).tried.map fun m => (p.checkout.root, m.call) :=
    List.filter_eq_self.2 (by simp)
  rw [Recorder.callsAt, h.calls, List.flatMap_append, List.flatMap_cons]
  simp only [List.filter_append, filter_calls_eq_nil hbefore,
    filter_calls_eq_nil (List.pairwise_cons.1 hafter).1, hown, List.map_append]
  simp [Recorder.callsAt]

/-- Carrying out plans never fails as a whole: each plan's trial takes place, and the checkouts are
sorted by whether it failed. -/
theorem executeAll_recorded {trial : MergePlan → Trial} {ps : List MergePlan}
    {s : Session Recorder} (hapart : Apart ps) (htrial : ∀ p ∈ ps, r.trial s p = trial p) :
    ∃ t, r.executeAll Recorder.client ps s =
        .ok ((ps.filter fun p => (trial p).failure?.isNone).map (·.checkout),
          ps.filterMap fun p => (trial p).failure?.map fun e => (p.checkout, e.message)) t ∧
      CarriedOut trial ps s t := by
  induction ps generalizing s with
  | nil => exact ⟨s, rfl, by simp, fun _ _ => rfl, by simp⟩
  | cons p ps ih =>
    obtain ⟨hp, hps⟩ := List.pairwise_cons.1 hapart
    obtain ⟨hanswer, hcarried⟩ := r.carries_execute p s
    rw [htrial p List.mem_cons_self] at hanswer hcarried
    -- the other plans find their records as they were, whatever became of this one
    have hnext : ∀ s' : Session Recorder, Carried p.checkout.root (trial p) s s' →
        ∀ q ∈ ps, r.trial s' q = trial q := by
      intro s' hs' q hq
      have hne := hp q hq
      rw [Checkout.same, Path.alike_comm] at hne
      rw [← htrial q (List.mem_cons_of_mem _ hq)]
      exact r.trial_congr (hs'.repo_of_not_alike hne)
    rw [executeAll, bind_of_ok (Action.attempt_apply _ s), hanswer, Trial.answer]
    cases hfail : (trial p).failure? with
    | none =>
      obtain ⟨t, hrun, hout⟩ := ih hps (hnext _ hcarried)
      refine ⟨t, ?_, .cons hp hcarried hout⟩
      simp only [bind_of_ok hrun, pure_apply, List.filter_cons, List.filterMap_cons, hfail,
        Option.isNone_none, if_true, List.map_cons, Option.map_none]
    | some e =>
      have hnoted : Carried p.checkout.root (trial p) s
          { reached (r.execute Recorder.client p s) with
            log := (reached (r.execute Recorder.client p s)).log ++ [⟨.error, "merge failed"⟩] } :=
        ⟨hcarried.repo, hcarried.calls, hcarried.queries, hcarried.snapshots⟩
      obtain ⟨t, hrun, hout⟩ := ih hps (hnext _ hnoted)
      refine ⟨t, ?_, .cons hp hnoted hout⟩
      simp only [bind_of_ok (Action.note_apply _ _ _), bind_of_ok hrun, pure_apply,
        List.filter_cons, List.filterMap_cons, hfail, Option.isNone_some, Bool.false_eq_true,
        if_false, Option.map_some]

end MergeRequest

/-! ### Reports by verdict -/

/-- What a run makes of a checkout. -/
inductive MergeVerdict where
  /-- Its plan went through. -/
  | merged
  /-- It has no plan. -/
  | skipped (obstacle : MergeObstacle)
  /-- A step of its plan failed. -/
  | failed (message : String)
  deriving DecidableEq

namespace MergeReport

/-- The report of some checkouts with a verdict on each. -/
def of (verdict : Checkout → MergeVerdict) (cs : List Checkout) : MergeReport where
  merged := cs.filter (verdict · = .merged)
  skipped := cs.filterMap fun c =>
    match verdict c with
    | .skipped obstacle => some (c, obstacle)
    | _ => none
  failed := cs.filterMap fun c =>
    match verdict c with
    | .failed message => some (c, message)
    | _ => none

/-- Every checkout is in one of the three lists, and each list is in order. -/
structure Sorts (report : MergeReport) (cs : List Checkout) : Prop where
  merged : report.merged.Sublist cs
  skipped : (report.skipped.map (·.1)).Sublist cs
  failed : (report.failed.map (·.1)).Sublist cs
  each : (report.merged ++ report.skipped.map (·.1) ++ report.failed.map (·.1)).Perm cs

variable {verdict : Checkout → MergeVerdict} {cs : List Checkout} {c : Checkout}

theorem of_sorts : (of verdict cs).Sorts cs := by
  induction cs with
  | nil => exact ⟨.slnil, .slnil, .slnil, .nil⟩
  | cons c cs ih =>
    obtain ⟨hmerged, hskipped, hfailed, heach⟩ := ih
    simp only [of] at hmerged hskipped hfailed heach
    cases hc : verdict c with
    | merged =>
      constructor <;> simp only [of, List.filter_cons, List.filterMap_cons, hc, decide_true,
        if_true]
      · exact hmerged.cons_cons c
      · exact hskipped.cons c
      · exact hfailed.cons c
      · exact heach.cons c
    | skipped obstacle =>
      constructor <;> simp only [of, List.filter_cons, List.filterMap_cons, hc, reduceCtorEq,
        decide_false, Bool.false_eq_true, if_false, List.map_cons]
      · exact hmerged.cons c
      · exact hskipped.cons_cons c
      · exact hfailed.cons c
      · rw [List.append_assoc] at heach ⊢
        exact List.perm_middle.trans (heach.cons c)
    | failed message =>
      constructor <;> simp only [of, List.filter_cons, List.filterMap_cons, hc, reduceCtorEq,
        decide_false, Bool.false_eq_true, if_false, List.map_cons]
      · exact hmerged.cons c
      · exact hskipped.cons c
      · exact hfailed.cons_cons c
      · exact List.perm_middle.trans (heach.cons c)

theorem mem_merged_of : c ∈ (of verdict cs).merged ↔ c ∈ cs ∧ verdict c = .merged := by
  simp [of]

theorem mem_skipped_of {obstacle : MergeObstacle} :
    (c, obstacle) ∈ (of verdict cs).skipped ↔ c ∈ cs ∧ verdict c = .skipped obstacle := by
  simp only [of, List.mem_filterMap]
  constructor
  · rintro ⟨c', hc', h⟩
    cases hv : verdict c' with
    | skipped o =>
      simp only [hv, Option.some.injEq, Prod.mk.injEq] at h
      obtain ⟨rfl, rfl⟩ := h
      exact ⟨hc', hv⟩
    | merged | failed _ => simp [hv] at h
  · exact fun ⟨hc, hv⟩ => ⟨c, hc, by simp [hv]⟩

theorem mem_failed_of {message : String} :
    (c, message) ∈ (of verdict cs).failed ↔ c ∈ cs ∧ verdict c = .failed message := by
  simp only [of, List.mem_filterMap]
  constructor
  · rintro ⟨c', hc', h⟩
    cases hv : verdict c' with
    | failed m =>
      simp only [hv, Option.some.injEq, Prod.mk.injEq] at h
      obtain ⟨rfl, rfl⟩ := h
      exact ⟨hc', hv⟩
    | merged | skipped _ => simp [hv] at h
  · exact fun ⟨hc, hv⟩ => ⟨c, hc, by simp [hv]⟩

end MergeReport

/-! ### Runs -/

namespace MergeRequest

variable (r : MergeRequest)

/-- The plan for a checkout, read off a session. -/
def planIn (s : Session Recorder) (c : Checkout) : Except MergeObstacle MergePlan :=
  r.planFrom c (c.seen Recorder.client s)

/-- What a run makes of a checkout, read off the session it starts from. -/
def verdict (s : Session Recorder) (c : Checkout) : MergeVerdict :=
  match r.planIn s c with
  | .error obstacle => .skipped obstacle
  | .ok p =>
    match (r.trial s p).failure? with
    | none => .merged
    | some e => .failed e.message

variable {r}

theorem checkout_of_planIn {s : Session Recorder} {c : Checkout} {p : MergePlan}
    (h : r.planIn s c = .ok p) : p.checkout = c ∧ p.source.name ≠ p.target.name := by
  obtain ⟨branches, -, hof⟩ := planFrom_eq_ok h
  obtain ⟨hc, hplanned⟩ := MergePlan.of_eq_ok hof
  exact ⟨hc, hplanned.distinct⟩

variable (r)

/-- The plans of some checkouts, carried out, sort the checkouts by verdict. -/
theorem report_of_plans (s : Session Recorder) (cs : List Checkout) :
    (⟨((r.plansFrom (·.seen Recorder.client s) cs).filter
          fun p => (r.trial s p).failure?.isNone).map (·.checkout),
        r.skipsFrom (·.seen Recorder.client s) cs,
        (r.plansFrom (·.seen Recorder.client s) cs).filterMap
          fun p => (r.trial s p).failure?.map fun e => (p.checkout, e.message)⟩ : MergeReport) =
      .of (r.verdict s) cs := by
  induction cs with
  | nil => rfl
  | cons c cs ih =>
    simp only [plansFrom, skipsFrom, MergeReport.of, MergeReport.mk.injEq] at ih
    obtain ⟨hmerged, hskipped, hfailed⟩ := ih
    cases hplan : r.planFrom c (c.seen Recorder.client s) with
    | error o =>
      have hv : r.verdict s c = .skipped o := by simp only [verdict, planIn, hplan]
      simp only [plansFrom, skipsFrom, MergeReport.of, List.filterMap_cons, List.filter_cons, hplan,
        hv, hmerged, hskipped, hfailed, reduceCtorEq, decide_false,
        Bool.false_eq_true, if_false]
    | ok p =>
      obtain ⟨hc, -⟩ := checkout_of_planIn hplan
      cases htrial : (r.trial s p).failure? with
      | none =>
        have hv : r.verdict s c = .merged := by simp only [verdict, planIn, hplan, htrial]
        simp only [plansFrom, skipsFrom, MergeReport.of, List.filterMap_cons, List.filter_cons,
          hplan, hv, htrial, Option.isNone_none, if_true, List.map_cons, hc,
          hmerged, hskipped, hfailed, decide_true, Option.map_none]
      | some e =>
        have hv : r.verdict s c = .failed e.message := by
          simp only [verdict, planIn, hplan, htrial]
        simp only [plansFrom, skipsFrom, MergeReport.of, List.filterMap_cons, List.filter_cons,
          hplan, hv, htrial, Option.isNone_some, Bool.false_eq_true, if_false, hc,
          hmerged, hskipped, hfailed, reduceCtorEq, decide_false, Option.map_some]

theorem apart_plansFrom {seen : Checkout → Except Failure Branches} {cs : List Checkout}
    (hdistinct : cs.Pairwise fun a b => ¬a.same b) : Apart (r.plansFrom seen cs) := by
  refine List.pairwise_filterMap.2 (hdistinct.imp fun {a b} hab p hp q hq => ?_)
  cases ha : r.planFrom a (seen a) with
  | error o => simp [ha] at hp
  | ok p' =>
    cases hb : r.planFrom b (seen b) with
    | error o => simp [hb] at hq
    | ok q' =>
      obtain rfl : p' = p := by simpa [ha] using hp
      obtain rfl : q' = q := by simpa [hb] using hq
      obtain ⟨_, -, hofa⟩ := planFrom_eq_ok ha
      obtain ⟨_, -, hofb⟩ := planFrom_eq_ok hb
      rw [(MergePlan.of_eq_ok hofa).1, (MergePlan.of_eq_ok hofb).1]
      exact hab

/-- A run sorts the checkouts by what each one's own record and snapshot make of it, and carries out
the trials of those that have a plan. -/
theorem run_recorded {cs : List Checkout} {s : Session Recorder}
    (hdistinct : cs.Pairwise fun a b => ¬a.same b) :
    ∃ t, r.run Recorder.client cs s = .ok (.of (r.verdict s) cs) t ∧
      CarriedOut (r.trial s) (r.plansFrom (·.seen Recorder.client s) cs) s t := by
  have hplan := eq_ok_of_answer (r.planAll_recorded cs s)
  have hhost : (reached (r.planAll Recorder.client cs s)).host = s.host := by
    obtain ⟨plans, skipped, t, hrun, -, hhost⟩ :=
      r.planAll_apply Recorder.client Recorder.reading_client cs s
    rw [hrun]
    exact hhost
  have hapart : Apart (r.plansFrom (·.seen Recorder.client s) cs) := r.apart_plansFrom hdistinct
  rw [← r.report_of_plans s cs]
  generalize r.plansFrom (·.seen Recorder.client s) cs = ps at *
  have htrial : ∀ log, ∀ p ∈ ps,
      r.trial { reached (r.planAll Recorder.client cs s) with log } p = r.trial s p :=
    fun _ p _ => r.trial_congr (congrArg (Recorder.repo · p.checkout.root) hhost)
  obtain ⟨t, hexecute, hout⟩ := r.executeAll_recorded hapart (htrial _)
  refine ⟨_, run_of_planAll hplan hexecute, ?_, ?_, ?_⟩ <;> rw [settled_host]
  · exact hout.own
  · exact fun root hroot =>
      (hout.others root hroot).trans (congrArg (Recorder.repo · root) hhost)
  · exact hout.calls.trans (by rw [hhost])

/-! ### One checkout of a run -/

/-- What a run does to a checkout, as a trial in the checkout's own repository. -/
def alone (s : Session Recorder) (c : Checkout) : Trial :=
  match r.planIn s c with
  | .error _ => .idle (s.host.repo c.root)
  | .ok p => r.trial s p

/-- The verdict and the trial of a checkout depend on its own record and snapshot. -/
theorem alone_congr {s s' : Session Recorder} {c : Checkout} (hmemory : c.RemembersAlike s s')
    (hrepo : s.host.repo c.root = s'.host.repo c.root) :
    r.verdict s c = r.verdict s' c ∧ r.alone s c = r.alone s' c := by
  have hplan : r.planIn s c = r.planIn s' c := by
    rw [planIn, planIn, c.seen_congr hmemory hrepo]
  rw [verdict, verdict, alone, alone, hplan, hrepo]
  cases h : r.planIn s' c with
  | error o => exact ⟨rfl, rfl⟩
  | ok p =>
    have htrial : r.trial s p = r.trial s' p := by
      rw [← (checkout_of_planIn h).1] at hrepo
      exact r.trial_congr hrepo
    simp only [htrial, and_self]

theorem mem_plansFrom {s : Session Recorder} {cs : List Checkout} {p : MergePlan} :
    p ∈ r.plansFrom (·.seen Recorder.client s) cs ↔ ∃ c ∈ cs, r.planIn s c = .ok p := by
  simp only [plansFrom, List.mem_filterMap, planIn]
  constructor <;> rintro ⟨c, hc, h⟩ <;> refine ⟨c, hc, ?_⟩
  · cases hplan : r.planFrom c (c.seen Recorder.client s) with
    | error o => simp [hplan] at h
    | ok q => simpa [hplan] using h
  · simp [h]

/-- What a run leaves of each of its checkouts. -/
theorem CarriedOut.at_checkout {r : MergeRequest} {s t : Session Recorder} {cs : List Checkout}
    {c : Checkout}
    (h : CarriedOut (r.trial s) (r.plansFrom (·.seen Recorder.client s) cs) s t)
    (hdistinct : cs.Pairwise fun a b => ¬a.same b) (hc : c ∈ cs) :
    t.host.repo c.root = (r.alone s c).repo ∧
      t.host.callsAt c.root =
        s.host.callsAt c.root ++ (r.alone s c).tried.map Mutation.call := by
  rw [alone]
  cases hplan : r.planIn s c with
  | ok p =>
    have hp := r.mem_plansFrom.2 ⟨c, hc, hplan⟩
    have hown := h.own p hp
    have hcalls := h.callsAt_own (r.apart_plansFrom hdistinct) hp
    rw [(checkout_of_planIn hplan).1] at hown hcalls
    exact ⟨hown, hcalls⟩
  | error o =>
    have hroot : ∀ p ∈ r.plansFrom (·.seen Recorder.client s) cs,
        ¬c.root.alike p.checkout.root := by
      intro p hp halike
      obtain ⟨c', hc', hplan'⟩ := r.mem_plansFrom.1 hp
      rw [(checkout_of_planIn hplan').1] at halike
      have hne : c ≠ c' := by
        rintro rfl
        rw [hplan] at hplan'
        exact absurd hplan' (by simp)
      have hsymm : Std.Symm fun a b : Checkout => ¬a.same b :=
        ⟨fun a b hab => by rwa [Checkout.same, Path.alike_comm]⟩
      exact hdistinct.forall hc hc' hne halike
    refine ⟨h.others _ hroot, ?_⟩
    rw [h.callsAt_others hroot]
    simp [Trial.idle]

/-- A checkout without a plan is left alone; one with a plan goes along the changes of the plan, and
is reported by whether one of them failed. -/
structure Contained (report : MergeReport) (s t : Session Recorder) (c : Checkout) : Prop where
  unplanned : ∀ obstacle, answer (r.planOne Recorder.client c s) = .ok (.error obstacle) →
    (c, obstacle) ∈ report.skipped ∧ t.host.repo c.root = s.host.repo c.root ∧
      t.host.callsAt c.root = s.host.callsAt c.root
  planned : ∀ p, answer (r.planOne Recorder.client c s) = .ok (.ok p) →
    ∃ trial, (s.host.repo c.root).Tried (if r.flags.pretend then [] else p.changes r.flags) trial ∧
      t.host.repo c.root = trial.repo ∧
      t.host.callsAt c.root = s.host.callsAt c.root ++ trial.tried.map Mutation.call ∧
      match trial.failure? with
      | none => c ∈ report.merged
      | some e => (c, e.message) ∈ report.failed

/-- A checkout fares the same in two runs, from `s` to `t` and from `s'` to `t'`. -/
structure FaresAlike (c : Checkout) (report report' : MergeReport)
    (s t s' t' : Session Recorder) : Prop where
  merged : c ∈ report.merged ↔ c ∈ report'.merged
  skipped : ∀ obstacle, (c, obstacle) ∈ report.skipped ↔ (c, obstacle) ∈ report'.skipped
  failed : ∀ message, (c, message) ∈ report.failed ↔ (c, message) ∈ report'.failed
  repo : t.host.repo c.root = t'.host.repo c.root
  calls : ∃ calls, t.host.callsAt c.root = s.host.callsAt c.root ++ calls ∧
    t'.host.callsAt c.root = s'.host.callsAt c.root ++ calls

/-- **A failure stays in its checkout.** A run over different checkouts puts each into one list of
its report; each planned checkout stops at the first change of its plan that fails; no other
repository is touched; and a checkout fares alike in all runs that find its record and its snapshot
the same, whatever other checkouts they take, in whatever order. -/
theorem run_contained (cs : List Checkout) (s : Session Recorder)
    (hdistinct : cs.Pairwise fun a b => ¬a.same b) :
    ∃ report t, r.run Recorder.client cs s = .ok report t ∧ report.Sorts cs ∧
      (∀ c ∈ cs, r.Contained report s t c) ∧
      (∀ root, (∀ c ∈ cs, ¬root.alike c.root) → t.host.repo root = s.host.repo root ∧
        t.host.callsAt root = s.host.callsAt root) ∧
      ∀ cs' s' report' t', cs'.Pairwise (fun a b => ¬a.same b) →
        r.run Recorder.client cs' s' = .ok report' t' →
        ∀ c ∈ cs, c ∈ cs' → c.RemembersAlike s s' →
          s.host.repo c.root = s'.host.repo c.root → FaresAlike c report report' s t s' t' := by
  obtain ⟨t, hrun, hout⟩ := r.run_recorded (s := s) hdistinct
  refine ⟨_, t, hrun, MergeReport.of_sorts, fun c hc => ?_, fun root hroot => ?_, ?_⟩
  · obtain ⟨hrepo, hcalls⟩ := hout.at_checkout hdistinct hc
    have hplanIn : ∀ x, answer (r.planOne Recorder.client c s) = .ok x → r.planIn s c = x := by
      intro x hx
      rw [planOne_apply] at hx
      exact Except.ok.inj hx
    refine ⟨fun obstacle ho => ?_, fun p hp => ?_⟩
    · have hplan := hplanIn _ ho
      rw [alone, hplan] at hrepo hcalls
      exact ⟨MergeReport.mem_skipped_of.2 ⟨hc, by rw [verdict, hplan]⟩, hrepo,
        by simpa [Trial.idle] using hcalls⟩
    · have hplan := hplanIn _ hp
      rw [alone, hplan] at hrepo hcalls
      obtain ⟨hcheckout, hne⟩ := checkout_of_planIn hplan
      refine ⟨r.trial s p, ?_, hrepo, hcalls, ?_⟩
      · rw [trial, hcheckout]
        cases r.flags.pretend with
        | true => exact Repo.tried_tryAll _ []
        | false => exact p.tried_steps r.flags _ hne
      · cases hfail : (r.trial s p).failure? with
        | none => exact MergeReport.mem_merged_of.2 ⟨hc, by simp only [verdict, hplan, hfail]⟩
        | some e => exact MergeReport.mem_failed_of.2 ⟨hc, by simp only [verdict, hplan, hfail]⟩
  · have hroot' : ∀ p ∈ r.plansFrom (·.seen Recorder.client s) cs,
        ¬root.alike p.checkout.root := by
      intro p hp
      obtain ⟨c, hc, hplan⟩ := r.mem_plansFrom.1 hp
      rw [(checkout_of_planIn hplan).1]
      exact hroot c hc
    exact ⟨hout.others root hroot', hout.callsAt_others hroot'⟩
  · intro cs' s' report' t' hdistinct' hrun' c hc hc' hmemory hsame
    obtain ⟨t'', hrun'', hout'⟩ := r.run_recorded (s := s') hdistinct'
    rw [hrun''] at hrun'
    obtain ⟨rfl, rfl⟩ := EStateM.Result.ok.inj hrun'
    obtain ⟨hrepo, hcalls⟩ := hout.at_checkout hdistinct hc
    obtain ⟨hrepo', hcalls'⟩ := hout'.at_checkout hdistinct' hc'
    obtain ⟨hverdict, halone⟩ := r.alone_congr hmemory hsame
    rw [← halone] at hrepo' hcalls'
    refine ⟨?_, fun o => ?_, fun m => ?_, hrepo.trans hrepo'.symm, _, hcalls, hcalls'⟩
    · rw [MergeReport.mem_merged_of, MergeReport.mem_merged_of, hverdict]
      simp only [hc, hc']
    · rw [MergeReport.mem_skipped_of, MergeReport.mem_skipped_of, hverdict]
      simp only [hc, hc']
    · rw [MergeReport.mem_failed_of, MergeReport.mem_failed_of, hverdict]
      simp only [hc, hc']

/-- A checkout whose merge fails leaves the one beside it alone. -/
theorem run_contained_beside_failure :
    let lib := Checkout.outermost ⟨["lib"]⟩
    let app := Checkout.outermost ⟨["app"]⟩
    let r : MergeRequest := ⟨none, "main", none, ⟨false, false, true, false⟩⟩
    let s := Session.start
      ((Recorder.empty.put lib.root (.onFeature [.merge])).put app.root (.onFeature []))
    ∃ report t, r.run Recorder.client [lib, app] s = .ok report t ∧ report.Sorts [lib, app] ∧
      report.merged = [app] ∧
      t.host.callsAt lib.root = ["create main from origin/main", "merge feature"] := by
  intro lib app r s
  have hmerged : (answer (r.run Recorder.client [lib, app] s)).toOption.map (·.merged) =
      some [app] := by decide +kernel
  have hcalls : (reached (r.run Recorder.client [lib, app] s)).host.callsAt lib.root =
      ["create main from origin/main", "merge feature"] := by decide +kernel
  obtain ⟨report, t, hrun, hsorts, -⟩ := run_contained r [lib, app] s (by decide +kernel)
  rw [hrun] at hmerged hcalls
  exact ⟨report, t, hrun, hsorts, Option.some.inj hmerged, hcalls⟩

end MergeRequest

end Grove
