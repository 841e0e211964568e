import Grove.Commands.Generation
import Grove.Proofs.Selections

/-!
# Statistics are planned before they are written

The command that makes statistics first plans a job for each family: it looks the projects up,
groups them by family, and settles the version and the place of each group. Only then does it write,
and from then on it cannot fail. So a run that fails has written nothing, not even for the families
that were in order, and every project is in the job of its own family and in no other.

## What is proved

* `get?_grouped`, `mem_projectsByFamily_iff` — the groups are the projects of each family, in order.
* `statisticsJobs_apply` — a plan has the job of each group that has a place.
* `exists_runJob_apply` — writing never fails, and while pretending it changes nothing.
* `statistics_all_or_nothing` — what a run leaves behind, and which jobs it has carried out.
-/

namespace Grove

/-! ### Groups -/

namespace Workspace

/-- The projects of each family, grouped one by one. -/
theorem get?_grouped (poms : List Pom) (f : Family) :
    Ordered.get? Family.order f (poms.foldl groupProject []) =
      if poms.filter (·.family = f) = [] then none else some (poms.filter (·.family = f)) := by
  induction poms using List.reverseRecOn with
  | nil => rfl
  | append_singleton poms pom ih =>
    rw [List.foldl_append, List.foldl_cons, List.foldl_nil, groupProject, List.filter_append]
    by_cases hf : pom.family = f
    · subst hf
      rw [Ordered.get?_put_self, ih]
      by_cases hnone : poms.filter (·.family = pom.family) = []
      · simp [hnone]
      · simp [hnone]
    · have hne : Family.order f pom.family ≠ .eq := fun h =>
        hf (Std.LawfulEqCmp.eq_of_compare h).symm
      rw [Ordered.get?_put_of_ne _ hne, ih]
      simp [hf]

theorem increasing_grouped (poms : List Pom) :
    Ordered.Increasing Family.order ((poms.foldl groupProject []).map (·.1)) := by
  induction poms using List.reverseRecOn with
  | nil => exact .nil
  | append_singleton poms pom ih =>
    rw [List.foldl_append]
    exact Ordered.increasing_keys_put _ _ _ ih

/-- The projects of some checkouts that statistics are made of. -/
def scored (w : Workspace) (checkouts : List Checkout) : List Pom :=
  (checkouts.flatMap w.projectsOf).filter fun pom => !pom.isAggregator

/-- The groups are the families that have projects, each with its own in order. -/
theorem mem_projectsByFamily_iff (w : Workspace) (checkouts : List Checkout) {f : Family}
    {poms : List Pom} :
    (f, poms) ∈ w.projectsByFamily checkouts ↔
      poms = (w.scored checkouts).filter (·.family = f) ∧ poms ≠ [] := by
  have hget := get?_grouped (w.scored checkouts) f
  have hkeys := increasing_grouped (w.scored checkouts)
  rw [projectsByFamily, ← scored]
  constructor
  · intro h
    rw [Ordered.get?_of_mem _ hkeys h] at hget
    split at hget
    · cases hget
    · next hsome =>
      obtain rfl := Option.some.inj hget
      exact ⟨rfl, hsome⟩
  · rintro ⟨rfl, hsome⟩
    rw [if_neg hsome] at hget
    obtain ⟨f', heq, hmem⟩ := Ordered.exists_mem_of_get? _ hget
    obtain rfl := Std.LawfulEqCmp.eq_of_compare heq
    exact hmem

end Workspace

/-! ### Versions -/

/-- A fold whose steps keep finding something finds something. -/
theorem exists_foldl_some {α β : Type} {step : Option β → α → Option β}
    (hstep : ∀ b a, ∃ b', step (some b) a = some b') (as : List α) (b : β) :
    ∃ b', as.foldl step (some b) = some b' := by
  induction as generalizing b with
  | nil => exact ⟨b, rfl⟩
  | cons a as ih =>
    obtain ⟨next, hnext⟩ := hstep b a
    rw [List.foldl_cons, hnext]
    exact ih next

/-- A tally of something has a most common text. -/
theorem Tally.exists_most? {tally : Tally} (h : tally ≠ []) : ∃ s, tally.most? = some s := by
  obtain ⟨first, rest, rfl⟩ := List.exists_cons_of_ne_nil h
  rw [← Option.isSome_iff_exists, most?, Option.isSome_map, Option.isSome_iff_exists]
  refine exists_foldl_some (fun best e => ?_) rest first
  by_cases hle : best.2 ≤ e.2
  · exact ⟨e, if_pos hle⟩
  · exact ⟨best, if_neg hle⟩

/-- Where projects of a family agree on a version, or need not, there is one. -/
theorem Family.exists_version_of_version? {f : Family} {poms : List Pom} {tolerate : Bool}
    {version? : Option String} (hpoms : poms ≠ [])
    (h : f.version? poms tolerate = .ok version?) : ∃ version, version? = some version := by
  have hput : ∀ (tally : Tally) (s : String), tally.count s ≠ [] := by
    intro tally s
    rw [Tally.count]
    cases tally with
    | nil => simp [Ordered.put]
    | cons e rest =>
      simp only [Ordered.put]
      split <;> simp
  have hkeep : ∀ (poms : List Pom) (tally : Tally), tally ≠ [] →
      poms.foldl (fun t pom => t.count pom.coordinates.version) tally ≠ [] := by
    intro poms
    induction poms with
    | nil => exact fun _ htally => htally
    | cons pom poms ih => exact fun _ _ => ih _ (hput _ _)
  obtain ⟨pom, rest, rfl⟩ := List.exists_cons_of_ne_nil hpoms
  obtain ⟨version, hmost⟩ := Tally.exists_most? (hkeep rest _ (hput [] pom.coordinates.version))
  rw [Family.version?] at h
  split at h
  · cases h
  · rw [← Except.ok.inj h]
    exact ⟨version, hmost⟩

/-! ### Writing -/

section

variable {σ : Type} (files : σ → Files) (scorer : Scorer) (glob? : Option String)
  {deliver : Pom → Scores → EStateM Breakdown σ Unit} {P : σ → Prop}

/-- A scan keeps what every delivery keeps. -/
theorem keeps_scanQueue (hdeliver : ∀ pom scores s, P s → P (reached (deliver pom scores s)))
    (queue : List Pom) (s : σ) (hs : P s) : P (scanQueue files scorer glob? deliver queue s).2 := by
  induction queue generalizing s with
  | nil => exact hs
  | cons pom rest ih =>
    have hfirst : P (scanProject files scorer glob? deliver pom s).2 := by
      rw [scanProject]
      split
      · exact hs
      · exact hs
      · next scores _ =>
        have h := hdeliver pom scores s hs
        rw [handOn]
        cases hrun : deliver pom scores s <;> rwa [hrun] at h
    exact ih _ hfirst

end

/-- While pretending the writer changes nothing. -/
theorem StatisticsWriter.run_of_pretend (w : StatisticsWriter) (hpretend : w.pretend = true)
    (glob? : Option String) (poms : List Pom) (h : Host) :
    ∃ summary, w.run glob? poms h = .ok summary h := by
  have hwrite : ∀ pom scores t, t = h →
      reached ((w.write pom scores).adaptExcept Breakdown.error t) = h := by
    rintro pom scores t rfl
    rw [write, hpretend]
    rfl
  exact ⟨_, congrArg (EStateM.Result.ok _) (keeps_scanQueue Host.files .words glob? hwrite _ h rfl)⟩

namespace CommandContext

open CommandLine

variable (x : CommandContext Host) (a : StatisticsArguments)

/-- Writing the statistics of a family never fails, and while pretending it changes no file. -/
theorem exists_runJob_apply (job : StatisticsJob) (s : Session Host) :
    ∃ t, x.runJob job s = .ok () t ∧ (job.writer.pretend = true → t.host = s.host) := by
  let s₁ : Session Host :=
    { s with log := s.log ++ [⟨.info, "Write codeflowers into " ++ job.writer.directory.shown⟩] }
  have hrun : ∃ summary host, job.writer.run x.sourceGlob? job.projects s.host = .ok summary host :=
    ⟨_, _, rfl⟩
  obtain ⟨summary, host, hrun⟩ := hrun
  rw [runJob, bind_of_ok (Action.note_apply _ _ s)]
  refine ⟨_, (bind_of_ok (Action.onHost_of_ok (s := s₁) hrun)).trans (Action.note_apply _ _ _),
    fun hpretend => ?_⟩
  obtain ⟨summary', hrun'⟩ := job.writer.run_of_pretend hpretend x.sourceGlob? job.projects s.host
  obtain ⟨-, rfl⟩ := EStateM.Result.ok.inj (hrun.symm.trans hrun')
  rfl

/-! ### Planning -/

/-- The job of a group, where its version is settled and it has a place. -/
def jobFor? (host : Host) (root : Path) (group : Family × List Pom) : Option StatisticsJob :=
  match group.1.version? group.2 (group.1 ∈ x.tolerated) with
  | .ok (some version) =>
    (group.1.assets? host.lookup host.files (some root)).map fun assets =>
      ⟨x.statisticsWriter assets version, group.2⟩
  | _ => none

/-- A plan settles the version of every group, and has the job of each that has a place. -/
theorem statisticsJobs_apply {root : Path} {groups : List (Family × List Pom)} {s t : Session Host}
    {jobs : List StatisticsJob} (h : x.statisticsJobs root groups s = .ok jobs t) :
    jobs = groups.filterMap (x.jobFor? s.host root) ∧
      ∀ group ∈ groups, ∃ version?,
        group.1.version? group.2 (group.1 ∈ x.tolerated) = .ok version? := by
  induction groups generalizing s t jobs with
  | nil =>
    obtain ⟨rfl, -⟩ := EStateM.Result.ok.inj h
    exact ⟨rfl, by simp⟩
  | cons group rest ih =>
    obtain ⟨family, projects⟩ := group
    rw [statisticsJobs] at h
    cases hversion : family.version? projects (family ∈ x.tolerated) with
    | error e =>
      rw [hversion, Except.mapError, bind_of_error (Action.ofExcept_error _ _)] at h
      cases h
    | ok version? =>
      rw [hversion, Except.mapError, bind_of_ok (Action.ofExcept_ok _ _)] at h
      have hall : (∀ group ∈ rest, ∃ version?,
            group.1.version? group.2 (group.1 ∈ x.tolerated) = .ok version?) →
          ∀ group ∈ (family, projects) :: rest, ∃ version?,
            group.1.version? group.2 (group.1 ∈ x.tolerated) = .ok version? := by
        intro hrest group hgroup
        rcases List.mem_cons.1 hgroup with rfl | hgroup
        · exact ⟨version?, hversion⟩
        · exact hrest group hgroup
      cases version? with
      | none =>
        obtain ⟨hjobs, hrest⟩ := ih h
        refine ⟨?_, hall hrest⟩
        rw [hjobs, List.filterMap_cons_none (by rw [jobFor?, hversion])]
      | some version =>
        dsimp only at h
        rw [bind_of_ok (get_apply s)] at h
        cases hassets : family.assets? s.host.lookup s.host.files (some root) with
        | none =>
          simp only [hassets] at h
          rw [bind_of_ok (Action.note_apply _ _ s)] at h
          obtain ⟨hjobs, hrest⟩ := ih h
          refine ⟨?_, hall hrest⟩
          rw [hjobs, List.filterMap_cons_none (by simp [jobFor?, hversion, hassets])]
        | some assets =>
          simp only [hassets] at h
          cases hlater : x.statisticsJobs root rest s with
          | error e u =>
            rw [bind_of_error hlater] at h
            cases h
          | ok later u =>
            rw [bind_of_ok hlater] at h
            obtain ⟨rfl, -⟩ := EStateM.Result.ok.inj h
            obtain ⟨hjobs, hrest⟩ := ih hlater
            refine ⟨?_, hall hrest⟩
            rw [List.filterMap_cons_some (by rw [jobFor?, hversion, hassets]; rfl), ← hjobs]

/-- Planning changes no file, whether it succeeds or not. -/
theorem keeps_host_planStatistics (host : Host) :
    Action.Keeps (fun s : Session Host => s.host = host) (x.planStatistics a) := by
  have hnote : ∀ severity message, Action.Keeps (fun s : Session Host => s.host = host)
      (Action.note severity message) := fun _ _ _ hs => hs
  have hjobs : ∀ root groups, Action.Keeps (fun s : Session Host => s.host = host)
      (x.statisticsJobs root groups) := by
    intro root groups
    induction groups with
    | nil => exact .pure _
    | cons group rest ih =>
      rw [statisticsJobs]
      refine (Action.Keeps.ofExcept _).bind fun version? => ?_
      cases version? with
      | none => exact ih
      | some version =>
        refine Action.Keeps.bind (fun _ hs => hs) fun s => ?_
        dsimp only
        split
        · exact (hnote _ _).bind fun _ => ih
        · exact ih.bind fun _ => .pure _
  have hload : Action.Keeps (fun s : Session Host => s.host = host) x.standpoint :=
    fun s hs => (x.reached_standpoint s).1.trans hs
  refine hload.bind fun p => (Action.Keeps.ofExcept _).bind fun checkouts => ?_
  dsimp only
  split
  · exact (hnote _ _).bind fun _ => .pure _
  · exact hjobs _ _

/-- A plan has the jobs of the groups of projects in the checkouts. -/
theorem planStatistics_apply {s t : Session Host} {jobs : List StatisticsJob}
    (h : x.planStatistics a s = .ok jobs t) :
    ∃ p u checkouts, x.standpoint s = .ok p u ∧ x.statisticsCheckouts a p = .ok checkouts ∧
      jobs = (p.workspace.projectsByFamily checkouts).filterMap
        (x.jobFor? s.host p.workspace.root.root) ∧
      ∀ group ∈ p.workspace.projectsByFamily checkouts, ∃ version?,
        group.1.version? group.2 (group.1 ∈ x.tolerated) = .ok version? := by
  obtain ⟨hhost, -⟩ := x.reached_standpoint s
  rw [planStatistics] at h
  cases hload : x.standpoint s with
  | error e u =>
    rw [bind_of_error hload] at h
    cases h
  | ok p u =>
    rw [hload, reached_ok] at hhost
    rw [bind_of_ok hload] at h
    cases hcheckouts : x.statisticsCheckouts a p with
    | error e =>
      rw [hcheckouts, Except.mapError, bind_of_error (Action.ofExcept_error _ _)] at h
      cases h
    | ok checkouts =>
      rw [hcheckouts, Except.mapError, bind_of_ok (Action.ofExcept_ok _ _)] at h
      refine ⟨p, u, checkouts, rfl, hcheckouts, ?_⟩
      by_cases hnone : p.workspace.projectsByFamily checkouts = []
      · simp only [hnone, if_true] at h
        rw [bind_of_ok (Action.note_apply _ _ u)] at h
        obtain ⟨rfl, -⟩ := EStateM.Result.ok.inj h
        rw [hnone]
        exact ⟨rfl, by simp⟩
      · simp only [hnone, if_false] at h
        rw [← hhost]
        exact x.statisticsJobs_apply h

/-- Writing never fails, and while pretending it changes no file. -/
theorem exists_forM_runJob_apply (jobs : List StatisticsJob) (s : Session Host) :
    ∃ t, jobs.forM x.runJob s = .ok () t ∧
      ((∀ job ∈ jobs, job.writer.pretend = true) → t.host = s.host) := by
  have hone : ∀ job ∈ jobs, ∀ s, ∃ t, x.runJob job s = .ok () t := by
    intro job _ s
    obtain ⟨t, hrun, -⟩ := x.exists_runJob_apply job s
    exact ⟨t, hrun⟩
  obtain ⟨t, hrun⟩ := Action.exists_forM_apply hone s
  refine ⟨t, hrun, fun hpretend => ?_⟩
  have hkept : Action.Keeps (fun t : Session Host => t.host = s.host) (jobs.forM x.runJob) := by
    refine .forM fun job hjob u hu => ?_
    obtain ⟨v, hv, hhost⟩ := x.exists_runJob_apply job u
    rw [hv]
    exact (hhost (hpretend job hjob)).trans hu
  have h := hkept s rfl
  rwa [hrun] at h

/-- A job is that of a group: it has the projects of the group. -/
theorem projects_of_jobFor? {host : Host} {root : Path} {group : Family × List Pom}
    {job : StatisticsJob} (h : x.jobFor? host root group = some job) : job.projects = group.2 := by
  rw [jobFor?] at h
  split at h
  · obtain ⟨assets, -, rfl⟩ := Option.map_eq_some_iff.1 h
    rfl
  · cases h

/-- A project is in the job of its own family, if that has one, and in no other. -/
theorem filter_jobs_eq (host : Host) (root : Path) {w : Workspace} {checkouts : List Checkout}
    {pom : Pom} (hpom : pom ∈ w.scored checkouts) :
    ((w.projectsByFamily checkouts).filterMap (x.jobFor? host root)).filter (pom ∈ ·.projects) =
      (x.jobFor? host root
        (pom.family, (w.scored checkouts).filter (·.family = pom.family))).toList := by
  let own := (w.scored checkouts).filter (·.family = pom.family)
  have hin : pom ∈ own := List.mem_filter.2 ⟨hpom, by simp⟩
  have hgroup : (pom.family, own) ∈ w.projectsByFamily checkouts :=
    (w.mem_projectsByFamily_iff checkouts).2 ⟨rfl, List.ne_nil_of_mem hin⟩
  have hkeys : ((w.projectsByFamily checkouts).map (·.1)).Nodup :=
    (Workspace.increasing_grouped _).nodup
  obtain ⟨before, after, hsplit⟩ := List.append_of_mem hgroup
  -- the groups beside its own have other families, so it is in none of them
  have hothers : ∀ groups : List (Family × List Pom), groups ⊆ w.projectsByFamily checkouts →
      pom.family ∉ groups.map (·.1) →
      (groups.filterMap (x.jobFor? host root)).filter (pom ∈ ·.projects) = [] := by
    intro groups hsub hfamily
    refine List.filter_eq_nil_iff.2 fun job hjob hmem => hfamily ?_
    obtain ⟨⟨f, poms⟩, hg, hfor⟩ := List.mem_filterMap.1 hjob
    obtain ⟨rfl, -⟩ := (w.mem_projectsByFamily_iff checkouts).1 (hsub hg)
    rw [x.projects_of_jobFor? hfor] at hmem
    have hf : pom.family = f := by simpa using (List.mem_filter.1 (of_decide_eq_true hmem)).2
    exact hf ▸ List.mem_map_of_mem hg
  rw [hsplit, List.map_append, List.map_cons, List.nodup_append] at hkeys
  obtain ⟨-, hafter, hbefore⟩ := hkeys
  rw [hsplit] at hothers ⊢
  rw [List.filterMap_append, List.filter_append,
    hothers before (List.subset_append_left _ _)
      (fun h => hbefore _ h _ List.mem_cons_self rfl),
    List.nil_append, List.filterMap_cons]
  have hlater := hothers after
    (fun _ h => List.mem_append_right _ (List.mem_cons_of_mem _ h)) (List.nodup_cons.1 hafter).1
  cases hfor : x.jobFor? host root (pom.family, own) with
  | none => exact hlater
  | some job =>
    have hown : pom ∈ job.projects := by
      rw [x.projects_of_jobFor? hfor]
      exact hin
    simp only [List.filter_cons, hown, decide_true, if_true, hlater]
    rfl

/-- A run is left out, or it fails in planning, or it plans and carries the plan out. -/
theorem statistics_cases (s : Session Host) :
    (a.skip = true ∧ ∃ t, x.statistics a s = .ok () t ∧ t.host = s.host) ∨
    (a.skip = false ∧ ∃ e t, x.planStatistics a s = .error e t ∧ x.statistics a s = .error e t ∧
      t.host = s.host) ∨
    (a.skip = false ∧ ∃ jobs v t, x.planStatistics a s = .ok jobs v ∧ v.host = s.host ∧
      jobs.forM x.runJob v = .ok () t ∧ x.statistics a s = .ok () t) := by
  have hkept := x.keeps_host_planStatistics a s.host s rfl
  rw [statistics]
  cases hskip : a.skip with
  | true => exact .inl ⟨rfl, _, Action.note_apply _ _ s, rfl⟩
  | false =>
    simp only [Bool.false_eq_true, if_false]
    cases hplan : x.planStatistics a s with
    | error e t =>
      rw [hplan] at hkept
      exact .inr (.inl ⟨trivial, e, t, rfl, bind_of_error hplan, hkept⟩)
    | ok jobs v =>
      rw [hplan] at hkept
      obtain ⟨t, hrun, -⟩ := x.exists_forM_runJob_apply jobs v
      exact .inr (.inr ⟨trivial, jobs, v, t, rfl, hkept, hrun, (bind_of_ok hplan).trans hrun⟩)

/-- While pretending every job of a plan does so too. -/
theorem pretend_of_mem_jobs {s t : Session Host} {jobs : List StatisticsJob}
    (h : x.planStatistics a s = .ok jobs t) {job : StatisticsJob} (hjob : job ∈ jobs) :
    job.writer.pretend = x.settings.global.pretend := by
  obtain ⟨p, -, checkouts, -, -, rfl, -⟩ := x.planStatistics_apply a h
  obtain ⟨group, -, hfor⟩ := List.mem_filterMap.1 hjob
  rw [jobFor?] at hfor
  split at hfor
  · obtain ⟨assets, -, rfl⟩ := Option.map_eq_some_iff.1 hfor
    rfl
  · cases hfor

/-- **Statistics are all or nothing.** For every host, configuration and arguments: a run that fails
has changed no file, and it fails just where planning does; while pretending no file is changed
whatever comes of it. A run that succeeds has carried out a plan, in which every project of the
checkouts that is not a mere aggregator is in exactly one job, that of its family; or in none, just
where the family has no place for its files. -/
theorem statistics_all_or_nothing (x : CommandContext Host) (a : StatisticsArguments)
    (s : Session Host) :
    (∀ e t, x.statistics a s = .error e t → t.host = s.host) ∧
    (∀ e t, x.statistics a s = .error e t ↔ a.skip = false ∧ x.planStatistics a s = .error e t) ∧
    (x.settings.global.pretend = true → (reached (x.statistics a s)).host = s.host) ∧
    ∀ t, a.skip = false → x.statistics a s = .ok () t →
      ∃ p u checkouts jobs v, x.standpoint s = .ok p u ∧
        x.statisticsCheckouts a p = .ok checkouts ∧
        x.planStatistics a s = .ok jobs v ∧ v.host = s.host ∧ jobs.forM x.runJob v = .ok () t ∧
        ∀ pom ∈ checkouts.flatMap p.workspace.projectsOf, pom.isAggregator = false →
          let own := (p.workspace.scored checkouts).filter (·.family = pom.family)
          match pom.family.assets? s.host.lookup s.host.files (some p.workspace.root.root) with
          | none => ∀ job ∈ jobs, pom ∉ job.projects
          | some assets => ∃ version,
            pom.family.version? own (pom.family ∈ x.tolerated) = .ok (some version) ∧
            jobs.filter (pom ∈ ·.projects) = [⟨x.statisticsWriter assets version, own⟩] := by
  rcases x.statistics_cases a s with ⟨hskip, t, hrun, hhost⟩ | ⟨hskip, e, t, hplan, hrun, hhost⟩ |
    ⟨hskip, jobs, v, t, hplan, hhost, hjobs, hrun⟩
  · rw [hrun, hskip]
    refine ⟨fun e t h => ?_, fun e t => ?_, fun _ => hhost, fun t h => ?_⟩
    · cases h
    · simp
    · cases h
  · rw [hrun, hplan]
    refine ⟨fun e' t' h => ?_, fun e' t' => ?_, fun _ => hhost, fun t h h' => ?_⟩
    · obtain ⟨rfl, rfl⟩ := EStateM.Result.error.inj h
      exact hhost
    · simp [hskip]
    · cases h'
  · rw [hrun, hplan]
    refine ⟨fun e' t' h => ?_, fun e' t' => ?_, fun hpretend => ?_, fun t' _ h => ?_⟩
    · cases h
    · simp
    · obtain ⟨t', hjobs', hkept⟩ := x.exists_forM_runJob_apply jobs v
      obtain ⟨-, rfl⟩ := EStateM.Result.ok.inj (hjobs.symm.trans hjobs')
      exact (hkept fun job hjob => (x.pretend_of_mem_jobs a hplan hjob).trans hpretend).trans hhost
    · obtain ⟨-, rfl⟩ := EStateM.Result.ok.inj h
      obtain ⟨p, u, checkouts, hload, hcheckouts, rfl, hversions⟩ := x.planStatistics_apply a hplan
      refine ⟨p, u, checkouts, _, v, hload, hcheckouts, rfl, hhost, hjobs, fun pom hpom hreal => ?_⟩
      have hscored : pom ∈ p.workspace.scored checkouts := List.mem_filter.2 ⟨hpom, by simp [hreal]⟩
      intro own
      have hgroup : (pom.family, own) ∈ p.workspace.projectsByFamily checkouts :=
        (p.workspace.mem_projectsByFamily_iff checkouts).2
          ⟨rfl, List.ne_nil_of_mem (List.mem_filter.2 ⟨hscored, by simp⟩)⟩
      obtain ⟨version?, hversion⟩ := hversions _ hgroup
      obtain ⟨version, rfl⟩ := Family.exists_version_of_version?
        ((p.workspace.mem_projectsByFamily_iff checkouts).1 hgroup).2 hversion
      have hjob : x.jobFor? s.host p.workspace.root.root (pom.family, own) =
          (pom.family.assets? s.host.lookup s.host.files (some p.workspace.root.root)).map
            fun assets => ⟨x.statisticsWriter assets version, own⟩ := by
        rw [jobFor?, hversion]
      have hfilter := x.filter_jobs_eq s.host p.workspace.root.root hscored
      rw [hjob] at hfilter
      cases hassets : pom.family.assets? s.host.lookup s.host.files
          (some p.workspace.root.root) with
      | none =>
        rw [hassets] at hfilter
        exact fun job hmem => by simpa using List.filter_eq_nil_iff.1 hfilter job hmem
      | some assets =>
        rw [hassets] at hfilter
        exact ⟨version, hversion, hfilter⟩

end CommandContext

end Grove
