import Grove.Proofs.CommitRun
import Grove.Proofs.StepsKeep

/-!
# What becomes of failures

Every operation that a client is asked for may fail. A failure on the way of a plan, or of a commit,
makes the checkout one that failed, with the error. A failure while branches are asked for makes it
one that is passed over, with the error for a reason. A failure to answer for the outermost checkout
whether it is dirty is noted in the log, and nothing more is tried there. So no failure is lost, but
not every one counts against the success of a run.

## What is proved

* `Surfaces.snapshot`, `Surfaces.runSteps` — what is done in one checkout fails with the error of
  the operation that failed.
* `planAll_tells`, `executeAll_tells`, `commitEach_tells` — each error that came up on the way is in
  the report.
* `failures_told` — where the errors of whole runs are told.
-/

namespace Grove

open Git

variable {σ α β : Type}

/-! ### Failures in a trace -/

namespace Git.Event

/-- Whether an event is an operation at a root that failed with an error. -/
def Fails (root : Path) (e : Failure) : Event → Prop
  | .dirt other answer => other = root ∧ answer = .error e
  | .current other answer => other = root ∧ answer = .error e
  | .branches other answer => other = root ∧ answer = .error e
  | .change other _ answer => other = root ∧ answer = .error e

/-- Whether an operation at a root failed with an error among some events. -/
def FailsIn (events : List Event) (root : Path) (e : Failure) : Prop :=
  ∃ event ∈ events, event.Fails root e

theorem not_failsIn_nil {root : Path} {e : Failure} : ¬FailsIn [] root e := by
  simp [FailsIn]

theorem failsIn_append {before after : List Event} {root : Path} {e : Failure} :
    FailsIn (before ++ after) root e ↔ FailsIn before root e ∨ FailsIn after root e := by
  simp [FailsIn, or_and_right, exists_or]

end Git.Event

open Event

/-! ### One checkout -/

/-- An action at a root that hides no failure: whatever fails in it fails at that root, and the
action fails with the same error. -/
def Surfaces (root : Path) (x : Action (Traced σ) α) : Prop :=
  ∀ s, ∃ events, (reached (x s)).host.events = s.host.events ++ events ∧
    ∀ other e, FailsIn events other e → other = root ∧ answer (x s) = .error e

namespace Surfaces

variable {root : Path}

/-- An action that asks the client for nothing. -/
theorem silent {x : Action (Traced σ) α} (hx : ∀ s, (reached (x s)).host = s.host) :
    Surfaces root x := by
  intro s
  refine ⟨[], ?_, fun _ _ hfails => absurd hfails not_failsIn_nil⟩
  rw [hx, List.append_nil]

theorem pure (a : α) : Surfaces root (Pure.pure a : Action (Traced σ) α) :=
  silent fun _ => rfl

theorem throw (e : Failure) : Surfaces root (MonadExcept.throw e : Action (Traced σ) α) :=
  silent fun _ => rfl

theorem bind {x : Action (Traced σ) α} {f : α → Action (Traced σ) β} (hx : Surfaces root x)
    (hf : ∀ a, Surfaces root (f a)) : Surfaces root (x >>= f) := by
  intro s
  obtain ⟨events, hevents, hfails⟩ := hx s
  cases hrun : x s with
  | error e t =>
    rw [hrun] at hevents hfails
    rw [bind_of_error hrun]
    refine ⟨events, hevents, fun other e' h => ?_⟩
    obtain ⟨hroot, he⟩ := hfails other e' h
    rw [answer_error] at he ⊢
    exact ⟨hroot, congrArg Except.error (Except.error.inj he)⟩
  | ok a t =>
    rw [hrun, reached_ok] at hevents
    rw [hrun] at hfails
    obtain ⟨events', hevents', hfails'⟩ := hf a t
    rw [bind_of_ok hrun]
    refine ⟨events ++ events', ?_, fun other e h => ?_⟩
    · rw [hevents', hevents, List.append_assoc]
    · -- the first step succeeded, so nothing failed in it
      rcases failsIn_append.1 h with h | h
      · exact absurd (hfails other e h).2 (by simp)
      · exact hfails' other e h

/-- An operation of the client that is written down as done at the root. -/
theorem onHost {event : Except Failure α → Event} {x : EStateM Failure σ α}
    (hevent : ∀ other e result, (event result).Fails other e → other = root ∧ result = .error e) :
    Surfaces root (Action.onHost (Traced.record event x)) := by
  intro s
  refine ⟨[event (answer (x s.host.host))], ?_, fun other e h => ?_⟩
  · rw [Action.reached_onHost, Traced.reached_record]
  · obtain ⟨_, hmem, hfails⟩ := h
    obtain rfl := List.mem_singleton.1 hmem
    rw [Action.answer_onHost, Traced.answer_record]
    exact hevent other e _ hfails

section

variable (git : Git.Client σ) (c : Checkout)

theorem currentBranch : Surfaces c.root (Action.onHost (git.traced.currentBranch c.root)) :=
  onHost fun _ _ _ hfails => ⟨hfails.1.symm, hfails.2⟩

theorem branches : Surfaces c.root (Action.onHost (git.traced.branches c.root)) := by
  have hlist : Surfaces c.root (Action.onHost (git.traced.listBranches c.root)) :=
    onHost fun _ _ _ hfails => ⟨hfails.1.symm, hfails.2⟩
  rw [Client.branches, Action.onHost_bind]
  refine (currentBranch git c).bind fun current? => ?_
  rw [Action.onHost_bind]
  exact hlist.bind fun _ => silent fun _ => rfl

theorem change (m : Mutation) : Surfaces c.root (c.change git.traced m) := by
  have hmutate : Surfaces c.root (Action.onHost (git.traced.mutate c.root m)) :=
    onHost fun _ _ _ hfails => ⟨hfails.1.symm, hfails.2⟩
  intro s
  obtain ⟨events, hevents, hfails⟩ := hmutate s
  rw [Action.reached_onHost] at hevents
  rw [(c.change_apply git.traced m s).1, (c.change_apply git.traced m s).2]
  rw [Action.answer_onHost] at hfails
  exact ⟨events, hevents, hfails⟩

/-- A snapshot of the branches, which are asked for only where none is remembered. -/
theorem snapshot : Surfaces c.root (c.snapshot git.traced) := by
  intro s
  obtain ⟨events, hevents, hfails⟩ := branches git c s
  rw [Checkout.snapshot_apply]
  cases Ordered.get? Path.order c.root s.snapshots with
  | some seen => exact ⟨[], by simp, fun _ _ h => absurd h not_failsIn_nil⟩
  | none =>
    rw [Action.answer_onHost] at hfails
    rw [Action.reached_onHost] at hevents
    cases hask : git.traced.branches c.root s.host with
    | ok seen host =>
      rw [hask] at hevents hfails
      exact ⟨events, hevents, hfails⟩
    | error e host =>
      rw [hask] at hevents hfails
      exact ⟨events, hevents, hfails⟩

theorem perform (operation : Checkout.Operation) :
    Surfaces c.root (c.perform git.traced operation) := by
  cases operation with
  | change m => exact change git c m
  | deleteLeaving branch fallback force =>
    refine (currentBranch git c).bind fun current? => ?_
    split
    · exact (change git c _).bind fun _ => change git c _
    · exact change git c _
  | pushCreating =>
    refine (currentBranch git c).bind fun current? => ?_
    cases current? with
    | none => exact throw _
    | some branch => exact change git c _

/-- Steps on a checkout stop at the first that fails, with its error. -/
theorem runSteps (pretend : Bool) (steps : List MergeStep) :
    Surfaces c.root (MergeRequest.runSteps git.traced pretend c steps) := by
  induction steps with
  | nil => exact pure _
  | cons step rest ih =>
    cases step with
    | announce message => exact (silent fun _ => rfl).bind fun _ => ih
    | perform operation =>
      rw [MergeRequest.runSteps]
      split
      · exact (perform git c operation).bind fun _ => ih
      · exact ih

end

end Surfaces

/-! ### Merges -/

section

variable (git : Git.Client σ) (r : MergeRequest)

/-- Each error that comes up while checkouts are planned is the reason why one is passed over. -/
theorem planAll_tells (cs : List Checkout) (s : Session (Traced σ)) :
    ∃ plans skipped t asked, r.planAll git.traced cs s = .ok (plans, skipped) t ∧
      t.host.events = s.host.events ++ asked ∧
      ∀ root e, FailsIn asked root e →
        ∃ c ∈ cs, c.root = root ∧ (c, .unlisted e.message) ∈ skipped := by
  induction cs generalizing s with
  | nil => exact ⟨[], [], s, [], rfl, by simp, fun _ _ h => absurd h not_failsIn_nil⟩
  | cons c cs ih =>
    obtain ⟨events, hevents, hfails⟩ := Surfaces.snapshot git c s
    obtain ⟨plans, skipped, t, asked, hplan, hasked, htold⟩ :=
      ih (reached (c.snapshot git.traced s))
    have hlater : ∀ root e, FailsIn asked root e →
        ∃ c' ∈ c :: cs, c'.root = root ∧ (c', .unlisted e.message) ∈ skipped := by
      intro root e h
      obtain ⟨c', hc', hroot, hmem⟩ := htold root e h
      exact ⟨c', List.mem_cons_of_mem _ hc', hroot, hmem⟩
    rw [hevents, List.append_assoc] at hasked
    rw [MergeRequest.planAll, bind_of_ok (r.planOne_apply git.traced c s), bind_of_ok hplan]
    cases hfrom : r.planFrom c (c.seen git.traced s) with
    | ok plan =>
      refine ⟨plan :: plans, skipped, t, events ++ asked, rfl, hasked, fun root e h => ?_⟩
      rcases failsIn_append.1 h with h | h
      · -- a checkout with a plan was seen, so nothing failed for it
        rw [Checkout.seen, (hfails root e h).2] at hfrom
        simp [MergeRequest.planFrom] at hfrom
      · exact hlater root e h
    | error obstacle =>
      refine ⟨plans, (c, obstacle) :: skipped, t, events ++ asked, rfl, hasked, fun root e h => ?_⟩
      rcases failsIn_append.1 h with h | h
      · obtain ⟨hroot, hanswer⟩ := hfails root e h
        rw [Checkout.seen, hanswer] at hfrom
        obtain rfl := Except.error.inj hfrom
        exact ⟨c, List.mem_cons_self, hroot.symm, List.mem_cons_self⟩
      · obtain ⟨c', hc', hroot, hmem⟩ := hlater root e h
        exact ⟨c', hc', hroot, List.mem_cons_of_mem _ hmem⟩

/-- Each error that comes up while plans are carried out is told of one that failed. -/
theorem executeAll_tells (ps : List MergePlan) (s : Session (Traced σ)) :
    ∃ merged failed t carried, r.executeAll git.traced ps s = .ok (merged, failed) t ∧
      t.host.events = s.host.events ++ carried ∧
      ∀ root e, FailsIn carried root e →
        ∃ p ∈ ps, p.checkout.root = root ∧ (p.checkout, e.message) ∈ failed := by
  induction ps generalizing s with
  | nil => exact ⟨[], [], s, [], rfl, by simp, fun _ _ h => absurd h not_failsIn_nil⟩
  | cons p ps ih =>
    obtain ⟨events, hevents, hfails⟩ :=
      Surfaces.runSteps git p.checkout r.flags.pretend (p.steps r.flags) s
    rw [← MergeRequest.execute] at hevents hfails
    rw [MergeRequest.executeAll, bind_of_ok (Action.attempt_apply _ s)]
    cases hanswer : answer (r.execute git.traced p s) with
    | ok u =>
      obtain ⟨merged, failed, t, carried, hrest, hcarried, htold⟩ :=
        ih (reached (r.execute git.traced p s))
      rw [hevents, List.append_assoc] at hcarried
      refine ⟨p.checkout :: merged, failed, t, events ++ carried, bind_of_ok hrest, hcarried,
        fun root e h => ?_⟩
      rcases failsIn_append.1 h with h | h
      · rw [(hfails root e h).2] at hanswer
        exact absurd hanswer (by simp)
      · obtain ⟨p', hp', hroot, hmem⟩ := htold root e h
        exact ⟨p', List.mem_cons_of_mem _ hp', hroot, hmem⟩
    | error err =>
      obtain ⟨merged, failed, t, carried, hrest, hcarried, htold⟩ :=
        ih { reached (r.execute git.traced p s) with
          log := (reached (r.execute git.traced p s)).log ++ [⟨.error, "merge failed"⟩] }
      simp only [hevents, List.append_assoc] at hcarried
      refine ⟨merged, (p.checkout, err.message) :: failed, t, events ++ carried,
        (bind_of_ok (Action.note_apply _ _ _)).trans (bind_of_ok hrest), hcarried,
        fun root e h => ?_⟩
      rcases failsIn_append.1 h with h | h
      · obtain ⟨hroot, hfailed⟩ := hfails root e h
        obtain rfl := Except.error.inj (hanswer.symm.trans hfailed)
        exact ⟨p, List.mem_cons_self, hroot.symm, List.mem_cons_self⟩
      · obtain ⟨p', hp', hroot, hmem⟩ := htold root e h
        exact ⟨p', List.mem_cons_of_mem _ hp', hroot, List.mem_cons_of_mem _ hmem⟩

/-- A run tells each error of planning among those passed over, and each error on the way of a plan
among those that failed. -/
theorem run_tells (cs : List Checkout) (s : Session (Traced σ)) :
    ∃ report t asked carried, r.run git.traced cs s = .ok report t ∧
      (reached (r.planAll git.traced cs s)).host.events = s.host.events ++ asked ∧
      t.host.events = s.host.events ++ asked ++ carried ∧
      (∀ root e, FailsIn asked root e →
        ∃ c ∈ cs, c.root = root ∧ (c, .unlisted e.message) ∈ report.skipped) ∧
      ∀ root e, FailsIn carried root e →
        ∃ c ∈ cs, c.root = root ∧ (c, e.message) ∈ report.failed := by
  obtain ⟨plans, skipped, t, asked, hplan, hasked, hskipped⟩ := planAll_tells git r cs s
  rw [MergeRequest.run, bind_of_ok hplan, hplan, reached_ok]
  by_cases hplans : plans = []
  · simp only [hplans, if_true]
    refine ⟨⟨[], skipped, []⟩, _, asked, [], bind_of_ok (Action.note_apply _ _ _), hasked, ?_,
      hskipped, fun _ _ h => absurd h not_failsIn_nil⟩
    rw [List.append_nil]
    exact hasked
  · obtain ⟨merged, failed, u, carried, hrun, hcarried, hfailed⟩ := executeAll_tells git r plans
      { t with
        log := t.log ++ [⟨.info, "Have " ++ toString plans.length ++ " checkouts to merge"⟩] }
    simp only [hplans, if_false]
    refine ⟨⟨merged, skipped, failed⟩, { u with dirtyFlags := [], snapshots := [] }, asked, carried,
      ?_, hasked, ?_, hskipped, fun root e h => ?_⟩
    · rw [bind_of_ok (Action.note_apply _ _ _), bind_of_ok hrun,
        bind_of_ok (Action.forgetAll_apply u), pure_apply]
    · rw [← hasked]
      exact hcarried
    · obtain ⟨p, hp, hroot, hmem⟩ := hfailed root e h
      exact ⟨p.checkout, MergeRequest.checkout_mem_of_planAll hplan hp, hroot, hmem⟩

end

/-! ### Commits -/

/-- Each error in a trace of commits is what became of a checkout. -/
theorem CommitTrace.exists_of_failsIn {message : String}
    {tries : List (Checkout × Except Failure Unit)} {events : List Event}
    (htrace : CommitTrace message tries events) {root : Path} {e : Failure}
    (h : FailsIn events root e) : ∃ c, c.root = root ∧ (c, .error e) ∈ tries := by
  induction htrace with
  | nil => exact absurd h not_failsIn_nil
  | @cons c result events tries events' first _ ih =>
    rcases failsIn_append.1 h with h | h
    · obtain ⟨event, hmem, hfails⟩ := h
      have hresult : c.root = root ∧ result = .error e := by
        cases first with
        | unstaged e' =>
          obtain rfl := List.mem_singleton.1 hmem
          exact hfails
        | staged _ =>
          rcases List.mem_pair.1 hmem with rfl | rfl
          · exact absurd hfails.2 (by simp)
          · exact hfails
      exact ⟨c, hresult.1, hresult.2 ▸ List.mem_cons_self⟩
    · obtain ⟨c', hroot, hmem⟩ := ih h
      exact ⟨c', hroot, List.mem_cons_of_mem _ hmem⟩

theorem CommitReport.mem_failed_of {tries : List (Checkout × Except Failure Unit)} {c : Checkout}
    {e : Failure} (h : (c, .error e) ∈ tries) : (c, e.message) ∈ (CommitReport.of tries).failed :=
  List.mem_filterMap.2 ⟨_, h, rfl⟩

section

variable (git : Git.Client σ) (message : String) (pretend : Bool)

/-- Each error that comes up while checkouts are committed is told of one that failed. -/
theorem commitEach_tells (cs : List Checkout) (s : Session (Traced σ)) :
    ∃ report t tried, commitEach git.traced message pretend cs s = .ok report t ∧
      t.host.events = s.host.events ++ tried ∧ (cs = [] → tried = []) ∧
      ∀ root e, FailsIn tried root e →
        ∃ c ∈ cs, c.root = root ∧ (c, e.message) ∈ report.failed := by
  obtain ⟨t, hrun, hhost⟩ := commitEach_apply git.traced message pretend cs s
  cases pretend with
  | true =>
    rw [commitIn_pretending] at hhost
    exact ⟨_, t, [], hrun, by rw [hhost, List.append_nil], fun _ => rfl,
      fun _ _ h => absurd h not_failsIn_nil⟩
  | false =>
    obtain ⟨events, htraced, htrace⟩ := commitIn_traced git message cs s.host
    rw [htraced] at hrun hhost
    refine ⟨_, t, events, hrun, by rw [hhost], ?_, fun root e h => ?_⟩
    · rintro rfl
      cases htrace
      rfl
    · obtain ⟨c, hroot, hmem⟩ := htrace.exists_of_failsIn h
      exact ⟨c, mem_of_mem_commitIn git message false hmem, hroot, CommitReport.mem_failed_of hmem⟩

/-- The line that notes a failure to answer for the outermost checkout. -/
def unanswered : LogLine :=
  ⟨.error, "cannot query root status"⟩

/-- A failure to answer for the outermost checkout is noted, and counts as no. -/
theorem rootIsDue_tells (w : Workspace) (changed : List Checkout) {s : Session (Traced σ)}
    (hforgotten : s.dirtyFlags = []) :
    ∃ due t asked, rootIsDue git.traced w changed s = .ok due t ∧
      t.host.events = s.host.events ++ asked ∧
      (asked = [] ∨ ∃ answer, asked = [.dirt w.root.root answer]) ∧
      ∀ root e, FailsIn asked root e → due = false ∧ unanswered ∈ t.log := by
  rw [rootIsDue]
  by_cases hknown : w.root.isIn changed
  · simp only [hknown, if_true]
    exact ⟨true, s, [], rfl, by simp, .inl rfl, fun _ _ h => absurd h not_failsIn_nil⟩
  · have hunknown : Ordered.get? Path.order w.root.root s.dirtyFlags = none := by
      rw [hforgotten]
      rfl
    have hreached : reached (git.traced.isDirty w.root.root s.host) =
        ⟨reached (git.isDirty w.root.root s.host.host),
          s.host.events ++ [.dirt w.root.root (git.status s.host.host w.root)]⟩ :=
      Traced.reached_record _ _ _
    have hanswer : answer (git.traced.isDirty w.root.root s.host) =
        git.status s.host.host w.root := git.status_traced s.host w.root
    simp only [hknown, if_false, Bool.false_eq_true]
    rw [bind_of_ok (Action.attempt_apply _ s), Checkout.isDirty_apply, hunknown]
    cases hask : git.traced.isDirty w.root.root s.host with
    | ok dirty host =>
      rw [hask] at hreached hanswer
      rw [reached_ok, ← hanswer] at hreached
      refine ⟨dirty, _, _, rfl, congrArg Traced.events hreached, .inr ⟨_, rfl⟩, ?_⟩
      rintro root e ⟨event, hmem, hfails⟩
      obtain rfl := List.mem_singleton.1 hmem
      exact absurd hfails.2 (by simp)
    | error e host =>
      rw [hask] at hreached
      exact ⟨false, _, _, bind_of_ok (Action.note_apply _ _ _), congrArg Traced.events hreached,
        .inr ⟨_, rfl⟩, fun _ _ _ => ⟨rfl, List.mem_append_right _ List.mem_cons_self⟩⟩

/-- A line of the log stays there whatever is done. -/
theorem stepsKeep_line (line : LogLine) (all : List Checkout) :
    StepsKeep git.traced all fun s => line ∈ s.log where
  note _ _ _ hline := List.mem_append_left _ hline
  forgetAll _ hline := hline
  forget _ _ _ hline := hline
  isDirty c _ s hline := by
    rw [Checkout.isDirty_apply]
    cases Ordered.get? Path.order c.root s.dirtyFlags with
    | some dirty => exact hline
    | none => cases git.traced.isDirty c.root s.host <;> exact hline
  currentBranch c _ s hline := by
    rw [Action.reached_onHost]
    exact hline
  change c _ m s hline := by
    rw [(c.change_apply git.traced m s).2]
    exact hline

/-- A commit of what changed tells each error of a change among those that failed. Where the client
does not answer for the outermost checkout this is noted, and nothing is tried there. -/
theorem commitChanges_tells (w : Workspace) (changed : List Checkout) (s : Session (Traced σ)) :
    ∃ report t tried asked tried',
      commitChanges git.traced w changed message pretend s = .ok report t ∧
      t.host.events = s.host.events ++ tried ++ asked ++ tried' ∧
      (∀ root e, FailsIn (tried ++ tried') root e →
        ∃ c ∈ w.root :: changed, c.root = root ∧ (c, e.message) ∈ report.failed) ∧
      (asked = [] ∨ ∃ answer, asked = [.dirt w.root.root answer]) ∧
      ∀ root e, FailsIn asked root e → tried' = [] ∧ unanswered ∈ t.log := by
  obtain ⟨first, s₁, tried, hinner, htried, -, hfirst⟩ :=
    commitEach_tells git message pretend (commitOrder changed) s
  obtain ⟨due, s₂, asked, hdue, hasked, honly, hnoted⟩ := rootIsDue_tells git w changed
    (s := { s₁ with dirtyFlags := [], snapshots := [] }) rfl
  obtain ⟨last, s₃, tried', hlast, htried', hnone, hreported⟩ :=
    commitEach_tells git message pretend (w.rootIf due) s₂
  refine ⟨first ++ last, { s₃ with dirtyFlags := [], snapshots := [] }, tried, asked, tried', ?_,
    ?_, fun root e h => ?_, honly, fun root e h => ?_⟩
  · rw [commitChanges, ← commitOrder, bind_of_ok hinner, bind_of_ok (Action.forgetAll_apply s₁),
      bind_of_ok hdue, ← Workspace.rootIf, bind_of_ok hlast, bind_of_ok (Action.forgetAll_apply s₃),
      pure_apply]
  · rw [← htried, ← hasked]
    exact htried'
  · rcases failsIn_append.1 h with h | h
    · obtain ⟨c, hc, hroot, hmem⟩ := hfirst root e h
      exact ⟨c, List.mem_cons_of_mem _ (mem_commitOrder.1 hc).1, hroot,
        List.mem_append_left _ hmem⟩
    · obtain ⟨c, hc, hroot, hmem⟩ := hreported root e h
      obtain rfl := w.eq_root_of_mem_rootIf hc
      exact ⟨w.root, List.mem_cons_self, hroot, List.mem_append_right _ hmem⟩
  · obtain ⟨hdue', hline⟩ := hnoted root e h
    have hkept := (stepsKeep_line git unanswered (w.rootIf due)).commitEach message pretend
      (fun _ hc => hc) s₂ hline
    rw [hlast] at hkept
    exact ⟨hnone (by rw [hdue']; rfl), hkept⟩

end

/-! ### Whole runs -/

/-- **No failure is lost.** Whatever fails while plans are carried out, or while changes are
committed, is reported of its checkout, with the error, among those that failed; so where a run is a
success nothing failed on the way. What fails while branches are asked for is reported with the
error among those passed over. A failure to answer for the outermost checkout is noted in the log,
and nothing is tried there. -/
theorem failures_told (git : Git.Client σ) :
    (∀ (r : MergeRequest) (cs : List Checkout) (s : Session (Traced σ)),
      ∃ report t asked carried, r.run git.traced cs s = .ok report t ∧
        (reached (r.planAll git.traced cs s)).host.events = s.host.events ++ asked ∧
        t.host.events = s.host.events ++ asked ++ carried ∧
        (∀ root e, FailsIn asked root e →
          ∃ c ∈ cs, c.root = root ∧ (c, .unlisted e.message) ∈ report.skipped) ∧
        (∀ root e, FailsIn carried root e →
          ∃ c ∈ cs, c.root = root ∧ (c, e.message) ∈ report.failed) ∧
        (report.isSuccess = true → ∀ root e, ¬FailsIn carried root e)) ∧
      ∀ (w : Workspace) (changed : List Checkout) (message : String) (pretend : Bool)
        (s : Session (Traced σ)),
        ∃ report t tried asked tried',
          commitChanges git.traced w changed message pretend s = .ok report t ∧
          t.host.events = s.host.events ++ tried ++ asked ++ tried' ∧
          (∀ root e, FailsIn (tried ++ tried') root e →
            ∃ c ∈ w.root :: changed, c.root = root ∧ (c, e.message) ∈ report.failed) ∧
          (asked = [] ∨ ∃ answer, asked = [.dirt w.root.root answer]) ∧
          ∀ root e, FailsIn asked root e → tried' = [] ∧ unanswered ∈ t.log := by
  refine ⟨fun r cs s => ?_, fun w changed message pretend s =>
    commitChanges_tells git message pretend w changed s⟩
  obtain ⟨report, t, asked, carried, hrun, hasked, hcarried, hskipped, hfailed⟩ :=
    run_tells git r cs s
  refine ⟨report, t, asked, carried, hrun, hasked, hcarried, hskipped, hfailed,
    fun hsuccess root e h => ?_⟩
  obtain ⟨c, -, -, hmem⟩ := hfailed root e h
  rw [List.isEmpty_iff.1 hsuccess] at hmem
  exact absurd hmem List.not_mem_nil

/-- A run is a success although the branches of its checkout could not be listed, and a commit tells
of no failure although the outermost checkout could not be asked about. -/
theorem failures_beside_success :
    let outer := Checkout.outermost ⟨["ws"]⟩
    let host := Recorder.empty.put outer.root
      { Repo.empty with failing := [.listBranches, .isDirty] }
    let s : Session (Traced Recorder) := Session.start ⟨host, []⟩
    let r : MergeRequest := ⟨none, "develop", none, ⟨true, false, false, false⟩⟩
    (∃ report t, r.run Recorder.client.traced [outer] s = .ok report t ∧
      FailsIn t.host.events outer.root (Recorder.simulated "list_branches") ∧
      report.failed = [] ∧ report.isSuccess = true) ∧
    ∃ report t, commitChanges Recorder.client.traced (Workspace.ofFinds outer.root [] []) [] "m"
        false s = .ok report t ∧
      FailsIn t.host.events outer.root (Recorder.simulated "is_dirty") ∧ report.failed = [] := by
  intro outer host s r
  have hmerge : answer (r.run Recorder.client.traced [outer] s) =
      .ok ⟨[], [(outer, .unlisted (Recorder.simulated "list_branches").message)], []⟩ := by
    decide +kernel
  obtain ⟨t, hcommit, hhost⟩ := commitChanges_apply Recorder.client.traced "m" false
    (Workspace.ofFinds outer.root [] []) [] s
  have horder : commitOrder [] = [] := List.mergeSort_nil
  rw [horder] at hcommit hhost
  refine ⟨⟨_, _, eq_ok_of_answer hmerge, ?_, rfl, rfl⟩, ⟨_, t, hcommit, ?_, by decide +kernel⟩⟩
  · exact ⟨.branches outer.root (.error _), List.mem_cons_of_mem _ List.mem_cons_self, rfl, rfl⟩
  · rw [hhost]
    exact ⟨.dirt outer.root (.error _), List.mem_cons_self, rfl, rfl⟩

end Grove
