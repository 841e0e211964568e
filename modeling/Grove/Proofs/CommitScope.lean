import Grove.Proofs.CommitRun

/-!
# What is committed of earlier changes

The changes that an action left behind are committed, and what was dirty before it is not among
them. So a checkout inside the outermost one is left alone if it was dirty before. The outermost one
is committed last, by a rule of its own: it may have been dirty before, and is committed where the
client, asked once the others are done, answers that it is dirty.

## What is proved

* `found_of_detectChanges` — what is found was clean before the action, and is found once.
* `commits_spare_earlier` — which of the checkouts dirty before the action a commit reaches.
-/

namespace Grove

open Git

variable {σ α : Type}

/-! ### Changes in a trace -/

namespace CommitTrace

variable {message : String} {tries : List (Checkout × Except Failure Unit)} {events : List Event}

/-- What is tried while committing is tried in one of the checkouts. -/
theorem exists_of_changes (h : CommitTrace message tries events) {e : Event} (he : e ∈ events)
    {root : Path} (hchanges : e.Changes root) : ∃ entry ∈ tries, entry.1.root.alike root := by
  induction h with
  | nil => simp at he
  | @cons c result first tries rest hfirst _ ih =>
    rcases List.mem_append.1 he with he | he
    · refine ⟨(c, result), List.mem_cons_self, ?_⟩
      obtain ⟨other, m, answer, rfl, halike⟩ := hchanges
      cases hfirst with
      | unstaged e =>
        simp only [List.mem_cons, List.not_mem_nil, or_false, Event.change.injEq] at he
        exact he.1 ▸ halike
      | staged result =>
        simp only [List.mem_cons, List.not_mem_nil, or_false, Event.change.injEq] at he
        rcases he with hadd | hcommit
        · exact hadd.1 ▸ halike
        · exact hcommit.1 ▸ halike
    · obtain ⟨entry, hentry, halike⟩ := ih he
      exact ⟨entry, List.mem_cons_of_mem _ hentry, halike⟩

end CommitTrace

/-- Settling whether the outermost checkout is due changes no repository. -/
theorem RootSettled.not_changes {w : Workspace} {changed : List Checkout} {due : Bool}
    {asked : List Event} (h : RootSettled w changed due asked) {e : Event} (he : e ∈ asked)
    (root : Path) : ¬e.Changes root := by
  rintro ⟨other, m, answer, rfl, -⟩
  cases h <;> simp at he

/-- An outermost checkout that is due but not known to be changed was answered to be dirty. -/
theorem RootSettled.asked_of_not_mem {w : Workspace} {changed : List Checkout}
    {asked : List Event} (h : RootSettled w changed true asked) (hmem : w.root ∉ changed) :
    asked = [.dirt w.root.root (.ok true)] := by
  cases h with
  | known hknown => exact absurd hknown hmem
  | asked _ hdue => rw [hdue.1 rfl]

namespace CommitRun

variable {w : Workspace} {changed : List Checkout} {message : String}
  (run : CommitRun w changed message) {entry : Checkout × Except Failure Unit}

theorem mem_of_mem_inner (hentry : entry ∈ run.inner) : entry.1 ∈ changed := by
  have hmem : entry.1 ∈ run.inner.map (·.1) := List.mem_map.2 ⟨entry, hentry, rfl⟩
  rw [run.inner_checkouts] at hmem
  exact (mem_commitOrder.1 hmem).1

theorem of_mem_last (hentry : entry ∈ run.last) : run.due = true ∧ entry.1 = w.root := by
  have hmem : entry.1 ∈ run.last.map (·.1) := List.mem_map.2 ⟨entry, hentry, rfl⟩
  rw [run.last_checkouts] at hmem
  refine ⟨?_, w.eq_root_of_mem_rootIf hmem⟩
  by_contra hdue
  simp [Workspace.rootIf, hdue] at hmem

end CommitRun

/-! ### What is found -/

variable {git : Git.Client σ}

/-- What is found was clean before the action, and is found once. -/
theorem found_of_detectChanges (hgit : git.Steady) {w : Workspace} (hw : w.Lawful)
    {action : Action σ α} {s t : Session σ} {value : α} {found : List Checkout}
    (hrun : detectChanges git w action s = .ok (value, found) t) :
    found.Nodup ∧ ∀ c ∈ found, c ∈ w.checkouts ∧ git.status s.host c = .ok false := by
  rw [detectChanges] at hrun
  by_cases hbefore : git.Answers s.host w
  · obtain ⟨before, s₁, hlook, -, -, hmem⟩ := dirtyCheckouts_of_answers hgit hw hbefore
    rw [bind_of_ok hlook] at hrun
    cases haction : action s₁ with
    | error e s₂ => simp [bind_of_error haction] at hrun
    | ok value' s₂ =>
      rw [bind_of_ok haction] at hrun
      by_cases hafter : git.Answers s₂.host w
      · obtain ⟨after, s₃, hlook', -, hincreasing, hmem'⟩ :=
          dirtyCheckouts_of_answers hgit hw hafter
        rw [bind_of_ok hlook', pure_apply] at hrun
        obtain ⟨hanswer, -⟩ := EStateM.Result.ok.inj hrun
        obtain ⟨-, rfl⟩ := Prod.mk.inj hanswer
        refine ⟨hincreasing.nodup.filter _, fun c hc => ?_⟩
        obtain ⟨hcheckout, hclean, -⟩ :=
          (mem_new_iff (w.distinct_checkouts hw) hbefore hmem hmem').1 hc
        exact ⟨hcheckout, hclean⟩
      · obtain ⟨c, -, e, s₃, -, hlook', -⟩ := dirtyCheckouts_of_failure hgit hw hafter
        simp [bind_of_error hlook'] at hrun
  · obtain ⟨c, -, e, s₁, -, hlook, -⟩ := dirtyCheckouts_of_failure hgit hw hbefore
    simp [bind_of_error hlook] at hrun

/-- **Commits spare earlier changes.** For every workspace, client and action: where the changes
that the action left behind are committed, nothing is staged or committed in a checkout inside the
outermost one that was dirty before the action. In an outermost one that was dirty before, this is
done only after all others are done and the client, asked then, has answered that it is dirty.
Pretending changes nothing anywhere. -/
theorem commits_spare_earlier (hgit : git.Steady) (root : Path) (roots : List Path)
    (poms : List Pom) (action : Action (Traced σ) α) (message : String) {s t : Session (Traced σ)}
    {value : α} {found : List Checkout} :
    let w := Workspace.ofFinds root roots poms
    detectChanges git.traced w action s = .ok (value, found) t →
    (∃ (run : CommitRun w found message) (u : Session (Traced σ)),
      commitChanges git.traced w found message false t = .ok run.report u ∧
      u.host.events = t.host.events ++ run.events ∧
      ∀ c ∈ w.checkouts, git.status s.host.host c = .ok true →
        (∀ e ∈ run.innerEvents ++ run.asked, ¬e.Changes c.root) ∧
        ∀ e ∈ run.lastEvents, e.Changes c.root →
          c = w.root ∧ run.asked = [.dirt w.root.root (.ok true)]) ∧
    ∃ report u events,
      commitChanges git.traced w found message true t = .ok report u ∧
      u.host.events = t.host.events ++ events ∧ ∀ e ∈ events, ∀ root, ¬e.Changes root := by
  intro w hrun
  have hw : w.Lawful := Workspace.lawful_ofFinds root roots poms
  obtain ⟨hnodup, hfound⟩ := found_of_detectChanges (Client.steady_traced hgit) hw hrun
  have hchanged : ∀ c ∈ found, c ∈ w.checkouts := fun c hc => (hfound c hc).1
  refine ⟨?_, ?_⟩
  · obtain ⟨run, u, hcommit, hevents, -⟩ :=
      commitChanges_traced git message hw hchanged hnodup rfl t
    refine ⟨run, u, hcommit, hevents, fun c hc hdirty => ?_⟩
    have hearlier : c ∉ found := by
      intro hmem
      have hclean := (hfound c hmem).2
      rw [Client.status_traced, hdirty] at hclean
      simp at hclean
    refine ⟨fun e he hchanges => ?_, fun e he hchanges => ?_⟩
    · rcases List.mem_append.1 he with hinner | hasked
      · obtain ⟨entry, hentry, halike⟩ := run.inner_trace.exists_of_changes hinner hchanges
        have hmem := run.mem_of_mem_inner hentry
        exact hearlier (w.eq_of_same hw (hchanged _ hmem) hc halike ▸ hmem)
      · exact run.settled.not_changes hasked c.root hchanges
    · obtain ⟨entry, hentry, halike⟩ := run.last_trace.exists_of_changes he hchanges
      obtain ⟨hdue, hroot⟩ := run.of_mem_last hentry
      rw [hroot] at halike
      obtain rfl : w.root = c := w.eq_of_same hw hw.root hc halike
      have hsettled := run.settled
      rw [hdue] at hsettled
      exact ⟨rfl, hsettled.asked_of_not_mem hearlier⟩
  · obtain ⟨due, asked, u, hcommit, hevents, hsettled⟩ :=
      commitChanges_pretending git message hw hchanged t
    exact ⟨_, u, asked, hcommit, hevents, fun e he => hsettled.not_changes he⟩

/-- A checkout that was dirty before an action that touches the one beside it is left alone. -/
theorem commits_spare_earlier_beside :
    let outer := Checkout.outermost ⟨["ws"]⟩
    let app := Checkout.nested ⟨["ws", "app"]⟩ outer.root
    let lib := Checkout.nested ⟨["ws", "lib"]⟩ outer.root
    let w := Workspace.ofFinds outer.root [app.root, lib.root] []
    let s := Session.start
      (⟨Recorder.empty.put app.root { Repo.empty with dirty := true }, []⟩ : Traced Recorder)
    let touching : Action (Traced Recorder) Unit :=
      Action.onHost (modify fun h => { h with host := h.host.touch lib.root })
    ∃ t report u events, detectChanges Recorder.client.traced w touching s = .ok ((), [lib]) t ∧
      commitChanges Recorder.client.traced w [lib] "msg" false t = .ok report u ∧
      u.host.events = t.host.events ++ events ∧ ∀ e ∈ events, ¬e.Changes app.root := by
  intro outer app lib w s touching
  have hfound : answer (detectChanges Recorder.client.traced w touching s) = .ok ((), [lib]) := by
    decide +kernel
  have hdetect := eq_ok_of_answer hfound
  obtain ⟨⟨run, u, hcommit, hevents, hspared⟩, -⟩ := commits_spare_earlier Recorder.steady_client
    outer.root [app.root, lib.root] [] touching "msg" hdetect
  obtain ⟨hbefore, hlast⟩ := hspared app (by decide +kernel) (by decide +kernel)
  refine ⟨_, _, u, run.events, hdetect, hcommit, hevents, fun e he hchanges => ?_⟩
  rcases List.mem_append.1 he with he | he
  · exact hbefore e he hchanges
  · exact absurd (hlast e he hchanges).1 (by decide +kernel)

/-- Where the outermost checkout was dirty before an action that touches another one, both are
committed. -/
theorem commits_reach_dirty_root :
    let outer := Checkout.outermost ⟨["ws"]⟩
    let lib := Checkout.nested ⟨["ws", "lib"]⟩ outer.root
    let w := Workspace.ofFinds outer.root [lib.root] []
    let s := Session.start (Recorder.empty.put outer.root { Repo.empty with dirty := true })
    let touching : Action Recorder Unit := Action.onHost (modify (·.touch lib.root))
    Recorder.client.status s.host outer = .ok true ∧
      ∃ t report u, detectChanges Recorder.client w touching s = .ok ((), [lib]) t ∧
        commitChanges Recorder.client w [lib] "msg" false t = .ok report u ∧
        t.host.callsAt outer.root = [] ∧ u.host.callsAt outer.root = ["add -A", "commit msg"] := by
  intro outer lib w s touching
  have hfound : answer (detectChanges Recorder.client w touching s) = .ok ((), [lib]) := by
    decide +kernel
  let t := reached (detectChanges Recorder.client w touching s)
  have horder : commitOrder [lib] = [lib] := List.mergeSort_singleton lib
  obtain ⟨u, hcommit, hhost⟩ := commitChanges_apply Recorder.client "msg" false w [lib] t
  rw [horder] at hhost
  refine ⟨by decide +kernel, t, _, u, eq_ok_of_answer hfound, hcommit, by decide +kernel, ?_⟩
  rw [hhost]
  decide +kernel

end Grove
