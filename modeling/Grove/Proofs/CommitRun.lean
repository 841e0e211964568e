import Mathlib.Data.List.Permutation
import Grove.Proofs.Commits
import Grove.Proofs.Separate
import Grove.Proofs.Trace

/-!
# Accounts of commits

What a client is asked for while changes are committed can be told from its trace. It is the account
of a run: the inner checkouts are tried in order, it is settled whether the outermost one is due,
and that one is tried if it is. A checkout is committed only where it could be staged.

## What is proved

* `commitIn_separate` — where repositories are separate, each commit comes out as it would alone.
* `commitChanges_traced` — what is written down while changes are committed is the account of a run.
* `commitChanges_orderly` — what the accounts of all runs have in common.
-/

namespace Grove

open Git

variable {σ ρ : Type}

/-! ### Traces -/

/-- What comes of committing one checkout, with the changes that are tried in it. -/
inductive CommitAttempt (message : String) (c : Checkout) :
    Except Failure Unit → List Event → Prop where
  /-- It cannot be staged, so no commit is tried. -/
  | unstaged (e : Failure) :
    CommitAttempt message c (.error e) [.change c.root .addAll (.error e)]
  /-- It is staged, and the commit decides. -/
  | staged (result : Except Failure Unit) :
    CommitAttempt message c result
      [.change c.root .addAll (.ok ()), .change c.root (.commit message) result]

/-- What comes of committing checkouts one after another, with the changes that are tried. -/
inductive CommitTrace (message : String) :
    List (Checkout × Except Failure Unit) → List Event → Prop where
  /-- There is no checkout. -/
  | nil : CommitTrace message [] []
  /-- One checkout and then the others, whatever came of the first. -/
  | cons {c result events tries events'} (first : CommitAttempt message c result events)
      (rest : CommitTrace message tries events') :
    CommitTrace message ((c, result) :: tries) (events ++ events')

/-- How it is settled whether the outermost checkout is due, with what is asked for that. -/
inductive RootSettled (w : Workspace) (changed : List Checkout) : Bool → List Event → Prop where
  /-- It is known to be changed. -/
  | known (hknown : w.root ∈ changed) : RootSettled w changed true []
  /-- The client is asked, and an answer that it is dirty makes it due. -/
  | asked {due : Bool} {answer : Except Failure Bool} (hunknown : w.root ∉ changed)
      (hdue : due = true ↔ answer = .ok true) :
    RootSettled w changed due [.dirt w.root.root answer]

theorem RootSettled.due_of_mem {w : Workspace} {changed : List Checkout} {due : Bool}
    {asked : List Event} (h : RootSettled w changed due asked) (hmem : w.root ∈ changed) :
    due = true := by
  cases h with
  | known _ => rfl
  | asked hunknown _ => exact absurd hmem hunknown

/-- An account of a run that commits what changed: the inner checkouts are tried in order, it is
settled whether the outermost one is due, and that one is tried if it is. -/
structure CommitRun (w : Workspace) (changed : List Checkout) (message : String) where
  /-- What became of the inner checkouts. -/
  inner : List (Checkout × Except Failure Unit)
  /-- The changes that were tried for that. -/
  innerEvents : List Event
  /-- Whether the outermost checkout is due. -/
  due : Bool
  /-- What was asked for that. -/
  asked : List Event
  /-- What became of the outermost checkout, if it is due. -/
  last : List (Checkout × Except Failure Unit)
  /-- The changes that were tried for that. -/
  lastEvents : List Event
  /-- The inner checkouts are tried in order, one after another. -/
  inner_checkouts : inner.map (·.1) = commitOrder changed
  inner_trace : CommitTrace message inner innerEvents
  settled : RootSettled w changed due asked
  last_checkouts : last.map (·.1) = w.rootIf due
  last_trace : CommitTrace message last lastEvents

namespace CommitRun

variable {w : Workspace} {changed : List Checkout} {message : String}
  (run : CommitRun w changed message)

/-- What became of each checkout that was tried. -/
def tries : List (Checkout × Except Failure Unit) :=
  run.inner ++ run.last

/-- All operations the client was asked for. -/
def events : List Event :=
  run.innerEvents ++ run.asked ++ run.lastEvents

/-- The report on all that were tried. -/
def report : CommitReport :=
  .of run.tries

theorem checkouts_tries : run.tries.map (·.1) = commitOrder changed ++ w.rootIf run.due := by
  rw [tries, List.map_append, run.inner_checkouts, run.last_checkouts]

theorem sorts_report : run.report.Sorts (commitOrder changed ++ w.rootIf run.due) := by
  rw [← run.checkouts_tries]
  exact CommitReport.of_sorts run.tries

end CommitRun

section

variable (git : Git.Client σ) (message : String)

/-- A commit that is written down comes out as before, and leaves its attempt in the trace. -/
theorem commitAll_traced (c : Checkout) (h : Traced σ) :
    let plain := git.commitAll message false c.root h.host
    let traced := git.traced.commitAll message false c.root h
    ∃ events, answer traced = answer plain ∧ reached traced = ⟨reached plain, h.events ++ events⟩ ∧
      CommitAttempt message c (answer plain) events := by
  intro plain traced
  have hplain : plain =
      (git.mutate c.root .addAll >>= fun _ => git.mutate c.root (.commit message)) h.host := rfl
  have htraced : traced = (git.traced.mutate c.root .addAll >>= fun _ =>
      git.traced.mutate c.root (.commit message)) h := rfl
  rw [hplain, htraced]
  cases hadd : git.mutate c.root .addAll h.host with
  | error e host =>
    have hadd' : git.traced.mutate c.root .addAll h =
        .error e ⟨host, h.events ++ [.change c.root .addAll (.error e)]⟩ := by
      simp only [Client.traced, Traced.record, hadd]
    rw [bind_of_error hadd, bind_of_error hadd']
    exact ⟨_, rfl, rfl, .unstaged e⟩
  | ok u host =>
    have hadd' : git.traced.mutate c.root .addAll h =
        .ok u ⟨host, h.events ++ [.change c.root .addAll (.ok ())]⟩ := by
      simp only [Client.traced, Traced.record, hadd]
    rw [bind_of_ok hadd, bind_of_ok hadd']
    refine ⟨_, Traced.answer_record _ _ _, ?_, .staged _⟩
    rw [Client.traced, Traced.reached_record, List.append_assoc]
    rfl

theorem commitIn_traced (cs : List Checkout) (h : Traced σ) :
    let plain := git.commitIn message false cs h.host
    ∃ events, git.traced.commitIn message false cs h =
        (plain.1, ⟨plain.2, h.events ++ events⟩) ∧ CommitTrace message plain.1 events := by
  induction cs generalizing h with
  | nil => exact ⟨[], by simp [Client.commitIn], .nil⟩
  | cons c cs ih =>
    obtain ⟨events, hanswer, hreached, hattempt⟩ := commitAll_traced git message c h
    obtain ⟨events', hrest, htrace⟩ := ih (reached (git.traced.commitAll message false c.root h))
    rw [hreached] at hrest htrace
    refine ⟨events ++ events', ?_, .cons hattempt htrace⟩
    simp only [Client.commitIn, hanswer, hreached, hrest, List.append_assoc]

theorem rootDue_traced {w : Workspace} {changed : List Checkout}
    (hknown : w.root.isIn changed ↔ w.root ∈ changed) (h : Traced σ) :
    let plain := git.rootDue w changed h.host
    ∃ asked, git.traced.rootDue w changed h = (plain.1, ⟨plain.2, h.events ++ asked⟩) ∧
      RootSettled w changed plain.1 asked := by
  simp only [Client.rootDue]
  by_cases hroot : w.root.isIn changed
  · simp only [hroot, if_true]
    exact ⟨[], by simp, .known (hknown.1 hroot)⟩
  · simp only [hroot, if_false, Bool.false_eq_true]
    refine ⟨[.dirt w.root.root (git.status h.host w.root)], ?_,
      .asked (fun hmem => hroot (hknown.2 hmem)) ?_⟩
    · rw [Client.status_traced, Client.traced, Traced.reached_record]
      rfl
    · cases git.status h.host w.root <;> simp [Except.toOption]

end

/-! ### Each as it would be alone -/

/-- From `h` to `h'` some checkouts were tried, and each came out as it would have alone. -/
structure EachAlone (git : Git.Client σ) (view : σ → Path → ρ) (message : String)
    (tries : List (Checkout × Except Failure Unit)) (h h' : σ) : Prop where
  result : ∀ c result, (c, result) ∈ tries →
    result = answer (git.commitAll message false c.root h)
  own : ∀ c result, (c, result) ∈ tries →
    view h' c.root = view (reached (git.commitAll message false c.root h)) c.root
  others : ∀ root, (∀ c result, (c, result) ∈ tries → ¬root.alike c.root) →
    view h' root = view h root

/-- Tries that came out as they would alone are told by their checkouts. -/
theorem EachAlone.tries_eq {git : Git.Client σ} {view : σ → Path → ρ} {message : String}
    {tries : List (Checkout × Except Failure Unit)} {h h' : σ}
    (htries : EachAlone git view message tries h h') :
    tries = (tries.map (·.1)).map fun c => (c, answer (git.commitAll message false c.root h)) := by
  have heach : tries.map (fun entry =>
      (entry.1, answer (git.commitAll message false entry.1.root h))) = tries.map id :=
    List.map_congr_left fun entry hentry =>
      Prod.ext rfl (htries.result entry.1 entry.2 hentry).symm
  rw [List.map_map, ← List.map_id tries, List.map_map]
  exact heach.symm

section

variable {git : Git.Client σ} {view : σ → Path → ρ} (hgit : git.Separate view) {message : String}

include hgit

/-- A commit is confined to its repository. -/
theorem confined_commitAll (root : Path) :
    Confined view root (git.commitAll message false root) :=
  (hgit.mutate root .addAll).bind fun _ => hgit.mutate root (.commit message)

theorem EachAlone.one (c : Checkout) (h : σ) :
    EachAlone git view message [(c, answer (git.commitAll message false c.root h))] h
      (reached (git.commitAll message false c.root h)) where
  result := by simp
  own := by simp
  others := fun root hroot =>
    (confined_commitAll hgit c.root).others (hroot c _ List.mem_cons_self)

/-- Tries come out as they would alone where some do, then nothing changes, and then others do. -/
theorem EachAlone.append {tries tries' : List (Checkout × Except Failure Unit)} {h h₁ h₂ h' : σ}
    (hfirst : EachAlone git view message tries h h₁) (hbetween : view h₂ = view h₁)
    (hrest : EachAlone git view message tries' h₂ h')
    (hapart : ∀ c result c' result', (c, result) ∈ tries → (c', result') ∈ tries' → ¬c.same c') :
    EachAlone git view message (tries ++ tries') h h' := by
  -- the later ones find their repositories as they were at the start
  have hlater : ∀ c result, (c, result) ∈ tries' → view h₂ c.root = view h c.root := by
    intro c' result' hc'
    rw [hbetween]
    refine hfirst.others c'.root fun c result hc halike => hapart c result c' result' hc hc' ?_
    rwa [Path.alike_comm] at halike
  refine ⟨fun c result hc => ?_, fun c result hc => ?_, fun root hroot => ?_⟩
  · rcases List.mem_append.1 hc with hc | hc
    · exact hfirst.result c result hc
    · rw [hrest.result c result hc]
      exact (confined_commitAll hgit c.root).answered (hlater c result hc)
  · rcases List.mem_append.1 hc with hc | hc
    · rw [hrest.others c.root fun c' result' hc' => hapart c result c' result' hc hc', hbetween]
      exact hfirst.own c result hc
    · rw [hrest.own c result hc]
      exact (confined_commitAll hgit c.root).changed (hlater c result hc)
  · rw [hrest.others root fun c result hc => hroot c result (List.mem_append_right _ hc), hbetween]
    exact hfirst.others root fun c result hc => hroot c result (List.mem_append_left _ hc)

/-- Checkouts with different roots are committed as each would be alone. -/
theorem commitIn_separate {cs : List Checkout} (hcs : cs.Pairwise fun a b => ¬a.same b) (h : σ) :
    EachAlone git view message (git.commitIn message false cs h).1 h
      (git.commitIn message false cs h).2 := by
  induction cs generalizing h with
  | nil => exact ⟨by simp [Client.commitIn], by simp [Client.commitIn], fun _ _ => rfl⟩
  | cons c cs ih =>
    obtain ⟨hc, hcs⟩ := List.pairwise_cons.1 hcs
    refine (EachAlone.one hgit c h).append hgit rfl (ih hcs _) fun a result b result' ha hb => ?_
    obtain rfl : a = c := congrArg Prod.fst (List.mem_singleton.1 ha)
    exact hc b (mem_of_mem_commitIn git message false hb)

/-- Settling whether the outermost checkout is due changes no repository. -/
theorem view_rootDue (w : Workspace) (changed : List Checkout) (h : σ) :
    view (git.rootDue w changed h).2 = view h := by
  rw [Client.rootDue]
  split
  · rfl
  · exact hgit.isDirty.unchanged w.root.root h

end

/-! ### A whole run -/

section

variable (git : Git.Client σ) (message : String) {w : Workspace} {changed : List Checkout}
  (hw : w.Lawful) (hchanged : ∀ c ∈ changed, c ∈ w.checkouts)

include hw hchanged

/-- The inner ones of some checkouts of a workspace are those other than its root. -/
theorem commitOrder_perm_of_lawful (hroot : w.root.isOutermost = true) :
    (commitOrder changed).Perm (changed.filter fun c => c ≠ w.root) := by
  have hinner : (changed.filter fun c => !c.isOutermost) = changed.filter fun c => c ≠ w.root := by
    refine List.filter_congr fun c hc => ?_
    by_cases heq : c = w.root
    · simp [heq, hroot]
    · have houter : c.isOutermost = false :=
        Bool.eq_false_iff.2 fun h => heq (hw.outermost c (hchanged c hc) h)
      simp [heq, houter]
  rw [← hinner]
  exact commitOrder_perm changed

theorem not_same_root (hroot : w.root.isOutermost = true) {c : Checkout}
    (hc : c ∈ commitOrder changed) : ¬c.same w.root := by
  obtain ⟨hmem, hinner⟩ := mem_commitOrder.1 hc
  intro hsame
  rw [w.eq_of_same hw (hchanged c hmem) hw.root hsame, hroot] at hinner
  exact Bool.noConfusion hinner

theorem root_isIn_iff : w.root.isIn changed ↔ w.root ∈ changed :=
  isIn_iff (w.distinct_checkouts hw) hw.root hchanged

/-- What is written down while committing what changed is the account of a run. Where repositories
are separate, each checkout in it came out as it would have alone. -/
theorem commitChanges_traced (hnodup : changed.Nodup) (hroot : w.root.isOutermost = true)
    (s : Session (Traced σ)) :
    ∃ (run : CommitRun w changed message) (t : Session (Traced σ)),
      commitChanges git.traced w changed message false s = .ok run.report t ∧
      t.host.events = s.host.events ++ run.events ∧
      ∀ {ρ : Type} {view : σ → Path → ρ}, git.Separate view →
        EachAlone git view message run.tries s.host.host t.host.host := by
  let inner := git.commitIn message false (commitOrder changed) s.host.host
  let due := git.rootDue w changed inner.2
  let last := git.commitIn message false (w.rootIf due.1) due.2
  obtain ⟨t, hrun, hhost⟩ := commitChanges_apply git.traced message false w changed s
  obtain ⟨events, hinner, htrace⟩ := commitIn_traced git message (commitOrder changed) s.host
  rw [hinner] at hrun hhost
  obtain ⟨asked, hdue, hsettled⟩ :=
    rootDue_traced git (root_isIn_iff hw hchanged) ⟨inner.2, s.host.events ++ events⟩
  rw [hdue] at hrun hhost
  obtain ⟨events', hlast, htrace'⟩ := commitIn_traced git message (w.rootIf due.1)
    ⟨due.2, s.host.events ++ events ++ asked⟩
  rw [hlast] at hrun hhost
  refine ⟨⟨inner.1, events, due.1, asked, last.1, events', checkouts_commitIn .., htrace, hsettled,
    checkouts_commitIn .., htrace'⟩, t, hrun, ?_, fun {ρ view} hgit => ?_⟩
  · rw [hhost, CommitRun.events, List.append_assoc, List.append_assoc, List.append_assoc]
  · have hdistinct : Distinct changed := fun c hc c' hc' =>
      w.distinct_checkouts hw c (hchanged c hc) c' (hchanged c' hc')
    have hapart : (commitOrder changed).Pairwise fun a b => ¬a.same b :=
      (precedes_commitOrder hnodup hdistinct).imp fun hprecedes hsame =>
        hprecedes.not_encloses (Checkout.encloses_of_same hsame)
    have hlast : (w.rootIf due.1).Pairwise fun a b => ¬a.same b := by
      rw [Workspace.rootIf]
      split <;> simp
    have hbetween : view due.2 = view inner.2 := view_rootDue hgit w changed inner.2
    rw [hhost]
    refine (commitIn_separate hgit hapart s.host.host).append hgit hbetween
      (commitIn_separate hgit hlast due.2) fun c result c' result' hc hc' => ?_
    have hmem := mem_of_mem_commitIn git message false hc
    obtain rfl : c' = w.root := w.eq_root_of_mem_rootIf (mem_of_mem_commitIn git message false hc')
    exact not_same_root hw hchanged hroot hmem

/-- Pretending asks at most about the outermost checkout, and reports every checkout that is due. -/
theorem commitChanges_pretending (s : Session (Traced σ)) :
    ∃ due asked t, commitChanges git.traced w changed message true s =
        .ok ⟨commitOrder changed ++ w.rootIf due, []⟩ t ∧
      t.host.events = s.host.events ++ asked ∧ RootSettled w changed due asked := by
  obtain ⟨t, hrun, hhost⟩ := commitChanges_apply git.traced message true w changed s
  obtain ⟨asked, hdue, hsettled⟩ := rootDue_traced git (root_isIn_iff hw hchanged) s.host
  simp only [commitIn_pretending, hdue, ← List.map_append, CommitReport.of_ok] at hrun hhost
  exact ⟨_, asked, t, hrun, by rw [hhost], hsettled⟩

end

/-- **Commits go inwards out.** For every workspace, client and set of changed checkouts there is
one order of the inner ones, the deepest first and none before one that lies in it. A run tries
exactly these in this order, whatever fails; then it tries the outermost checkout if that is known
to be changed or the client, asked at that point, answers that it is dirty, and not otherwise. What
is tried in a checkout is to stage and, if that succeeds, to commit; each that is tried is reported
as committed or failed, in order. Where repositories are separate, each comes out as it would have
alone. Pretending tries nothing and reports every checkout that is due as committed. -/
theorem commitChanges_orderly (git : Git.Client σ) (root : Path) (roots : List Path)
    (poms : List Pom) (changed : List Checkout) (hnodup : changed.Nodup)
    (hchanged : ∀ c ∈ changed, c ∈ (Workspace.ofFinds root roots poms).checkouts)
    (message : String) :
    let w := Workspace.ofFinds root roots poms
    let inner := commitOrder changed
    inner.Perm (changed.filter fun c => c ≠ w.root) ∧
      inner.Pairwise (fun a b => a.Precedes b ∧ ¬a.Encloses b) ∧
      ∀ s : Session (Traced σ),
        (∃ (run : CommitRun w changed message) (t : Session (Traced σ)),
          commitChanges git.traced w changed message false s = .ok run.report t ∧
          t.host.events = s.host.events ++ run.events ∧
          run.report.Sorts (inner ++ w.rootIf run.due) ∧
          ∀ {ρ : Type} {view : σ → Path → ρ}, git.Separate view →
            EachAlone git view message run.tries s.host.host t.host.host) ∧
        ∃ due asked t,
          commitChanges git.traced w changed message true s = .ok ⟨inner ++ w.rootIf due, []⟩ t ∧
          t.host.events = s.host.events ++ asked ∧ RootSettled w changed due asked := by
  intro w inner
  have hw : w.Lawful := Workspace.lawful_ofFinds root roots poms
  have hdistinct : Distinct changed := fun c hc c' hc' =>
    w.distinct_checkouts hw c (hchanged c hc) c' (hchanged c' hc')
  refine ⟨commitOrder_perm_of_lawful hw hchanged rfl, ?_, fun s => ⟨?_, ?_⟩⟩
  · exact (precedes_commitOrder hnodup hdistinct).imp fun hprecedes =>
      ⟨hprecedes, hprecedes.not_encloses⟩
  · obtain ⟨run, t, hrun, hevents, halone⟩ :=
      commitChanges_traced git message hw hchanged hnodup rfl s
    exact ⟨run, t, hrun, hevents, run.sorts_report, halone⟩
  · exact commitChanges_pretending git message hw hchanged s

/-- A checkout that cannot be staged is reported as failed, after the one that lies in it and before
the outermost one. -/
theorem commitChanges_orderly_unstaged :
    let outer := Checkout.outermost ⟨["ws"]⟩
    let lib := Checkout.nested ⟨["ws", "lib"]⟩ outer.root
    let core := Checkout.nested ⟨["ws", "lib", "core"]⟩ outer.root
    let w := Workspace.ofFinds outer.root [lib.root, core.root] []
    let host := Recorder.empty.put lib.root { Repo.empty with failing := [.addAll] }
    ∃ t, commitChanges Recorder.client.traced w [outer, lib, core] "m" false
        (Session.start ⟨host, []⟩) =
      .ok ⟨[core, outer], [(lib, (Recorder.simulated "add -A").message)]⟩ t := by
  intro outer lib core w host
  have hcheckouts : w.checkouts = [outer, lib, core] := by decide +kernel
  obtain ⟨hperm, hpairwise, hruns⟩ := commitChanges_orderly Recorder.client outer.root
    [lib.root, core.root] [] [outer, lib, core] (by decide +kernel)
    (fun c hc => by rwa [← hcheckouts] at hc) "m"
  have horder : commitOrder [outer, lib, core] = [core, lib] := by
    have hinner : ([outer, lib, core].filter fun c => c ≠ w.root) = [lib, core] := by
      decide +kernel
    rw [hinner] at hperm
    rcases List.perm_pair.1 hperm with houtside | hinside
    · -- the inner one of the two would come last
      rw [houtside] at hpairwise
      have henclosed : lib.Encloses core := by decide +kernel
      exact absurd henclosed (List.pairwise_pair.1 hpairwise).2
    · exact hinside
  obtain ⟨run, t, hrun, -, -, halone⟩ := (hruns (Session.start ⟨host, []⟩)).1
  have hdue : run.due = true := run.settled.due_of_mem List.mem_cons_self
  have htries := (halone Recorder.separate_client).tries_eq
  have hcheckouts : run.tries.map (·.1) = [core, lib, outer] := by
    rw [run.checkouts_tries, horder, hdue]
    rfl
  have hreport : run.report =
      ⟨[core, outer], [(lib, (Recorder.simulated "add -A").message)]⟩ := by
    rw [CommitRun.report, htries, hcheckouts]
    decide +kernel
  rw [hreport] at hrun
  exact ⟨t, hrun⟩

end Grove
