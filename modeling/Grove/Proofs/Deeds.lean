import Grove.Proofs.Separate
import Grove.Proofs.StepsKeep

/-!
# What is remembered through a whole session

What is done to the checkouts of a workspace, in any order and however much of it fails, keeps what
is remembered of their dirt true: a change forgets it, unless it is a push. A branch snapshot is not
forgotten by a change; it is taken while merges are planned, and forgotten once they are carried
out. So snapshots hold as long as nothing but a merge changes branches.

## What is proved

* `stepsKeep_flagsHold` — where the client's answers are stable, all that is done keeps what is
  remembered of dirt true.
* `planAll_of_snapshotsHold` — from snapshots that hold, a merge is planned from the branches there
  are.
* `memory_holds` — what is remembered after anything done to the checkouts of a workspace.
-/

namespace Grove

open Git

variable {σ : Type}

/-! ### Dirt -/

section

variable {git : Git.Client σ} (hgit : git.Stable) {all : List Checkout}

include hgit

/-- What is still remembered of dirt after a change is still what the client answers. -/
theorem keeps_flagsHold_change (hall : Distinct all) {c : Checkout} (hc : c ∈ all)
    (m : Git.Mutation) : Action.Keeps (FlagsHold git all) (c.change git m) := by
  intro s hs
  rw [(c.change_apply git m s).2]
  refine hs.mono fun c' hc' dirty hflag => ?_
  simp only at hflag ⊢
  by_cases hsame : c'.same c
  · -- its own flag outlives only a push, and a push leaves its dirt
    obtain rfl := hall c' hc' c hc hsame
    cases hpush : m.isPush with
    | true =>
      rw [hpush] at hflag
      exact ⟨hflag, hgit.pushed hpush⟩
    | false =>
      rw [hpush, if_neg Bool.false_ne_true, Ordered.get?_erase,
        if_pos (Path.alike_iff_order.1 hsame)] at hflag
      simp at hflag
  · have hflag' : Ordered.get? Path.order c'.root s.dirtyFlags = some dirty := by
      split at hflag
      · exact hflag
      · rwa [Ordered.get?_erase, if_neg fun h => hsame (Path.alike_iff_order.2 h)] at hflag
    exact ⟨hflag', hgit.mutate hsame⟩

/-- All that is done to some checkouts keeps what is remembered of their dirt true. -/
theorem stepsKeep_flagsHold (hall : Distinct all) : StepsKeep git all (FlagsHold git all) where
  note _ _ := fun _ hs => hs
  forgetAll := fun _ _ => flagsHold_of_forgotten rfl
  forget c _ := by
    refine fun s hs => hs.mono fun c' _ dirty hflag => ⟨?_, rfl⟩
    simp only [Checkout.forget_apply, reached_ok, Ordered.get?_erase] at hflag
    split at hflag
    · simp at hflag
    · exact hflag
  isDirty _ hc := keeps_flagsHold_isDirty hgit.steady hall hc
  currentBranch c _ := by
    intro s hs
    rw [Action.reached_onHost]
    exact hs.mono fun c' _ _ hflag => ⟨hflag, (hgit.currentBranch c.root s.host c').1⟩
  change _ hc m := keeps_flagsHold_change hgit hall hc m

/-- Taking a snapshot changes no answer. -/
theorem sameAnswers_snapshot (c : Checkout) (s : Session σ) :
    git.SameAnswers (reached (c.snapshot git s)).host s.host := by
  have hsame := hgit.branches c.root s.host
  rw [Checkout.snapshot_apply]
  cases Ordered.get? Path.order c.root s.snapshots with
  | some branches => exact fun _ => ⟨rfl, rfl⟩
  | none => cases hask : git.branches c.root s.host <;> rw [hask] at hsame <;> exact hsame

theorem keeps_flagsHold_snapshot (c : Checkout) :
    Action.Keeps (FlagsHold git all) (c.snapshot git) := by
  intro s hs
  refine hs.mono fun c' _ dirty hflag => ⟨?_, (sameAnswers_snapshot hgit c s c').1⟩
  rw [Checkout.snapshot_apply] at hflag
  cases hknown : Ordered.get? Path.order c.root s.snapshots with
  | some branches =>
    rw [hknown] at hflag
    exact hflag
  | none => cases hask : git.branches c.root s.host <;> simpa [hknown, hask] using hflag

end

/-! ### Branch snapshots -/

/-- Every branch snapshot that is remembered of some checkouts shows the branches there are now. -/
def SnapshotsHold (git : Git.Client σ) (all : List Checkout) (s : Session σ) : Prop :=
  ∀ c ∈ all, ∀ branches, Ordered.get? Path.order c.root s.snapshots = some branches →
    git.listing s.host c = .ok branches

/-- No snapshot is remembered that was not before. -/
def NoneTaken (s t : Session σ) : Prop :=
  t.snapshots = s.snapshots ∨ t.snapshots = []

section

variable {git : Git.Client σ} {all : List Checkout} {s t : Session σ}

theorem snapshotsHold_of_forgotten (hforgotten : s.snapshots = []) : SnapshotsHold git all s := by
  intro c _ branches hknown
  rw [hforgotten] at hknown
  simp [Ordered.get?] at hknown

/-- Snapshots go on to hold where none is taken and the branches stay. -/
theorem SnapshotsHold.mono (hs : SnapshotsHold git all s) (htaken : NoneTaken s t)
    (hlisting : ∀ c ∈ all, git.listing t.host c = git.listing s.host c) :
    SnapshotsHold git all t := by
  rcases htaken with hsame | hforgotten
  · intro c hc branches hknown
    rw [hsame] at hknown
    rw [hlisting c hc]
    exact hs c hc branches hknown
  · exact snapshotsHold_of_forgotten hforgotten

/-- No step takes a snapshot. -/
theorem stepsKeep_noneTaken : StepsKeep git all (NoneTaken s) where
  note _ _ := fun _ ht => ht
  forgetAll := fun _ _ => .inr rfl
  forget _ _ := fun _ ht => ht
  isDirty c _ := by
    intro t ht
    rw [Checkout.isDirty_apply]
    cases Ordered.get? Path.order c.root t.dirtyFlags with
    | some dirty => exact ht
    | none => cases git.isDirty c.root t.host <;> exact ht
  currentBranch c _ := by
    intro t ht
    rw [Action.reached_onHost]
    exact ht
  change c _ m := by
    intro t ht
    rw [(c.change_apply git m t).2]
    exact ht

/-- From snapshots that hold, what is seen of a checkout is what the client lists. -/
theorem SnapshotsHold.seen (hs : SnapshotsHold git all s) {c : Checkout} (hc : c ∈ all) :
    c.seen git s = git.listing s.host c := by
  rw [Checkout.seen, Checkout.snapshot_apply]
  cases hknown : Ordered.get? Path.order c.root s.snapshots with
  | some branches => exact (hs c hc branches hknown).symm
  | none =>
    rw [Client.listing]
    cases git.branches c.root s.host <;> rfl

variable (hgit : git.Stable)

include hgit

/-- A snapshot that is taken shows the branches there are. -/
theorem keeps_snapshotsHold_snapshot (hall : Distinct all) {c : Checkout} (hc : c ∈ all) :
    Action.Keeps (SnapshotsHold git all) (c.snapshot git) := by
  intro s hs c' hc' branches hknown
  rw [(sameAnswers_snapshot hgit c s c').2]
  rw [Checkout.snapshot_apply] at hknown
  cases hold : Ordered.get? Path.order c.root s.snapshots with
  | some branches' =>
    rw [hold] at hknown
    exact hs c' hc' branches hknown
  | none =>
    cases hask : git.branches c.root s.host with
    | error e host =>
      simp only [hold, hask, reached_error] at hknown
      exact hs c' hc' branches hknown
    | ok branches' host =>
      simp only [hold, hask, reached_ok] at hknown
      by_cases hsame : c'.same c
      · obtain rfl := hall c' hc' c hc hsame
        rw [Ordered.get?_put_self] at hknown
        rw [← Option.some.inj hknown, Client.listing, hask]
        rfl
      · rw [Ordered.get?_put_of_ne _ fun h => hsame (Path.alike_iff_order.2 h)] at hknown
        exact hs c' hc' branches hknown

/-- From snapshots that hold, a merge is planned from the branches that the client lists, there or
in any state of the host in which it lists the same. -/
theorem planAll_of_snapshotsHold (hall : Distinct all) (r : MergeRequest) {cs : List Checkout}
    (hcs : ∀ c ∈ cs, c ∈ all) (hs : SnapshotsHold git all s) {h : σ}
    (hlisting : ∀ c, git.listing s.host c = git.listing h c) :
    answer (r.planAll git cs s) =
      .ok (r.plansFrom (git.listing h) cs, r.skipsFrom (git.listing h) cs) := by
  induction cs generalizing s with
  | nil => rfl
  | cons c cs ih =>
    have hc := hcs c List.mem_cons_self
    have hseen : c.seen git s = git.listing h c := (hs.seen hc).trans (hlisting c)
    have hrest := ih (fun c' hc' => hcs c' (List.mem_cons_of_mem _ hc'))
      (keeps_snapshotsHold_snapshot hgit hall hc s hs)
      fun c' => (sameAnswers_snapshot hgit c s c').2.trans (hlisting c')
    rw [MergeRequest.planAll, bind_of_ok (r.planOne_apply git c s),
      bind_of_ok (eq_ok_of_answer hrest), hseen]
    cases hplan : r.planFrom c (git.listing h c) with
    | ok plan => simp [MergeRequest.plansFrom, MergeRequest.skipsFrom, hplan]
    | error o => simp [MergeRequest.plansFrom, MergeRequest.skipsFrom, hplan]

/-- After a merge all snapshots hold that are remembered: none is, or nothing was changed. -/
theorem snapshotsHold_run (hall : Distinct all) (r : MergeRequest) {cs : List Checkout}
    (hcs : ∀ c ∈ cs, c ∈ all) (hs : SnapshotsHold git all s) :
    SnapshotsHold git all (reached (r.run git cs s)) := by
  have hplan := eq_ok_of_answer (planAll_of_snapshotsHold hgit hall r hcs hs fun _ => rfl)
  have hplanned : SnapshotsHold git all (reached (r.planAll git cs s)) :=
    MergeRequest.keeps_planAll (fun c hc => keeps_snapshotsHold_snapshot hgit hall (hcs c hc)) s hs
  obtain ⟨merged, failed, t, hexecute⟩ := r.executeAll_answers git
    (r.plansFrom (git.listing s.host) cs)
    { reached (r.planAll git cs s) with
      log := (reached (r.planAll git cs s)).log ++
        [MergeRequest.heading (r.plansFrom (git.listing s.host) cs)] }
  rw [MergeRequest.run_of_planAll hplan hexecute, reached_ok, MergeRequest.settled]
  by_cases hempty : r.plansFrom (git.listing s.host) cs = []
  · -- without a plan nothing is forgotten, and nothing was changed either
    rw [hempty] at hexecute
    obtain ⟨-, rfl⟩ := EStateM.Result.ok.inj hexecute
    rw [if_pos hempty]
    exact hplanned
  · rw [if_neg hempty]
    exact snapshotsHold_of_forgotten rfl

end

/-! ### Deeds -/

/-- What can be done to the checkouts of a workspace. -/
inductive Deed where
  /-- Asks whether a checkout is dirty. -/
  | ask (c : Checkout)
  /-- Forgets whether a checkout is dirty. -/
  | forget (c : Checkout)
  /-- Carries out an operation on a checkout. -/
  | perform (c : Checkout) (operation : Checkout.Operation)
  /-- Merges in some checkouts. -/
  | merge (request : MergeRequest) (checkouts : List Checkout)
  /-- Looks for dirty checkouts. -/
  | look
  /-- Requires some checkouts to be clean. -/
  | requireClean (checkouts : List Checkout)
  /-- Commits what changed. -/
  | commit (changed : List Checkout) (message : String) (pretend : Bool)

namespace Deed

/-- The checkouts that a deed is done to are of a workspace. -/
def Within (w : Workspace) : Deed → Prop
  | ask c => c ∈ w.checkouts
  | forget c => c ∈ w.checkouts
  | perform c _ => c ∈ w.checkouts
  | merge _ cs => ∀ c ∈ cs, c ∈ w.checkouts
  | look => True
  | requireClean cs => ∀ c ∈ cs, c ∈ w.checkouts
  | commit changed _ _ => ∀ c ∈ changed, c ∈ w.checkouts

instance (w : Workspace) : (d : Deed) → Decidable (d.Within w)
  | ask c => inferInstanceAs (Decidable (c ∈ w.checkouts))
  | forget c => inferInstanceAs (Decidable (c ∈ w.checkouts))
  | perform c _ => inferInstanceAs (Decidable (c ∈ w.checkouts))
  | merge _ cs => inferInstanceAs (Decidable (∀ c ∈ cs, c ∈ w.checkouts))
  | look => inferInstanceAs (Decidable True)
  | requireClean cs => inferInstanceAs (Decidable (∀ c ∈ cs, c ∈ w.checkouts))
  | commit changed _ _ => inferInstanceAs (Decidable (∀ c ∈ changed, c ∈ w.checkouts))

/-- Whether a deed is a merge. -/
def isMerge : Deed → Bool
  | merge _ _ => true
  | _ => false

section

variable (git : Git.Client σ) (w : Workspace)

/-- The session after a deed, whether it succeeds or not. -/
def after : Deed → Session σ → Session σ
  | ask c, s => reached (c.isDirty git s)
  | forget c, s => reached (c.forget s)
  | perform c operation, s => reached (c.perform git operation s)
  | merge r cs, s => reached (r.run git cs s)
  | look, s => reached (dirtyCheckouts git w s)
  | requireClean cs, s => reached (ensureClean git cs s)
  | commit changed message pretend, s => reached (commitChanges git w changed message pretend s)

/-- The session after deeds, one after another. -/
def afterAll (deeds : List Deed) (s : Session σ) : Session σ :=
  deeds.foldl (fun s d => d.after git w s) s

/-- Along deeds only merges change the branches of a checkout. -/
def BranchesKept : List Deed → Session σ → Prop
  | [], _ => True
  | d :: ds, s =>
    (d.isMerge = false → ∀ c ∈ w.checkouts, git.listing (d.after git w s).host c =
      git.listing s.host c) ∧ BranchesKept ds (d.after git w s)

end

section

variable {git : Git.Client σ} {w : Workspace} {P : Session σ → Prop}

/-- A deed other than a merge keeps what the steps keep. -/
theorem keeps_after (hw : w.Lawful) (hP : StepsKeep git w.checkouts P) {d : Deed}
    (hd : d.Within w) (hmerge : d.isMerge = false) {s : Session σ} (hs : P s) :
    P (d.after git w s) := by
  cases d with
  | ask c => exact hP.isDirty c hd s hs
  | forget c => exact hP.forget c hd s hs
  | perform c operation => exact hP.perform hd operation s hs
  | merge r cs => simp [isMerge] at hmerge
  | look => exact hP.dirtyCheckouts (fun c hc => (w.mem_checkouts_iff hw).1 hc) s hs
  | requireClean cs => exact hP.ensureClean hd s hs
  | commit changed message pretend => exact hP.commitChanges message pretend hw.root hd s hs

variable (hgit : git.Stable) (hw : w.Lawful)

include hgit hw

theorem flagsHold_after {d : Deed} (hd : d.Within w) {s : Session σ}
    (hs : FlagsHold git w.checkouts s) : FlagsHold git w.checkouts (d.after git w s) := by
  have hsteps := stepsKeep_flagsHold hgit (w.distinct_checkouts hw)
  cases hmerge : d.isMerge with
  | false => exact keeps_after hw hsteps hd hmerge hs
  | true =>
    cases d <;> simp only [isMerge, Bool.false_eq_true] at hmerge
    exact hsteps.run (fun c _ => keeps_flagsHold_snapshot hgit c) hd s hs

theorem snapshotsHold_after {d : Deed} (hd : d.Within w) {s : Session σ}
    (hlisting : d.isMerge = false → ∀ c ∈ w.checkouts,
      git.listing (d.after git w s).host c = git.listing s.host c)
    (hs : SnapshotsHold git w.checkouts s) : SnapshotsHold git w.checkouts (d.after git w s) := by
  cases hmerge : d.isMerge with
  | false =>
    have htaken : NoneTaken s (d.after git w s) :=
      keeps_after hw stepsKeep_noneTaken hd hmerge (.inl rfl)
    exact hs.mono htaken (hlisting hmerge)
  | true =>
    cases d <;> simp only [isMerge, Bool.false_eq_true] at hmerge
    exact snapshotsHold_run hgit (w.distinct_checkouts hw) _ hd hs

theorem flagsHold_afterAll {deeds : List Deed} (hdeeds : ∀ d ∈ deeds, d.Within w) {s : Session σ}
    (hs : FlagsHold git w.checkouts s) : FlagsHold git w.checkouts (afterAll git w deeds s) := by
  induction deeds generalizing s with
  | nil => exact hs
  | cons d ds ih =>
    exact ih (fun d' hd' => hdeeds d' (List.mem_cons_of_mem _ hd'))
      (flagsHold_after hgit hw (hdeeds d List.mem_cons_self) hs)

theorem snapshotsHold_afterAll {deeds : List Deed} (hdeeds : ∀ d ∈ deeds, d.Within w)
    {s : Session σ} (hkept : BranchesKept git w deeds s) (hs : SnapshotsHold git w.checkouts s) :
    SnapshotsHold git w.checkouts (afterAll git w deeds s) := by
  induction deeds generalizing s with
  | nil => exact hs
  | cons d ds ih =>
    exact ih (fun d' hd' => hdeeds d' (List.mem_cons_of_mem _ hd')) hkept.2
      (snapshotsHold_after hgit hw (hdeeds d List.mem_cons_self) hkept.1 hs)

end

end Deed

/-- **Memory holds.** For every client whose answers are stable, every workspace and everything done
to its checkouts from a fresh session on, in any order and whatever fails: all that is remembered of
dirt is what the client answers, so asking for a checkout and requiring clean ones come out as
without a memory. Where none but merges changed branches, all snapshots show the branches there are,
and every merge is planned from those. -/
theorem memory_holds {git : Git.Client σ} (hgit : git.Stable) (root : Path) (roots : List Path)
    (poms : List Pom) (host : σ) (deeds : List Deed) :
    let w := Workspace.ofFinds root roots poms
    let t := Deed.afterAll git w deeds (Session.start host)
    (∀ d ∈ deeds, d.Within w) →
    FlagsHold git w.checkouts t ∧
      (∀ c ∈ w.checkouts, answer (c.isDirty git t) = git.status t.host c) ∧
      (∀ cs : List Checkout, (∀ c ∈ cs, c ∈ w.checkouts) →
        answer (ensureClean git cs t) = answer (git.ensureClean cs t.host)) ∧
      (Deed.BranchesKept git w deeds (Session.start host) →
        SnapshotsHold git w.checkouts t ∧
        ∀ (r : MergeRequest) (cs : List Checkout), (∀ c ∈ cs, c ∈ w.checkouts) →
          answer (r.planAll git cs t) =
            .ok (r.plansFrom (git.listing t.host) cs, r.skipsFrom (git.listing t.host) cs)) := by
  intro w t hdeeds
  have hw : w.Lawful := Workspace.lawful_ofFinds root roots poms
  have hdistinct := w.distinct_checkouts hw
  have hflags : FlagsHold git w.checkouts t :=
    Deed.flagsHold_afterAll hgit hw hdeeds (flagsHold_of_forgotten rfl)
  refine ⟨hflags, fun c hc => hflags.isDirty hc,
    fun cs hcs => hflags.ensureClean hgit.steady hdistinct hcs, fun hkept => ?_⟩
  have hsnapshots : SnapshotsHold git w.checkouts t :=
    Deed.snapshotsHold_afterAll hgit hw hdeeds hkept (snapshotsHold_of_forgotten rfl)
  exact ⟨hsnapshots, fun r cs hcs =>
    planAll_of_snapshotsHold hgit hdistinct r hcs hsnapshots fun _ => rfl⟩

/-- A dirty checkout that is committed after it was asked for is told to be clean, and after a merge
that checked a branch out the next merge is planned from there. -/
theorem memory_holds_committed :
    let outer := Checkout.outermost ⟨["ws"]⟩
    let lib := Checkout.nested ⟨["ws", "lib"]⟩ outer.root
    let w := Workspace.ofFinds outer.root [lib.root] []
    let host := Recorder.empty.put lib.root { Repo.onFeature [] with dirty := true }
    let r : MergeRequest := ⟨none, "main", none, ⟨false, false, false, false⟩⟩
    let deeds : List Deed := [.ask lib, .perform lib (.change .addAll),
      .perform lib (.change (.commit "m")), .merge r [lib, outer], .look]
    let t := Deed.afterAll Recorder.client w deeds (Session.start host)
    answer (lib.isDirty Recorder.client t) = .ok false ∧
      answer (r.planAll Recorder.client [lib] t) = .ok ([], [(lib, .sameBranch "main")]) := by
  intro outer lib w host r deeds t
  have hlib : lib ∈ w.checkouts := by decide +kernel
  have hwithin : ∀ d ∈ deeds, d.Within w := by decide +kernel
  have hkept : Deed.BranchesKept Recorder.client w deeds (Session.start host) := by
    refine ⟨fun _ => by decide +kernel, fun _ => by decide +kernel, fun _ => by decide +kernel,
      fun h => ?_, fun _ => by decide +kernel, trivial⟩
    simp [Deed.isMerge] at h
  obtain ⟨-, hdirty, -, hplans⟩ := memory_holds Recorder.separate_client.stable outer.root
    [lib.root] [] host deeds hwithin
  obtain ⟨-, hplan⟩ := hplans hkept
  refine ⟨(hdirty lib hlib).trans (by decide +kernel), (hplan r [lib] ?_).trans (by decide +kernel)⟩
  simpa using hlib

end Grove
