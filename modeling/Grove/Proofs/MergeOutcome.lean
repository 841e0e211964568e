import Grove.Proofs.MergePlanning
import Grove.Proofs.MergeSteps

/-!
# What a merge leaves behind

On a recorded repository in which nothing was made to fail, a merge that was planned from the
branches the repository has goes through. A target is made exactly where it is missing, so no
check-out is refused; the branch that is deleted is not the one checked out, since the plan keeps
the two apart; a push goes out from the target, which is checked out by then.

## What is proved

* `checkOut_succeeds`, `pushIf_succeeds`, `tagIf_succeeds`, `deleteIf_succeeds` — what each part of
  a plan makes of a record.
* `changes_succeed` — what the whole plan makes of it (`MergePlan.Outcome`).
* `execute_planned` — carrying out a plan issues `MergePlan.changes` and comes to that outcome.
-/

namespace Grove

open Git

/-! ### The record after each part -/

namespace Git.Repo

variable (repo : Repo)

/-- The record with a branch checked out that was made if need be. -/
def onTarget (t : MergeTarget) : Repo :=
  { repo with
    locals := if t.needsLocalBranch then withName t.name repo.locals else repo.locals
    current? := some t.name }

/-- The record after a branch is pushed, if one is. -/
def pushedIf (push : Bool) (name : String) : Repo :=
  { repo with remotes := if push then withName name repo.remotes else repo.remotes }

/-- The record after a tag is set, if one is. -/
def taggedIf (tag : Bool) (name : String) : Repo :=
  { repo with tags := if tag then withName name repo.tags else repo.tags }

/-- The record after a branch is deleted, if one is. -/
def withoutIf (delete : Bool) (name : String) : Repo :=
  { repo with locals := if delete then repo.locals.filter (· != name) else repo.locals }

variable {repo}

/-- A target is made exactly where the record has no local branch of its name. -/
def Fits (repo : Repo) (t : MergeTarget) : Prop :=
  t.needsLocalBranch = true ↔ t.name ∉ repo.locals

theorem attempt_of_apply {next : Repo} {m : Mutation} (hfail : repo.failing = [])
    (h : repo.apply m = .ok next) : repo.attempt m = .ok next := by
  simp [attempt, hfail, h]

/-- Changes that succeed one after another succeed together. -/
theorem foldlM_append_of_ok {next final : Repo} {ms ms' : List Mutation}
    (h : ms.foldlM attempt repo = .ok next) (h' : ms'.foldlM attempt next = .ok final) :
    (ms ++ ms').foldlM attempt repo = .ok final := by
  rw [List.foldlM_append, h]
  exact h'

/-- Checking a target out and merging into it is never refused. -/
theorem checkOut_succeeds {t : MergeTarget} (hfail : repo.failing = []) (hfits : repo.Fits t)
    (name : String) :
    [t.checkingOut, .merge name].foldlM attempt repo = .ok (repo.onTarget t) := by
  have hcheckOut : repo.attempt t.checkingOut = .ok (repo.onTarget t) := by
    refine attempt_of_apply hfail ?_
    rw [Fits] at hfits
    cases hnew : t.needsLocalBranch with
    | true => simp [MergeTarget.checkingOut, apply, onTarget, hnew, hfits.1 hnew]
    | false =>
      have hlocal : t.name ∈ repo.locals := by simpa [hnew] using hfits
      simp [MergeTarget.checkingOut, apply, onTarget, hnew, hlocal]
  have hmerge : (repo.onTarget t).attempt (.merge name) = .ok (repo.onTarget t) :=
    attempt_of_apply hfail rfl
  rw [List.foldlM_cons, hcheckOut]
  show (repo.onTarget t).attempt (.merge name) >>= _ = _
  rw [hmerge]
  rfl

theorem pushIf_succeeds {t : MergeTarget} (push : Bool) (hfail : repo.failing = [])
    (hcurrent : repo.current? = some t.name) :
    (if push then [t.pushing] else []).foldlM attempt repo = .ok (repo.pushedIf push t.name) := by
  cases push with
  | false => rfl
  | true =>
    have hpush : repo.attempt t.pushing = .ok (repo.pushedIf true t.name) := by
      refine attempt_of_apply hfail ?_
      cases hremote : t.onRemote <;>
        simp [MergeTarget.pushing, apply, pushedIf, hremote, hcurrent]
    rw [if_pos rfl, List.foldlM_cons, hpush]
    rfl

theorem tagIf_succeeds (tag : Bool) (name : String) (hfail : repo.failing = []) :
    (if tag then [.tag name true] else []).foldlM attempt repo = .ok (repo.taggedIf tag name) := by
  cases tag with
  | false => rfl
  | true =>
    have htag : repo.attempt (.tag name true) = .ok (repo.taggedIf true name) :=
      attempt_of_apply hfail (by simp [apply, taggedIf])
    rw [if_pos rfl, List.foldlM_cons, htag]
    rfl

theorem deleteIf_succeeds (delete : Bool) (name : String) (hfail : repo.failing = [])
    (hcurrent : repo.current? ≠ some name) :
    (if delete then [.delete name false] else []).foldlM attempt repo =
      .ok (repo.withoutIf delete name) := by
  cases delete with
  | false => rfl
  | true =>
    have hdelete : repo.attempt (.delete name false) = .ok (repo.withoutIf true name) :=
      attempt_of_apply hfail (by simp [apply, withoutIf, hcurrent])
    rw [if_pos rfl, List.foldlM_cons, hdelete]
    rfl

/-! ### The branches and tags after each part -/

theorem mem_locals_onTarget {t : MergeTarget} (hfits : repo.Fits t) {n : String} :
    n ∈ (repo.onTarget t).locals ↔ n ∈ repo.locals ∨ n = t.name := by
  rw [Fits] at hfits
  cases hnew : t.needsLocalBranch with
  | true => simp [onTarget, hnew, mem_withName, or_comm]
  | false =>
    have hlocal : t.name ∈ repo.locals := by simpa [hnew] using hfits
    simp only [onTarget, hnew, Bool.false_eq_true, if_false]
    exact ⟨.inl, fun h => h.elim id fun h => h ▸ hlocal⟩

theorem mem_remotes_pushedIf {push : Bool} {name n : String} :
    n ∈ (repo.pushedIf push name).remotes ↔ n ∈ repo.remotes ∨ (push = true ∧ n = name) := by
  cases push <;> simp [pushedIf, mem_withName, or_comm]

theorem mem_tags_taggedIf {tag : Bool} {name n : String} :
    n ∈ (repo.taggedIf tag name).tags ↔ n ∈ repo.tags ∨ (tag = true ∧ n = name) := by
  cases tag <;> simp [taggedIf, mem_withName, or_comm]

theorem mem_locals_withoutIf {delete : Bool} {name n : String} :
    n ∈ (repo.withoutIf delete name).locals ↔ n ∈ repo.locals ∧ ¬(delete = true ∧ n = name) := by
  cases delete <;> simp [withoutIf]

/-- A change keeps the sets of a record in order without repetition. -/
theorem WellFormed.apply {next : Repo} {m : Mutation} (h : repo.WellFormed)
    (hm : repo.apply m = .ok next) : next.WellFormed := by
  obtain ⟨hlocals, hremotes, htags, hothers⟩ := h
  cases m with
  | create branch start? =>
    simp only [Repo.apply] at hm
    split at hm
    · simp at hm
    · obtain rfl := by simpa using hm
      exact ⟨Ordered.increasing_insert compare _ hlocals, hremotes, htags, hothers⟩
  | tag name force =>
    simp only [Repo.apply] at hm
    split at hm
    · simp at hm
    · obtain rfl := by simpa using hm
      exact ⟨hlocals, hremotes, Ordered.increasing_insert compare _ htags, hothers⟩
  | delete branch force =>
    simp only [Repo.apply] at hm
    split at hm
    · simp at hm
    · obtain rfl := by simpa using hm
      exact ⟨hlocals.filter _, hremotes, htags, hothers⟩
  | push =>
    simp only [Repo.apply] at hm
    split at hm <;> obtain rfl := by simpa using hm
    · exact ⟨hlocals, Ordered.increasing_insert compare _ hremotes, htags, hothers⟩
    · exact ⟨hlocals, hremotes, htags, hothers⟩
  | pushNew remote branch =>
    obtain rfl := by simpa [Repo.apply] using hm
    exact ⟨hlocals, Ordered.increasing_insert compare _ hremotes, htags, hothers⟩
  | switchTo branch =>
    simp only [Repo.apply] at hm
    split at hm
    · obtain rfl := by simpa using hm
      exact ⟨hlocals, hremotes, htags, hothers⟩
    · simp at hm
  | merge _ | addAll | commit _ =>
    simp only [Repo.apply, Except.ok.injEq] at hm
    subst hm
    exact ⟨hlocals, hremotes, htags, hothers⟩

theorem WellFormed.foldlM {final : Repo} {ms : List Mutation} (h : repo.WellFormed)
    (hms : ms.foldlM attempt repo = .ok final) : final.WellFormed := by
  induction ms generalizing repo with
  | nil =>
    obtain rfl : repo = final := by simpa [pure, Except.pure] using hms
    exact h
  | cons m ms ih =>
    rw [List.foldlM_cons] at hms
    cases hm : repo.attempt m with
    | error e =>
      rw [hm] at hms
      exact absurd hms (by simp [bind, Except.bind])
    | ok next =>
      rw [hm] at hms
      exact ih (h.apply (apply_of_attempt hm).2) hms

end Git.Repo

/-! ### The whole plan -/

namespace MergePlan

/-- What a plan that goes through makes of a record. -/
structure Outcome (p : MergePlan) (flags : MergeFlags) (before after : Repo) : Prop where
  current : after.current? = some p.target.name
  locals : ∀ n, n ∈ after.locals ↔
    (n ∈ before.locals ∨ n = p.target.name ∨ ∃ t ∈ p.also?, n = t.name) ∧
      ¬(flags.deleteMerged = true ∧ n = p.source.name)
  tags : ∀ n, n ∈ after.tags ↔ n ∈ before.tags ∨ (flags.tag = true ∧ n = tagName p.source.name)
  remotes : ∀ n, n ∈ after.remotes ↔ n ∈ before.remotes ∨
    (flags.push = true ∧ (n = p.target.name ∨ ∃ t ∈ p.also?, n = t.name))
  others : after.others = before.others
  dirty : after.dirty = before.dirty
  failing : after.failing = before.failing
  wellFormed : after.WellFormed

variable (p : MergePlan) (flags : MergeFlags) {repo : Repo}

/-- The record after the part for the second target. -/
def afterSecond (repo : Repo) (t : MergeTarget) : Repo :=
  (repo.onTarget t).pushedIf flags.push t.name

/-- The record after the part for the target itself. -/
def afterMain (repo : Repo) : Repo :=
  (((repo.onTarget p.target).taggedIf flags.tag (tagName p.source.name)).withoutIf
    flags.deleteMerged p.source.name).pushedIf flags.push p.target.name

theorem secondChanges_succeed {t : MergeTarget} (hfail : repo.failing = [])
    (hfits : repo.Fits t) :
    (p.secondChanges flags t).foldlM Repo.attempt repo = .ok (afterSecond flags repo t) :=
  Repo.foldlM_append_of_ok (Repo.checkOut_succeeds hfail hfits _)
    (Repo.pushIf_succeeds flags.push hfail rfl)

/-- The branch that is deleted is not the target, which is checked out by then. -/
theorem mainChanges_succeed (hfail : repo.failing = []) (hfits : repo.Fits p.target)
    (hne : p.source.name ≠ p.target.name) :
    (p.mainChanges flags).foldlM Repo.attempt repo = .ok (p.afterMain flags repo) := by
  have htagged := Repo.foldlM_append_of_ok (Repo.checkOut_succeeds hfail hfits p.source.name)
    (Repo.tagIf_succeeds flags.tag (tagName p.source.name) hfail)
  have hdeleted := Repo.foldlM_append_of_ok htagged
    (Repo.deleteIf_succeeds flags.deleteMerged p.source.name hfail
      (by simpa [Repo.onTarget, Repo.taggedIf] using hne.symm))
  exact Repo.foldlM_append_of_ok hdeleted (Repo.pushIf_succeeds flags.push hfail rfl)

/-- A target that is not among the branches made on the way still fits. -/
theorem fits_afterSecond {t t' : MergeTarget} (hfits : repo.Fits t) (hfits' : repo.Fits t')
    (hne : t.name ≠ t'.name) : (afterSecond flags repo t).Fits t' := by
  rw [Repo.Fits] at hfits'
  show _ ↔ t'.name ∉ (repo.onTarget t).locals
  rw [Repo.mem_locals_onTarget hfits, hfits']
  simp [hne.symm]

/-- **A plan goes through**: on a record in which nothing was made to fail and which the targets of
the plan fit, the changes of the plan succeed and come to its outcome. -/
theorem changes_succeed (hfail : repo.failing = []) (hrepo : repo.WellFormed)
    (hne : p.source.name ≠ p.target.name) (hfits : repo.Fits p.target)
    (hthird : ∀ t ∈ p.also?, repo.Fits t ∧ t.name ≠ p.source.name ∧ t.name ≠ p.target.name) :
    ∃ final, (p.changes flags).foldlM Repo.attempt repo = .ok final ∧
      p.Outcome flags repo final := by
  cases halso : p.also? with
  | none =>
    have hmain := p.mainChanges_succeed flags hfail hfits hne
    refine ⟨p.afterMain flags repo, by simpa only [changes, halso, List.nil_append] using hmain, ?_⟩
    refine ⟨rfl, fun n => ?_, fun n => ?_, fun n => ?_, rfl, rfl, rfl, hrepo.foldlM hmain⟩
    · show n ∈ ((repo.onTarget p.target).withoutIf _ _).locals ↔ _
      rw [Repo.mem_locals_withoutIf, Repo.mem_locals_onTarget hfits]
      simp [halso]
    · show n ∈ ((repo.onTarget p.target).taggedIf _ _).tags ↔ _
      exact Repo.mem_tags_taggedIf
    · rw [afterMain, Repo.mem_remotes_pushedIf]
      simp [halso, Repo.withoutIf, Repo.taggedIf, Repo.onTarget]
  | some t =>
    obtain ⟨hfits', hsource, htarget⟩ := hthird t halso
    have hfits'' := fits_afterSecond flags hfits' hfits htarget
    have hsecond := p.secondChanges_succeed flags hfail hfits'
    have hboth := Repo.foldlM_append_of_ok hsecond
      (p.mainChanges_succeed flags hfail hfits'' hne)
    refine ⟨p.afterMain flags (afterSecond flags repo t),
      by simpa only [changes, halso] using hboth, ?_⟩
    refine ⟨rfl, fun n => ?_, fun n => ?_, fun n => ?_, rfl, rfl, rfl, hrepo.foldlM hboth⟩
    · show n ∈ (((afterSecond flags repo t).onTarget p.target).withoutIf _ _).locals ↔ _
      rw [Repo.mem_locals_withoutIf, Repo.mem_locals_onTarget hfits'']
      show (n ∈ (repo.onTarget t).locals ∨ _) ∧ _ ↔ _
      rw [Repo.mem_locals_onTarget hfits']
      simp [halso, or_assoc, or_comm]
    · show n ∈ (((afterSecond flags repo t).onTarget p.target).taggedIf _ _).tags ↔ _
      exact Repo.mem_tags_taggedIf
    · rw [afterMain, Repo.mem_remotes_pushedIf]
      show n ∈ ((repo.onTarget t).pushedIf _ _).remotes ∨ _ ↔ _
      rw [Repo.mem_remotes_pushedIf]
      simp only [halso, Option.mem_some_iff, exists_eq_left', Repo.onTarget]
      constructor
      · rintro ((h | ⟨hpush, h⟩) | ⟨hpush, h⟩)
        · exact .inl h
        · exact .inr ⟨hpush, .inr h⟩
        · exact .inr ⟨hpush, .inl h⟩
      · rintro (h | ⟨hpush, h | h⟩)
        · exact .inl (.inl h)
        · exact .inr ⟨hpush, h⟩
        · exact .inl (.inr ⟨hpush, h⟩)

end MergePlan

/-! ### Carrying a plan out -/

/-- A target that was looked up in the snapshot of a record fits the record. -/
theorem Git.Repo.fits_of_find? {repo : Repo} {t : MergeTarget} {name : String}
    (hrepo : repo.WellFormed) (hfind : repo.snapshot.find? name = some t.branch) :
    repo.Fits t ∧ t.name = name := by
  obtain ⟨hname, hremote⟩ := Repo.isRemote_of_find? hrepo hfind
  refine ⟨?_, hname⟩
  rw [Repo.Fits, MergeTarget.needsLocalBranch, hremote, MergeTarget.name, hname]

namespace MergeRequest

/-- A session whose snapshot of the checkout, if it has one, still shows the checkout's record. -/
def UpToDate (c : Checkout) (s : Session Recorder) : Prop :=
  ∀ branches, Ordered.get? Path.order c.root s.snapshots = some branches →
    branches = (s.host.repo c.root).snapshot

/-- What is seen of the branches in a session that is up to date is what the record has. -/
theorem eq_snapshot_of_seen {c : Checkout} {s : Session Recorder} {branches : Branches}
    (hfresh : UpToDate c s) (hseen : c.seen Recorder.client s = .ok branches) :
    branches = (s.host.repo c.root).snapshot := by
  rw [Checkout.seen_recorded] at hseen
  cases hmemory : Ordered.get? Path.order c.root s.snapshots with
  | some b =>
    rw [hmemory] at hseen
    obtain rfl := by simpa using hseen
    exact hfresh b hmemory
  | none =>
    simp only [hmemory, Repo.askBranches] at hseen
    split at hseen
    · simp at hseen
    · split at hseen
      · simp at hseen
      · simpa using hseen.symm

/-- **A planned merge goes through**: where nothing was made to fail, carrying out a plan that was
made from an up-to-date snapshot issues the changes of the plan, comes to its outcome, and leaves
every other repository alone. -/
theorem execute_planned {r : MergeRequest} {c : Checkout} {p : MergePlan}
    {s t u : Session Recorder} (hreal : r.flags.pretend = false)
    (hrepo : (s.host.repo c.root).WellFormed) (hfail : (s.host.repo c.root).failing = [])
    (hfresh : UpToDate c s) (hplan : r.planOne Recorder.client c s = .ok (.ok p) t)
    (hsame : u.host.repo c.root = s.host.repo c.root) :
    p.target.name = r.target ∧ (∀ second ∈ p.also?, r.also? = some second.name) ∧
      (r.source? <|> (s.host.repo c.root).current?) = some p.source.name ∧
      ∃ v, r.execute Recorder.client p u = .ok () v ∧
        v.host.calls = u.host.calls ++ (p.changes r.flags).map (fun m => (c.root, m.call)) ∧
        p.Outcome r.flags (u.host.repo c.root) (v.host.repo c.root) ∧
        (∀ other, ¬other.alike c.root → v.host.repo other = u.host.repo other) ∧
        v.host.dirtyQueries = u.host.dirtyQueries := by
  have hplanned : r.planFrom c (c.seen Recorder.client s) = .ok p := by
    rw [planOne_apply] at hplan
    simpa using (EStateM.Result.ok.inj hplan).1
  obtain ⟨branches, hseen, hof⟩ := planFrom_eq_ok hplanned
  obtain rfl := eq_snapshot_of_seen hfresh hseen
  obtain ⟨rfl, hplanned⟩ := MergePlan.of_eq_ok hof
  obtain ⟨hfits, htarget⟩ := Repo.fits_of_find? hrepo hplanned.target
  have halso : ∀ second ∈ p.also?, (s.host.repo p.checkout.root).Fits second ∧
      r.also? = some second.name := by
    intro second hsecond
    obtain ⟨name, hname, hfind⟩ := hplanned.also second hsecond
    obtain ⟨hfits', hsecond'⟩ := Repo.fits_of_find? hrepo hfind
    exact ⟨hfits', hsecond' ▸ hname⟩
  obtain ⟨final, hchanges, houtcome⟩ := p.changes_succeed r.flags hfail hrepo hplanned.distinct
    hfits fun second hsecond => ⟨(halso second hsecond).1, hplanned.third second hsecond⟩
  have hcarried := carries_runSteps p.checkout (p.steps r.flags) u
  rw [hsame, p.follow_steps r.flags (by simp [hfail]) hplanned.distinct,
    Repo.tryAll_of_foldlM hchanges] at hcarried
  obtain ⟨hanswer, hcarried⟩ := hcarried
  refine ⟨htarget, fun second hsecond => (halso second hsecond).2, ?_, _, ?_, hcarried.calls, ?_,
    fun other ho => hcarried.repo_of_not_alike ho, hcarried.queries⟩
  · have hsource := hplanned.source
    rw [Repo.snapshot, Branches.of, Option.map_map] at hsource
    simpa [Function.comp_def, Branch.localNamed] using hsource
  · rw [execute, hreal]
    exact eq_ok_of_answer hanswer
  · rw [hsame, hcarried.repo_root]
    exact houtcome

theorem wellFormed_onFeature (failing : List Kind) : (Repo.onFeature failing).WellFormed where
  locals := List.pairwise_singleton _ _
  remotes := List.pairwise_pair.2 (by decide)
  tags := .nil
  others := by simp [Repo.onFeature]

/-- Merging `feature` into `dev` and into `main`, with a tag and pushes, removes it. -/
theorem execute_planned_feature :
    let c := Checkout.outermost ⟨["lib"]⟩
    let r : MergeRequest := ⟨none, "main", some "dev", ⟨true, true, true, false⟩⟩
    let s := Session.start (Recorder.empty.put c.root (.onFeature []))
    let p : MergePlan := ⟨c, .localNamed "feature", ⟨.remoteNamed "origin" "main", true⟩,
      some ⟨.remoteNamed "origin" "dev", true⟩⟩
    ∃ t v, r.planOne Recorder.client c s = .ok (.ok p) t ∧
      r.execute Recorder.client p s = .ok () v ∧
      v.host.callsAt c.root = ["create dev from origin/dev", "merge feature", "push",
        "create main from origin/main", "merge feature", "tag feature force=true",
        "delete feature force=false", "push"] ∧
      (v.host.repo c.root).current? = some "main" := by
  intro c r s p
  have hrepo : s.host.repo c.root = .onFeature [] := rfl
  have hfresh : UpToDate c s := fun _ h => by simp [s, Session.start, Ordered.get?] at h
  obtain ⟨-, -, -, v, hrun, hcalls, houtcome, -⟩ := execute_planned (u := s) rfl
    (hrepo ▸ wellFormed_onFeature []) rfl hfresh (rfl : r.planOne _ c s = .ok (.ok p) _) rfl
  refine ⟨_, v, rfl, hrun, ?_, houtcome.current⟩
  rw [Recorder.callsAt, hcalls]
  decide +kernel

end MergeRequest

end Grove
