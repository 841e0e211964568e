import Grove.Proofs.MergeTraces

/-!
# Which merges are planned

A snapshot of branches decides whether a checkout gets a plan, and everything about it: which branch
is merged, into which one or two others, and how each of those is checked out. A branch is made only
where no local one has its name, and it is made from a branch that some remote carries, that of
`origin` if it carries one. What gets no plan is reported with a reason and is left alone.

## What is proved

* `MergePlan.of_eq_ok_iff`, `MergePlan.exists_of_iff` — when there is a plan and which one.
* `MergePlan.follows_of` — what a plan says about the snapshot (`MergePlan.Follows`).
* `plans_follow_snapshots` — the same for every snapshot, and the trace of every run.
-/

namespace Grove

open Git Event

/-- Each element on the right of related lists has one on the left. -/
theorem exists_of_mem_right {α β : Type} {R : α → β → Prop} {as : List α} {bs : List β}
    (h : List.Forall₂ R as bs) {b : β} (hb : b ∈ bs) : ∃ a ∈ as, R a b := by
  induction h with
  | nil => simp at hb
  | cons first _ ih =>
    rcases List.mem_cons.1 hb with rfl | hb
    · exact ⟨_, List.mem_cons_self, first⟩
    · obtain ⟨a, ha, hab⟩ := ih hb
      exact ⟨a, List.mem_cons_of_mem _ ha, hab⟩

/-! ### What a snapshot says about names -/

/-- The name of the branch that a request merges in a checkout with these branches: the local branch
of the name given, or else the branch checked out. -/
inductive MergeRequest.Resolves (r : MergeRequest) (bs : Branches) : String → Prop
  /-- The request names the branch. -/
  | named {name : String} (given : r.source? = some name) (found : bs.HasLocal name) :
    Resolves r bs name
  /-- The request names none. -/
  | current {b : Branch} (missing : r.source? = none) (found : bs.current? = some b) :
    Resolves r bs b.name

/-- The change that checks a branch of the name out: the local branch, or a new one that starts at
the branch of a remote, which is the default one if that carries the name. -/
inductive Branches.ChecksOut (bs : Branches) (name : String) : Mutation → Prop
  /-- A local branch has the name. -/
  | existing (found : bs.HasLocal name) : ChecksOut bs name (.switchTo name)
  /-- Only remotes carry the name. -/
  | making {remote : String} (missing : ¬bs.HasLocal name) (carried : bs.Carries remote name)
    (preferred : bs.Carries Branch.defaultRemote name → remote = Branch.defaultRemote) :
    ChecksOut bs name (.create name (some (remote ++ "/" ++ name)))

/-- A target that was looked up is checked out as the snapshot says. -/
theorem MergeTarget.checksOut_of_find? {bs : Branches} {name : String} {t : MergeTarget}
    (h : bs.find? name = some t.branch) : t.name = name ∧ bs.ChecksOut name t.checkingOut := by
  obtain ⟨b, onRemote⟩ := t
  by_cases hlocal : bs.HasLocal name
  · rw [Branches.find?_of_hasLocal hlocal] at h
    obtain rfl := Option.some.inj h
    exact ⟨rfl, .existing hlocal⟩
  · rw [Branches.find?_of_not_hasLocal hlocal] at h
    obtain ⟨remote, hb, hcarries, hdefault⟩ := Branches.exists_carries_of_findRemote? h
    obtain rfl : b = Branch.remoteNamed remote name := hb
    exact ⟨rfl, .making hlocal hcarries hdefault⟩

/-! ### The check-outs of a plan -/

namespace MergeStep

/-- The change by which a step checks a branch out. -/
def checkOut? : MergeStep → Option Mutation
  | .perform (.change (.switchTo branch)) => some (.switchTo branch)
  | .perform (.change (.create branch start?)) => some (.create branch start?)
  | _ => none

/-- Only a step that checks a new branch out comes to making one. -/
theorem Issue.checkOut_of_create {steps : List MergeStep} {ms : List Mutation} {branch : String}
    {start? : Option String} (h : Issue steps ms) (hmem : .create branch start? ∈ ms) :
    .create branch start? ∈ steps.filterMap checkOut? := by
  induction h with
  | nil => simp at hmem
  | announce later ih => exact ih hmem
  | @perform op rest ms ms' first later ih =>
    rcases List.mem_append.1 hmem with hmem | hmem
    · cases first with
      | change m =>
        obtain rfl := List.mem_singleton.1 hmem
        exact List.mem_cons_self
      | leaving | deleting | pushing => simp at hmem
    · have hrest := ih hmem
      rw [List.filterMap_cons]
      split
      · exact hrest
      · exact List.mem_cons_of_mem _ hrest

end MergeStep

namespace MergePlan

/-- The branches that a plan merges into, in order. -/
def targets (p : MergePlan) : List MergeTarget :=
  p.also?.toList ++ [p.target]

/-- Picked out of the steps of a plan, apart from messages, merges, tags and deletions, is what is
picked out of how each target is checked out and pushed. -/
theorem filterMap_steps (p : MergePlan) (flags : MergeFlags) {β : Type} {f : MergeStep → Option β}
    {pick : MergeTarget → β} (hannounce : ∀ message, f (.announce message) = none)
    (hmerge : ∀ branch, f (.perform (.change (.merge branch))) = none)
    (htag : ∀ name force, f (.perform (.change (.tag name force))) = none)
    (hdelete : ∀ name fallback force, f (.perform (.deleteLeaving name fallback force)) = none)
    (htarget : ∀ t, (p.checkOut t).filterMap f ++
      (if flags.push then p.pushing t else []).filterMap f = [pick t]) :
    (p.steps flags).filterMap f = p.targets.map pick := by
  have hmain : (p.mainSteps flags).filterMap f = [pick p.target] := by
    rw [← htarget p.target]
    cases htagged : flags.tag <;> cases hdeleted : flags.deleteMerged <;>
      simp [mainSteps, hannounce, hmerge, htag, hdelete, htagged, hdeleted]
  cases halso : p.also? with
  | none => simp [steps, targets, halso, hmain]
  | some t =>
    have hsecond : (p.secondSteps flags t).filterMap f = [pick t] := by
      rw [← htarget t]
      simp [secondSteps, hannounce, hmerge]
    simp [steps, targets, halso, hmain, hsecond]

/-- A plan checks out its targets, one after another. -/
theorem checkOuts_steps (p : MergePlan) (flags : MergeFlags) :
    (p.steps flags).filterMap MergeStep.checkOut? = p.targets.map MergeTarget.checkingOut := by
  refine p.filterMap_steps flags (fun _ => rfl) (fun _ => rfl) (fun _ _ => rfl) (fun _ _ _ => rfl)
    fun t => ?_
  cases hlocal : t.needsLocalBranch <;> cases flags.push <;> cases hremote : t.onRemote <;>
    simp [checkOut, pushing, MergeTarget.checkingOut, List.filterMap_cons, MergeStep.checkOut?,
      hlocal, hremote]

/-! ### When there is a plan -/

/-- A plan is made from a source and a target that are found and differ in name. -/
theorem of_eq_ok_iff {r : MergeRequest} {bs : Branches} {c : Checkout} {p : MergePlan} :
    MergePlan.of r bs c = .ok p ↔
      ∃ source target, source? r bs = .ok source ∧ bs.find? r.target = some target ∧
        source.name ≠ target.name ∧
        p = ⟨c, source, MergeTarget.of bs target, secondTarget? r bs source target⟩ := by
  rw [MergePlan.of]
  cases source? r bs with
  | error o => simp
  | ok source =>
    cases bs.find? r.target with
    | none => simp
    | some target =>
      by_cases hsame : source.name = target.name
      · simp [hsame]
      · simp [hsame, eq_comm]

theorem exists_source?_iff {r : MergeRequest} {bs : Branches} {name : String} :
    (∃ b, source? r bs = .ok b ∧ b.name = name) ↔ r.Resolves bs name := by
  rw [source?]
  constructor
  · rintro ⟨b, hsource, rfl⟩
    split at hsource
    · next given hgiven =>
      split at hsource
      · next b' hfind =>
        obtain rfl := Except.ok.inj hsource
        obtain ⟨hlocal, rfl⟩ := Branches.findLocal?_eq_some_iff.1 hfind
        exact .named hgiven hlocal
      · cases hsource
    · next hmissing =>
      split at hsource
      · next b' hcurrent =>
        obtain rfl := Except.ok.inj hsource
        exact .current hmissing hcurrent
      · cases hsource
  · rintro (⟨hgiven, hlocal⟩ | ⟨hmissing, hcurrent⟩)
    · simp only [hgiven, Branches.findLocal?_eq_some_iff.2 ⟨hlocal, rfl⟩]
      exact ⟨_, rfl, rfl⟩
    · simp only [hmissing, hcurrent]
      exact ⟨_, rfl, rfl⟩

/-- There is a plan where the source is found, the target is, and they differ. -/
theorem exists_of_iff {r : MergeRequest} {bs : Branches} {c : Checkout} :
    (∃ p, MergePlan.of r bs c = .ok p) ↔
      ∃ source, r.Resolves bs source ∧ bs.Has r.target ∧ source ≠ r.target := by
  simp only [of_eq_ok_iff, ← exists_source?_iff, ← Branches.isSome_find?_iff,
    Option.isSome_iff_exists]
  constructor
  · rintro ⟨p, source, target, hsource, htarget, hne, -⟩
    obtain ⟨-, hname, -⟩ := Branches.find?_eq_some htarget
    exact ⟨_, ⟨source, hsource, rfl⟩, ⟨target, htarget⟩, hname ▸ hne⟩
  · rintro ⟨-, ⟨source, hsource, rfl⟩, ⟨target, htarget⟩, hne⟩
    obtain ⟨-, hname, -⟩ := Branches.find?_eq_some htarget
    exact ⟨_, source, target, hsource, htarget, hname.symm ▸ hne, rfl⟩

/-- The second target is the branch of the name given, where that is found and is a third one. -/
theorem exists_secondTarget?_iff {r : MergeRequest} {bs : Branches} {source target : Branch}
    {name : String} :
    (∃ t ∈ secondTarget? r bs source target, t.name = name) ↔
      r.also? = some name ∧ bs.Has name ∧ name ≠ source.name ∧ name ≠ target.name := by
  rw [← Branches.isSome_find?_iff, Option.isSome_iff_exists]
  simp only [secondTarget?, Option.mem_def, Option.map_eq_some_iff, Option.filter_eq_some_iff,
    Option.bind_eq_some_iff, Bool.and_eq_true, bne_iff_ne]
  constructor
  · rintro ⟨-, ⟨b, ⟨⟨given, hgiven, hfind⟩, hsource, htarget⟩, rfl⟩, rfl⟩
    obtain ⟨-, rfl, -⟩ := Branches.find?_eq_some hfind
    exact ⟨hgiven, ⟨b, hfind⟩, hsource, htarget⟩
  · rintro ⟨hgiven, ⟨b, hfind⟩, hsource, htarget⟩
    obtain ⟨-, rfl, -⟩ := Branches.find?_eq_some hfind
    exact ⟨_, ⟨b, ⟨⟨_, hgiven, hfind⟩, hsource, htarget⟩, rfl⟩, rfl⟩

/-- What a plan says about the snapshot that it was made from. -/
structure Follows (r : MergeRequest) (bs : Branches) (p : MergePlan) : Prop where
  source : r.Resolves bs p.source.name
  target : p.target.name = r.target
  also : ∀ name, (∃ t ∈ p.also?, t.name = name) ↔
    r.also? = some name ∧ bs.Has name ∧ name ≠ p.source.name ∧ name ≠ p.target.name
  checkOuts : ∀ flags, List.Forall₂ (fun t m => bs.ChecksOut t.name m) p.targets
    ((p.steps flags).filterMap MergeStep.checkOut?)

theorem follows_of {r : MergeRequest} {bs : Branches} {c : Checkout} {p : MergePlan}
    (h : MergePlan.of r bs c = .ok p) : p.Follows r bs := by
  obtain ⟨-, hplanned⟩ := of_eq_ok h
  have hchecksOut : ∀ t ∈ p.targets, bs.ChecksOut t.name t.checkingOut := by
    have hfound : ∀ {name} {t : MergeTarget}, bs.find? name = some t.branch →
        bs.ChecksOut t.name t.checkingOut := by
      intro name t hfind
      obtain ⟨rfl, hchecksOut⟩ := MergeTarget.checksOut_of_find? hfind
      exact hchecksOut
    intro t ht
    rcases List.mem_append.1 ht with ht | ht
    · obtain ⟨name, -, hfind⟩ := hplanned.also t (Option.mem_toList.1 ht)
      exact hfound hfind
    · exact List.mem_singleton.1 ht ▸ hfound hplanned.target
  obtain ⟨source, target, hsource, htarget, -, rfl⟩ := of_eq_ok_iff.1 h
  obtain ⟨-, hname, -⟩ := Branches.find?_eq_some htarget
  refine ⟨exists_source?_iff.1 ⟨source, hsource, rfl⟩, hname,
    fun name => exists_secondTarget?_iff, fun flags => ?_⟩
  rw [checkOuts_steps, List.forall₂_map_right_iff]
  exact List.forall₂_same.2 hchecksOut

end MergePlan

/-- A branch that is made on the way of a plan is one of its targets, made as its snapshot says. -/
theorem MergeStep.Issue.exists_target {r : MergeRequest} {bs : Branches} {c : Checkout}
    {p : MergePlan} {ms : List Mutation} {branch : String} {start? : Option String}
    (h : Issue (p.due r.flags) ms) (hof : MergePlan.of r bs c = .ok p)
    (hmem : .create branch start? ∈ ms) :
    ∃ t ∈ p.targets, bs.ChecksOut t.name (.create branch start?) := by
  have hstep := h.checkOut_of_create hmem
  rw [MergePlan.due] at hstep
  split at hstep
  · simp at hstep
  · exact exists_of_mem_right ((MergePlan.follows_of hof).checkOuts r.flags) hstep

/-! ### Runs -/

namespace MergeRequest

variable {σ : Type} {git : Git.Client σ} {r : MergeRequest} {s : Session σ} {cs : List Checkout}
  {plans : List MergePlan} {skipped : List (Checkout × MergeObstacle)}

namespace Planning

/-- Every plan is made for one of the checkouts, from branches that were listed. -/
theorem exists_of_mem (h : r.Planning git s cs plans skipped) {p : MergePlan} (hp : p ∈ plans) :
    p.checkout ∈ cs ∧ ∃ bs, MergePlan.of r bs p.checkout = .ok p := by
  induction h with
  | nil => simp at hp
  | planned plan rest ih =>
    rcases List.mem_cons.1 hp with rfl | hp
    · obtain ⟨bs, -, hof⟩ := planFrom_eq_ok plan
      obtain ⟨rfl, -⟩ := MergePlan.of_eq_ok hof
      exact ⟨List.mem_cons_self, bs, hof⟩
    · exact (ih hp).imp_left (List.mem_cons_of_mem _)
  | skipped reason rest ih => exact (ih hp).imp_left (List.mem_cons_of_mem _)

/-- Only checkouts of the list are passed over. -/
theorem mem_of_skipped (h : r.Planning git s cs plans skipped) {c : Checkout}
    {obstacle : MergeObstacle} (hc : (c, obstacle) ∈ skipped) : c ∈ cs := by
  induction h with
  | nil => simp at hc
  | planned plan rest ih => exact List.mem_cons_of_mem _ (ih hc)
  | skipped reason rest ih =>
    rcases List.mem_cons.1 hc with heq | hc
    · obtain ⟨rfl, -⟩ := Prod.mk.inj heq
      exact List.mem_cons_self
    · exact List.mem_cons_of_mem _ (ih hc)

/-- Among different checkouts, none that is passed over has a plan. -/
theorem not_alike_of_skipped (h : r.Planning git s cs plans skipped)
    (hdistinct : cs.Pairwise fun a b => ¬a.same b) {c : Checkout} {obstacle : MergeObstacle}
    (hc : (c, obstacle) ∈ skipped) {p : MergePlan} (hp : p ∈ plans) :
    ¬p.checkout.root.alike c.root := by
  induction h with
  | nil => simp at hp
  | planned plan rest ih =>
    obtain ⟨hfirst, hrest⟩ := List.pairwise_cons.1 hdistinct
    rcases List.mem_cons.1 hp with rfl | hp
    · obtain ⟨bs, -, hof⟩ := planFrom_eq_ok plan
      obtain ⟨rfl, -⟩ := MergePlan.of_eq_ok hof
      exact hfirst c (rest.mem_of_skipped hc)
    · exact ih hrest hc hp
  | skipped reason rest ih =>
    obtain ⟨hfirst, hrest⟩ := List.pairwise_cons.1 hdistinct
    rcases List.mem_cons.1 hc with heq | hc
    · obtain ⟨rfl, -⟩ := Prod.mk.inj heq
      rw [Path.alike_comm]
      exact hfirst _ (rest.exists_of_mem hp).1
    · exact ih hrest hc hp

end Planning

/-- **Plans follow snapshots.** A checkout gets a plan exactly if the branch to merge is found among
its branches, the target is, and the two differ; the plan names those two, has a second target
exactly where that is found and is a third branch, and makes a branch exactly for a target that is
not local. In a run through any client every checkout gets its plan or is reported with the reason
why it has none; no repository without a plan is changed, and each branch that is made is made as
the plan's own snapshot says. -/
theorem plans_follow_snapshots (git : Git.Client σ) (r : MergeRequest) :
    (∀ bs c, (∃ p, MergePlan.of r bs c = .ok p) ↔
      ∃ source, r.Resolves bs source ∧ bs.Has r.target ∧ source ≠ r.target) ∧
    (∀ bs c p, MergePlan.of r bs c = .ok p → p.checkout = c ∧ p.Follows r bs) ∧
    ∀ (cs : List Checkout) (s : Session (Traced σ)), ∃ plans report t events,
      r.run git.traced cs s = .ok report t ∧
      r.Planning git.traced s cs plans report.skipped ∧
      t.host.events = s.host.events ++ events ∧
      (∀ root, (∀ p ∈ plans, ¬p.checkout.root.alike root) → ∀ e ∈ events, ¬e.Changes root) ∧
      (cs.Pairwise (fun a b => ¬a.same b) → ∀ c obstacle, (c, obstacle) ∈ report.skipped →
        ∀ e ∈ events, ¬e.Changes c.root) ∧
      ∀ root branch start? result, .change root (.create branch start?) result ∈ events →
        ∃ p ∈ plans, p.checkout.root.alike root ∧ ∀ bs, MergePlan.of r bs p.checkout = .ok p →
          ∃ t ∈ p.targets, bs.ChecksOut t.name (.create branch start?) := by
  refine ⟨fun bs c => MergePlan.exists_of_iff,
    fun bs c p h => ⟨(MergePlan.of_eq_ok h).1, MergePlan.follows_of h⟩, fun cs s => ?_⟩
  obtain ⟨plans, report, t, asked, parts, hrun, hplanning, hevents, hasked, hcarried⟩ :=
    run_carries git r cs s
  -- every change belongs to the part of one plan
  have hpart : ∀ e ∈ asked ++ parts.flatten, ∀ root, e.Changes root →
      ∃ p ∈ plans, ∃ part, p.Carried r.flags report.failed part ∧ e ∈ part := by
    intro e he root hchanges
    rcases List.mem_append.1 he with he | he
    · exact absurd hchanges (not_changes_of_mutations_eq_nil hasked he root)
    · obtain ⟨part, hpart, he⟩ := List.mem_flatten.1 he
      obtain ⟨p, hp, hcarried⟩ := exists_of_mem_right hcarried hpart
      exact ⟨p, hp, part, hcarried, he⟩
  have hunplanned : ∀ root, (∀ p ∈ plans, ¬p.checkout.root.alike root) →
      ∀ e ∈ asked ++ parts.flatten, ¬e.Changes root := by
    intro root hroot e he hchanges
    obtain ⟨p, hp, part, hown, he⟩ := hpart e he root hchanges
    exact hroot p hp (hown.own e he root hchanges)
  refine ⟨plans, report, t, asked ++ parts.flatten, hrun, hplanning, ?_, hunplanned, ?_, ?_⟩
  · rw [hevents, List.append_assoc]
  · exact fun hdistinct c obstacle hc =>
      hunplanned c.root fun p hp => hplanning.not_alike_of_skipped hdistinct hc hp
  · intro root branch start? result he
    have hchanges : (Event.change root (.create branch start?) result).Changes root :=
      ⟨root, _, _, rfl, root.alike_self⟩
    obtain ⟨p, hp, part, ⟨hown, ms, hissue, hpre, -⟩, he⟩ := hpart _ he root hchanges
    refine ⟨p, hp, hown _ he root hchanges, fun bs hof => ?_⟩
    exact hissue.exists_target hof (hpre.subset (mem_mutations.2 ⟨root, result, he⟩))

/-- Beside a checkout without a branch checked out, which is left alone, both targets are made from
`origin`, though another remote carries one of them, too. -/
theorem plans_follow_snapshots_beside_detached :
    let lib := Checkout.outermost ⟨["lib"]⟩
    let app := Checkout.outermost ⟨["app"]⟩
    let r : MergeRequest := ⟨none, "main", some "dev", ⟨false, false, false, false⟩⟩
    let repo := { Repo.onFeature [] with others := [Branch.remoteNamed "fork" "main"] }
    let s : Session (Traced Recorder) := .start
      ⟨(Recorder.empty.put lib.root repo).put app.root { repo with current? := none }, []⟩
    ∃ report t, r.run Recorder.client.traced [lib, app] s = .ok report t ∧
      report.skipped = [(app, .detached)] ∧ (∀ e ∈ t.host.events, ¬e.Changes app.root) ∧
      mutations t.host.events = [.create "dev" (some "origin/dev"), .merge "feature",
        .create "main" (some "origin/main"), .merge "feature"] := by
  intro lib app r repo s
  have hskipped : (answer (r.run Recorder.client.traced [lib, app] s)).toOption.map (·.skipped) =
      some [(app, .detached)] := by decide +kernel
  have hmutations : mutations (reached (r.run Recorder.client.traced [lib, app] s)).host.events =
      [.create "dev" (some "origin/dev"), .merge "feature", .create "main" (some "origin/main"),
        .merge "feature"] := by decide +kernel
  obtain ⟨-, -, hruns⟩ := plans_follow_snapshots Recorder.client r
  obtain ⟨plans, report, t, events, hrun, -, hevents, -, hleft, -⟩ := hruns [lib, app] s
  rw [hrun] at hskipped hmutations
  have hskipped' : report.skipped = [(app, .detached)] := Option.some.inj hskipped
  -- nothing was written down before
  have hall : t.host.events = events := hevents
  refine ⟨report, t, hrun, hskipped', ?_, hmutations⟩
  rw [hall]
  exact hleft (by decide +kernel) app .detached (by simp [hskipped'])

end MergeRequest

end Grove
