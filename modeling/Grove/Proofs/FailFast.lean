import Grove.Commands.Merging
import Grove.Proofs.Failures
import Grove.Proofs.Selections

/-!
# A merge command fails before it changes anything

Whatever can make the command that merges fail is looked at first: the names of the branches, the
workspace, the families, and whether the checkouts are clean. Up to there the client is asked for
nothing but dirt, and from there on the command succeeds whatever becomes of the single checkouts.

## What is proved

* `isDirty_asks`, `dirtyNames_asks`, `ensureClean_asks` — looking for dirty checkouts asks once for
  each, in order, up to the first failure.
* `prepareMerge_asks` — what comes before the merge only asks for dirt.
* `exists_mergeIn_apply`, `merge_eq_error_iff` — the merge itself never fails.
* `merge_fails_fast` — when the command fails, with what, and what it has asked for until then.
-/

namespace Grove

open Git

variable {σ : Type}

/-- The files of a state are those of the state with a trace. -/
instance [HasFiles σ] : HasFiles (Traced σ) :=
  ⟨fun h => HasFiles.files h.host⟩

/-! ### Asking for dirt -/

/-- The questions for some checkouts, with the answers. -/
def Git.Event.dirtOf (dirty : Checkout → Bool) (cs : List Checkout) : List Event :=
  cs.map fun c => .dirt c.root (.ok (dirty c))

/-- An event that changes nothing: a question for dirt. -/
def Git.Event.AsksDirt (e : Event) : Prop :=
  ∃ root answer, e = .dirt root answer

open Event

theorem Git.Event.AsksDirt.not_changes {e : Event} (h : e.AsksDirt) (root : Path) :
    ¬e.Changes root := by
  obtain ⟨_, _, rfl⟩ := h
  rintro ⟨_, _, _, heq, _⟩
  cases heq

section

variable (git : Git.Client σ) {all seen found cs : List Checkout}

/-- The client is asked once for the dirt of a checkout that nothing is remembered of. -/
theorem isDirty_asks {s : Session (Traced σ)} {c : Checkout}
    (hunknown : Ordered.get? Path.order c.root s.dirtyFlags = none) :
    ∃ host, host.events = s.host.events ++ [.dirt c.root (git.status s.host.host c)] ∧
      (git.Steady → ∀ c', git.status host.host c' = git.status s.host.host c') ∧
      (∀ e, git.status s.host.host c = .error e →
        c.isDirty git.traced s = .error e { s with host }) ∧
      ∀ dirty, git.status s.host.host c = .ok dirty → c.isDirty git.traced s = .ok dirty
        { s with host, dirtyFlags := Ordered.put Path.order c.root dirty s.dirtyFlags } := by
  have hanswer : answer (git.traced.isDirty c.root s.host) = git.status s.host.host c :=
    git.status_traced s.host c
  have hreached : reached (git.traced.isDirty c.root s.host) =
      ⟨reached (git.isDirty c.root s.host.host),
        s.host.events ++ [.dirt c.root (git.status s.host.host c)]⟩ :=
    Traced.reached_record _ _ _
  refine ⟨reached (git.traced.isDirty c.root s.host), congrArg Traced.events hreached, ?_, ?_⟩
  · intro hgit c'
    rw [hreached]
    exact hgit _ _ _
  · rw [Checkout.isDirty_apply, hunknown, ← hanswer]
    cases git.traced.isDirty c.root s.host <;> simp

/-- Looking for the dirty ones among some checkouts asks for those that come across for the first
time, in order, and names those answered to be dirty; or it ends with the first that fails. -/
theorem dirtyNames_asks (hall : Distinct all) (hcs : ∀ c ∈ cs, c ∈ all)
    {s : Session (Traced σ)} (hs : Remembered all seen found s) :
    ∃ dirty : Checkout → Bool, (∀ c ∈ seen, dirty c = decide (c ∈ found)) ∧
      ((∃ t, dirtyNames git.traced cs s = .ok ((cs.filter dirty).map (·.name)) t ∧
          t.host.events = s.host.events ++ dirtOf dirty (firsts seen cs) ∧
          (git.Steady → ∀ c ∈ firsts seen cs, git.status s.host.host c = .ok (dirty c))) ∨
        ∃ asked c e t, asked ++ [c] <+: firsts seen cs ∧
          dirtyNames git.traced cs s = .error e t ∧
          t.host.events = s.host.events ++ (dirtOf dirty asked ++ [.dirt c.root (.error e)]) ∧
          (git.Steady → git.status s.host.host c = .error e)) := by
  induction cs generalizing seen found s with
  | nil =>
    exact ⟨fun c => decide (c ∈ found), fun _ _ => rfl,
      .inl ⟨s, rfl, by simp [dirtOf, firsts], by simp [firsts]⟩⟩
  | cons c cs ih =>
    have hc := hcs c List.mem_cons_self
    have hrest : ∀ c ∈ cs, c ∈ all := fun c hc => hcs c (List.mem_cons_of_mem _ hc)
    by_cases hseen : c ∈ seen
    · -- the answer is remembered, nothing is asked
      have hknown : c.isDirty git.traced s = .ok (decide (c ∈ found)) s := by
        rw [Checkout.isDirty_apply, hs.known c hseen]
      obtain ⟨dirty, hdirty, hrun⟩ := ih hrest hs
      refine ⟨dirty, hdirty, ?_⟩
      rw [dirtyNames, bind_of_ok hknown, firsts, if_pos hseen, ← hdirty c hseen]
      refine hrun.imp ?_ ?_
      · rintro ⟨t, hnames, hevents⟩
        refine ⟨t, ?_, hevents⟩
        rw [bind_of_ok hnames]
        cases hd : dirty c <;> simp [hd]
      · rintro ⟨asked, c', e, t, hprefix, hfails, hevents⟩
        exact ⟨asked, c', e, t, hprefix, bind_of_error hfails, hevents⟩
    · have hunknown := hs.unknown c hc hseen
      obtain ⟨host, hevents, hstatus, hfails, hanswers⟩ := isDirty_asks git hunknown
      rw [firsts, if_neg hseen]
      cases hask : git.status s.host.host c with
      | error e =>
        rw [hask] at hevents
        exact ⟨fun c => decide (c ∈ found), fun _ _ => rfl,
          .inr ⟨[], c, e, { s with host }, by simp, bind_of_error (hfails e hask), hevents,
            fun _ => hask⟩⟩
      | ok d =>
        rw [hask] at hevents
        obtain ⟨dirty, hdirty, hlater⟩ := ih hrest (hs.add hall hc hseen d host)
        have hmem : ∀ c', c' ∈ (if d then Ordered.insert Checkout.order c found else found) ↔
            c' ∈ found ∨ (d = true ∧ c' = c) := fun _ => mem_add_iff hall hs hc hseen d
        have hself : dirty c = d := by
          have hfound : c ∉ found := fun h => hseen (hs.asked c h)
          rw [hdirty c List.mem_cons_self]
          simp only [hmem, hfound]
          simp
        refine ⟨dirty, fun c' hc' => ?_, hlater.imp ?_ ?_⟩
        · have hne : c' ≠ c := fun h => hseen (h ▸ hc')
          rw [hdirty c' (List.mem_cons_of_mem _ hc')]
          simp [hmem, hne]
        · rintro ⟨t, hnames, ht, hsteady⟩
          refine ⟨t, ?_, ?_, fun hgit c' hc' => ?_⟩
          · rw [dirtyNames, bind_of_ok (hanswers d hask), bind_of_ok hnames]
            cases d <;> simp [hself]
          · rw [ht, hevents, dirtOf, dirtOf, List.map_cons, hself, List.append_assoc]
            rfl
          · rcases List.mem_cons.1 hc' with rfl | hc'
            · rw [hask, hself]
            · rw [← hstatus hgit]
              exact hsteady hgit c' hc'
        · rintro ⟨asked, c', e, t, hprefix, hfails, ht, hsteady⟩
          refine ⟨c :: asked, c', e, t, ?_, ?_, ?_, fun hgit => ?_⟩
          · exact List.cons_prefix_cons.2 ⟨rfl, hprefix⟩
          · rw [dirtyNames, bind_of_ok (hanswers d hask), bind_of_error hfails]
          · rw [ht, hevents, dirtOf, dirtOf, List.map_cons, hself, List.append_assoc]
            rfl
          · rw [← hstatus hgit]
            exact hsteady hgit

/-- Requiring clean checkouts asks for the dirt of each, and fails with the names of the dirty ones
or with the first question that fails. -/
theorem ensureClean_asks (hall : Distinct all) (hcs : ∀ c ∈ cs, c ∈ all)
    {s : Session (Traced σ)} (hnew : s.dirtyFlags = []) :
    (∃ dirty t, t.host.events = s.host.events ++ dirtOf dirty (firsts [] cs) ∧
        (git.Steady → ∀ c ∈ cs, git.status s.host.host c = .ok (dirty c)) ∧
        ensureClean git.traced cs s =
          if cs.filter dirty = [] then .ok () t
          else .error (Failure.git (.uncommittedChanges ((cs.filter dirty).map (·.name)))) t) ∨
      ∃ dirty asked c e t, asked ++ [c] <+: firsts [] cs ∧
        t.host.events = s.host.events ++ (dirtOf dirty asked ++ [.dirt c.root (.error e)]) ∧
        (git.Steady → git.status s.host.host c = .error e) ∧
        ensureClean git.traced cs s = .error e t := by
  have hs : Remembered all [] [] s :=
    ⟨by simp, by simp, by simp, fun _ _ _ => by rw [hnew]; rfl, .nil⟩
  obtain ⟨dirty, -, hrun⟩ := dirtyNames_asks git hall hcs hs
  rw [ensureClean]
  rcases hrun with
    ⟨t, hnames, hevents, hsteady⟩ | ⟨asked, c, e, t, hprefix, hfails, hevents, hstatus⟩
  · refine .inl ⟨dirty, t, hevents, fun hgit c hc => ?_, ?_⟩
    · exact hsteady hgit c (mem_firsts.2 ⟨hc, List.not_mem_nil⟩)
    · rw [bind_of_ok hnames]
      by_cases hclean : cs.filter dirty = []
      · simp [hclean]
      · simp [hclean]
  · exact .inr ⟨dirty, asked, c, e, t, hprefix, hevents, hstatus, bind_of_error hfails⟩

end

/-- A request is accepted when each of its branch names is. -/
theorem MergeRequest.validate_eq_ok_iff (r : MergeRequest) :
    r.validate = .ok () ↔
      (∀ name, r.source? = some name → Git.checkName "from" name = .ok ()) ∧
      Git.checkName "into" r.target = .ok () ∧
      ∀ name, r.also? = some name → Git.checkName "also-into" name = .ok () := by
  have hnames : ∀ (option : String) (name? : Option String),
      (name?.map (Git.checkName option)).getD (.ok ()) = .ok () ↔
        ∀ name, name? = some name → Git.checkName option name = .ok () := by
    intro option name?
    cases name? <;> simp
  rw [validate, ← hnames "from", ← hnames "also-into"]
  simp only [bind, Except.bind]
  cases (r.source?.map (Git.checkName "from")).getD (.ok ()) with
  | error e => simp
  | ok u => cases Git.checkName "into" r.target <;> simp

namespace CommandContext

open CommandLine

section

variable [HasFiles σ] (x : CommandContext σ) (a : MergeArguments) {s t : Session σ}
  {p : Standpoint}

/-- The checkouts to merge in lie in the workspace. -/
theorem mem_checkouts_of_mem_mergeCheckouts (hload : x.standpoint s = .ok p t)
    {cs : List Checkout} (hcs : x.mergeCheckouts a p = .ok cs) {c : Checkout} (hc : c ∈ cs) :
    c ∈ p.workspace.checkouts := by
  have hresolved : ∀ c ∈ p.resolve x.options, c ∈ p.workspace.checkouts :=
    fun c => Standpoint.mem_checkouts_of_mem_resolve hload
  rw [mergeCheckouts, applyFamilies] at hcs
  split at hcs
  · exact hresolved c (Except.ok.inj hcs ▸ hc)
  · split at hcs
    · cases hcs
    · split at hcs
      · exact hresolved c (Except.ok.inj hcs ▸ hc)
      · obtain rfl := Except.ok.inj hcs
        split at hc
        · exact Workspace.mem_checkouts_of_mem_appendRoot (Standpoint.lawful_of_load hload).1
            (fun _ => Workspace.mem_checkouts_of_mem_inFamilies) hc
        · exact Workspace.mem_checkouts_of_mem_inFamilies hc

/-- Where all else is right the last part of what comes before the merge is the look for dirt. -/
theorem prepareMerge_apply (hvalid : (x.mergeRequest a).validate = .ok ())
    (hload : x.standpoint s = .ok p t) {cs : List Checkout} (hcs : x.mergeCheckouts a p = .ok cs) :
    x.prepareMerge a s =
      (do
        if x.settings.merge.requireClean then ensureClean x.git cs
        return cs) t := by
  rw [prepareMerge, hvalid, Except.mapError, bind_of_ok (Action.ofExcept_ok _ _), bind_of_ok hload,
    hcs]
  exact bind_of_ok (Action.ofExcept_ok _ _)

/-- What comes before the merge fails without a change, or it comes to the look for dirt. -/
theorem prepareMerge_cases (s : Session σ) :
    (∃ e t, x.prepareMerge a s = .error e t ∧ t.host = s.host) ∨
      ∃ p cs t, (x.mergeRequest a).validate = .ok () ∧ x.standpoint s = .ok p t ∧
        x.mergeCheckouts a p = .ok cs := by
  obtain ⟨hhost, -⟩ := x.reached_standpoint s
  cases hvalid : (x.mergeRequest a).validate with
  | error e =>
    rw [prepareMerge, hvalid]
    exact .inl ⟨_, s, bind_of_error (Action.ofExcept_error _ _), rfl⟩
  | ok u =>
    cases hload : x.standpoint s with
    | error e t =>
      rw [hload] at hhost
      rw [prepareMerge, hvalid, Except.mapError, bind_of_ok (Action.ofExcept_ok _ _)]
      exact .inl ⟨e, t, bind_of_error hload, hhost⟩
    | ok p t =>
      rw [hload] at hhost
      cases hcs : x.mergeCheckouts a p with
      | error e =>
        rw [prepareMerge, hvalid, Except.mapError, bind_of_ok (Action.ofExcept_ok _ _),
          bind_of_ok hload, hcs]
        exact .inl ⟨_, t, bind_of_error (Action.ofExcept_error _ _), hhost⟩
      | ok cs => exact .inr ⟨p, cs, t, rfl, rfl, hcs⟩

end

/-- From some events on only dirt was asked for. -/
def OnlyAsked (before : List Event) (s : Session (Traced σ)) : Prop :=
  ∃ asked, s.host.events = before ++ asked ∧ ∀ event ∈ asked, event.AsksDirt

theorem keeps_onlyAsked_isDirty (git : Git.Client σ) (before : List Event) (c : Checkout) :
    Action.Keeps (OnlyAsked before) (c.isDirty git.traced) := by
  intro s ⟨asked, hbefore, hasked⟩
  cases hknown : Ordered.get? Path.order c.root s.dirtyFlags with
  | some dirty =>
    rw [Checkout.isDirty_apply, hknown]
    exact ⟨asked, hbefore, hasked⟩
  | none =>
    obtain ⟨host, hevents, -, hfails, hanswers⟩ := isDirty_asks git hknown
    have hend : OnlyAsked before { s with host } := by
      refine ⟨asked ++ [.dirt c.root (git.status s.host.host c)], ?_, fun event hevent => ?_⟩
      · rw [hevents, hbefore, List.append_assoc]
      · rcases List.mem_append.1 hevent with hevent | hevent
        · exact hasked event hevent
        · exact ⟨_, _, List.mem_singleton.1 hevent⟩
    cases hask : git.status s.host.host c with
    | error e =>
      rw [hfails e hask]
      exact hend
    | ok dirty =>
      rw [hanswers dirty hask]
      exact hend

section

variable [HasFiles σ] {x : CommandContext (Traced σ)} {git : Git.Client σ}
  (hgit : x.git = git.traced) (a : MergeArguments)

include hgit

/-- What comes before the merge only asks for dirt. -/
theorem prepareMerge_asks (s : Session (Traced σ)) :
    OnlyAsked s.host.events (reached (x.prepareMerge a s)) := by
  have hstart : ∀ t : Session (Traced σ), t.host = s.host → OnlyAsked s.host.events t :=
    fun t ht => ⟨[], by rw [ht, List.append_nil], by simp⟩
  rcases x.prepareMerge_cases a s with ⟨e, t, hrun, hhost⟩ | ⟨p, cs, t, hvalid, hload, hcs⟩
  · rw [hrun]
    exact hstart t hhost
  · obtain ⟨hhost, -⟩ := x.reached_standpoint s
    rw [hload] at hhost
    have hclean : Action.Keeps (OnlyAsked s.host.events) (ensureClean x.git cs) := by
      rw [hgit]
      exact .ensureClean fun c _ => keeps_onlyAsked_isDirty git _ c
    rw [x.prepareMerge_apply a hvalid hload hcs]
    split
    · exact (hclean.bind fun _ => .pure _) t (hstart t hhost)
    · exact hstart t hhost

omit [HasFiles σ] in
/-- The merge itself never fails, whatever becomes of the single checkouts. -/
theorem exists_mergeIn_apply (cs : List Checkout) (s : Session (Traced σ)) :
    ∃ t, x.mergeIn a cs s = .ok () t := by
  obtain ⟨report, t, -, -, hrun, -⟩ := run_tells git (x.mergeRequest a) cs s
  rw [mergeIn, hgit, bind_of_ok hrun, bind_of_ok (Action.note_apply _ _ _)]
  exact Action.exists_forM_apply (fun failed _ s => ⟨_, Action.note_apply _ _ _⟩) _

/-- A merge fails just where what comes before it does. -/
theorem merge_eq_error_iff {s t : Session (Traced σ)} {e : Failure} :
    x.merge a s = .error e t ↔ x.prepareMerge a s = .error e t := by
  rw [merge]
  constructor
  · intro h
    cases hprepare : x.prepareMerge a s with
    | error e' t' =>
      rw [bind_of_error hprepare] at h
      obtain ⟨rfl, rfl⟩ := EStateM.Result.error.inj h
      rfl
    | ok cs u =>
      obtain ⟨v, hmerge⟩ := exists_mergeIn_apply hgit a cs u
      rw [bind_of_ok hprepare, hmerge] at h
      cases h
  · exact bind_of_error

end

/-- **A merge command fails fast.** For every workspace, configuration, client and arguments: where
the command fails, the client was asked for nothing but dirt until then. It fails for a branch name
that breaks a rule, at once and with the rule; for families together with a scope that takes none;
and, where clean checkouts are required, with the names of exactly the dirty ones among those that
are selected, in their order, or with the first question for dirt that fails. Once nothing of that
is wrong, the command succeeds whatever becomes of the single checkouts. -/
theorem merge_fails_fast [HasFiles σ] (git : Git.Client σ) (programs : Programs (Traced σ))
    (directory : Path) (settings : Settings) (a : MergeArguments) {s : Session (Traced σ)}
    (hnew : s.dirtyFlags = []) :
    let x : CommandContext (Traced σ) := ⟨git.traced, programs, directory, settings⟩
    (∀ e t, x.merge a s = .error e t →
      ∃ asked, t.host.events = s.host.events ++ asked ∧ ∀ event ∈ asked, event.AsksDirt) ∧
    ((∃ name, a.source? = some name ∧ Git.checkName "from" name ≠ .ok ()) ∨
        Git.checkName "into" settings.merge.into ≠ .ok () ∨
        (∃ name, a.also? = some name ∧ Git.checkName "also-into" name ≠ .ok ()) →
      ∃ e, (x.mergeRequest a).validate = .error e ∧
        x.merge a s = .error (.bare (.settings e)) s) ∧
    (listed a.families? ≠ [] → settings.scopeOptions.scope ≠ .family →
      ∃ e t, x.merge a s = .error e t) ∧
    (∀ p t cs, settings.merge.requireClean = true → (x.mergeRequest a).validate = .ok () →
      x.standpoint s = .ok p t → x.mergeCheckouts a p = .ok cs →
      (∃ dirty u, u.host.events = s.host.events ++ dirtOf dirty (firsts [] cs) ∧
        (git.Steady → ∀ c ∈ cs, git.status s.host.host c = .ok (dirty c)) ∧
        (cs.filter dirty = [] → x.prepareMerge a s = .ok cs u) ∧
        (cs.filter dirty ≠ [] → x.merge a s =
          .error (Failure.git (.uncommittedChanges ((cs.filter dirty).map (·.name)))) u)) ∨
      ∃ dirty asked c e u, asked ++ [c] <+: firsts [] cs ∧
        u.host.events = s.host.events ++ (dirtOf dirty asked ++ [.dirt c.root (.error e)]) ∧
        (git.Steady → git.status s.host.host c = .error e) ∧
        x.merge a s = .error e u) ∧
    ∀ cs t, x.prepareMerge a s = .ok cs t → ∃ u, x.merge a s = .ok () u := by
  intro x
  have hgit : x.git = git.traced := rfl
  refine ⟨fun e t hrun => ?_, fun hname => ?_, fun hlisted hscope => ?_,
    fun p t cs hrequired hvalid hload hcs => ?_, fun cs t hprepare => ?_⟩
  · have hasked := prepareMerge_asks hgit a s
    rw [(merge_eq_error_iff hgit a).1 hrun] at hasked
    exact hasked
  · cases hvalid : (x.mergeRequest a).validate with
    | error e =>
      refine ⟨e, rfl, (merge_eq_error_iff hgit a).2 ?_⟩
      rw [prepareMerge, hvalid]
      exact bind_of_error (Action.ofExcept_error _ _)
    | ok u =>
      obtain ⟨hsource, htarget, halso⟩ := (MergeRequest.validate_eq_ok_iff _).1 hvalid
      exfalso
      rcases hname with ⟨name, hname, hbad⟩ | hbad | ⟨name, hname, hbad⟩
      · exact hbad (hsource name hname)
      · exact hbad htarget
      · exact hbad (halso name hname)
  · rcases x.prepareMerge_cases a s with ⟨e, t, hrun, -⟩ | ⟨p, cs, t, -, -, hcs⟩
    · exact ⟨e, t, (merge_eq_error_iff hgit a).2 hrun⟩
    · have hscope' : x.options.scope ≠ .family := hscope
      rw [mergeCheckouts, applyFamilies, if_neg hlisted, if_pos hscope'] at hcs
      cases hcs
  · obtain ⟨hhost, hflags⟩ := x.reached_standpoint s
    rw [hload, reached_ok] at hhost hflags
    have hprepare := x.prepareMerge_apply a hvalid hload hcs
    have hrequired' : x.settings.merge.requireClean = true := hrequired
    rw [hrequired', if_pos rfl] at hprepare
    have hdistinct := p.workspace.distinct_checkouts (Standpoint.lawful_of_load hload).1
    have hasked := ensureClean_asks git hdistinct
      (fun c => x.mem_checkouts_of_mem_mergeCheckouts a hload hcs) (hflags.trans hnew)
    rw [hhost] at hasked
    rcases hasked with
      ⟨dirty, u, hevents, hanswers, hclean⟩ | ⟨dirty, asked, c, e, u, hprefix, hevents, he, hclean⟩
    · refine .inl ⟨dirty, u, hevents, hanswers, fun hnone => ?_, fun hsome => ?_⟩
      · rw [if_pos hnone] at hclean
        exact hprepare.trans (bind_of_ok hclean)
      · rw [if_neg hsome] at hclean
        exact (merge_eq_error_iff hgit a).2 (hprepare.trans (bind_of_error hclean))
    · exact .inr ⟨dirty, asked, c, e, u, hprefix, hevents, he,
        (merge_eq_error_iff hgit a).2 (hprepare.trans (bind_of_error hclean))⟩
  · obtain ⟨u, hmerge⟩ := exists_mergeIn_apply hgit a cs t
    exact ⟨u, (bind_of_ok hprepare).trans hmerge⟩

/-- A merge in a submodule with local changes fails with its name, and nothing but its dirt was
asked for. -/
theorem merge_fails_fast_where_modified :
    letI : HasFiles Recorder := ⟨fun _ => Workspace.cloneBesideSubmodule⟩
    let lib := Files.pathOf ["ws", "lib"]
    let host := Recorder.empty.put lib { Repo.empty with dirty := true }
    let settings : Settings := { Settings.standard with
      scope := ⟨.justThis, false, none⟩
      merge := { Settings.standard.merge with requireClean := true } }
    let x : CommandContext (Traced Recorder) :=
      ⟨Recorder.client.traced, ⟨fun _ _ => none, fun _ => throw (.bare (.plain "no programs"))⟩,
        lib, settings⟩
    let a : MergeArguments :=
      ⟨⟨none, none, none⟩, none, none, none, none, false, false, false, true⟩
    ∃ u, x.merge a (.start ⟨host, []⟩) = .error (Failure.git (.uncommittedChanges ["lib"])) u ∧
      u.host.events = [.dirt lib (.ok true)] := by
  let _ : HasFiles Recorder := ⟨fun _ => Workspace.cloneBesideSubmodule⟩
  intro lib host settings x a
  let s : Session (Traced Recorder) := .start ⟨host, []⟩
  let c := Checkout.nested lib (Files.pathOf ["ws"])
  obtain ⟨p, t, hload, hcheckout⟩ := Standpoint.exists_load_lib settings.scopeOptions s
  have hcs : x.mergeCheckouts a p = .ok [c] := by
    have hresolve : p.resolve x.options = [p.checkout] := rfl
    rw [mergeCheckouts, hresolve, hcheckout]
    rfl
  have hstatus : Recorder.client.status host c = .ok true := by
    rw [Recorder.status_client]
    decide +kernel
  obtain ⟨-, -, -, hclean, -⟩ :=
    merge_fails_fast Recorder.client x.programs lib settings a (s := s) rfl
  have hvalid : (x.mergeRequest a).validate = .ok () := by decide +kernel
  rcases hclean p t [c] rfl hvalid hload hcs with
    ⟨dirty, u, hevents, hanswers, -, hfails⟩ | ⟨-, asked, c', e, -, hprefix, -, he, -⟩
  · have hdirty : dirty c = true := by
      have h := (hanswers Recorder.steady_client c List.mem_cons_self).symm.trans hstatus
      exact Except.ok.inj h
    have hfilter : [c].filter dirty = [c] := by rw [List.filter_cons_of_pos hdirty, List.filter_nil]
    rw [hfilter] at hfails
    refine ⟨u, hfails (by simp), hevents.trans ?_⟩
    simp [dirtOf, firsts, hdirty, s, Session.start]
    rfl
  · -- only the submodule was asked about, and that did not fail
    have hc : c' ∈ [c] := by
      have h := hprefix.subset (List.mem_append_right asked List.mem_cons_self)
      exact (mem_firsts.1 h).1
    rw [List.mem_singleton.1 hc] at he
    exact absurd ((he Recorder.steady_client).symm.trans hstatus) (by simp)

end CommandContext

end Grove
