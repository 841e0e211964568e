import Grove.Program.Launch
import Grove.Proofs.Failures
import Grove.Workflow.Documentation

/-!
# What generating documentation does to repositories

Whatever a machine does with the programs it is given can be told by two functions: where it finds a
program, and what comes of starting one. Starts are written down, with the exit code or the reason
why there was none, beside the operations that the client is asked for. So a run shows in which
order it looked at the workspace, started the generator and changed repositories.

## What is proved

* `launcher_programs` — the programs of a host are such a machine.
* `dirtyCheckouts_watched` — a look at a workspace asks about each checkout and starts nothing.
* `changes_follow_success` — repositories are changed only after a generator that went well, between
  two looks that were answered and that differ.
-/

namespace Grove

open Git

variable {σ α : Type}

/-! ### Programs that are watched -/

/-- A program that came to its end. -/
structure Ended (σ : Type) where
  /-- The exit code; -1 when a signal ended the program. -/
  code : Int
  /-- What it printed. -/
  output : ByteArray
  /-- What it printed as errors. -/
  errors : ByteArray
  /-- The state of the host that it left. -/
  host : σ

/-- What a machine does with programs. -/
structure Launcher (σ : Type) where
  /-- The program of a name, looked for on the search path. -/
  find? : String → σ → Option Path
  /-- What comes of starting a program, or why it cannot be started. -/
  start : Invocation → σ → Except OsError (Ended σ)

namespace Launcher

/-- Access to the programs of a machine. -/
def programs (l : Launcher σ) : Programs σ where
  find? := l.find?
  run i := fun h =>
    match l.start i h with
    | .error e => .error (.bare (.program (.notStarted i.line e))) h
    | .ok ended =>
      match Outcome.of i ended.code ended.output ended.errors with
      | .ok outcome => .ok outcome ended.host
      | .error e => .error e ended.host

end Launcher

/-- What a host does with programs. -/
def Host.launcher : Launcher Host where
  find? name h := h.findProgram? name
  start i h := (h.start i).map fun state =>
    ⟨if state.isKilled then -1 else state.status, state.output, state.errors,
      { h with files := { state.files with here := h.files.here } }⟩

theorem launcher_programs : Host.launcher.programs = Host.programs := by
  have hrun : Host.launcher.programs.run = Host.run := by
    funext i h
    simp only [Launcher.programs, Host.launcher, Host.run]
    cases h.start i <;> rfl
  rw [Host.programs, ← hrun]
  rfl

/-- A start of a program. -/
structure Launch where
  /-- What was to be started. -/
  invocation : Invocation
  /-- The exit code, or why the program was not started. -/
  result : Except OsError Int
  /-- The operations that the client had been asked for by then. -/
  before : List Event

/-- A state of the host with the starts so far, oldest first. -/
structure Watched (σ : Type) where
  /-- The state. -/
  host : σ
  /-- The starts. -/
  launches : List Launch

namespace Watched

/-- Acts on the host and leaves what is written down. -/
def act (x : EStateM Failure σ α) : EStateM Failure (Watched σ) α := fun h =>
  match x h.host with
  | .ok a host => .ok a ⟨host, h.launches⟩
  | .error e host => .error e ⟨host, h.launches⟩

variable (x : EStateM Failure σ α) (h : Watched σ)

@[simp] theorem reached_act : reached (act x h) = ⟨reached (x h.host), h.launches⟩ := by
  rw [act]
  cases x h.host <;> rfl

end Watched

/-- The client, on a host whose programs are watched. -/
def Git.Client.beside (git : Git.Client σ) : Git.Client (Watched σ) where
  isDirty root := Watched.act (git.isDirty root)
  currentBranch root := Watched.act (git.currentBranch root)
  listBranches root := Watched.act (git.listBranches root)
  mutate root m := Watched.act (git.mutate root m)

namespace Launcher

/-- Access to the programs of a machine, with every start written down. -/
def watched (l : Launcher σ) : Programs (Traced (Watched σ)) where
  find? name h := l.find? name h.host.host
  run i := fun h =>
    let launch : Launch := ⟨i, (l.start i h.host.host).map (·.code), h.events⟩
    match l.programs.run i h.host.host with
    | .ok outcome host => .ok outcome ⟨⟨host, h.host.launches ++ [launch]⟩, h.events⟩
    | .error e host => .error e ⟨⟨host, h.host.launches ++ [launch]⟩, h.events⟩

variable (l : Launcher σ) (i : Invocation) (h : Traced (Watched σ))

@[simp] theorem answer_watched :
    answer (l.watched.run i h) = answer (l.programs.run i h.host.host) := by
  simp only [watched]
  cases l.programs.run i h.host.host <;> rfl

@[simp] theorem reached_watched : reached (l.watched.run i h) =
    ⟨⟨reached (l.programs.run i h.host.host),
      h.host.launches ++ [⟨i, (l.start i h.host.host).map (·.code), h.events⟩]⟩, h.events⟩ := by
  simp only [watched]
  cases l.programs.run i h.host.host <;> rfl

/-- A program that has to succeed went well only with the exit code zero. -/
theorem exited_of_ok {l : Launcher σ} {i : Invocation} {h : σ} {outcome : Outcome}
    (hfailure : i.allowFailure = false) (hrun : answer (l.programs.run i h) = .ok outcome) :
    (l.start i h).map (·.code) = .ok 0 := by
  simp only [programs] at hrun
  cases hstart : l.start i h with
  | error e => simp [hstart] at hrun
  | ok ended =>
    have hcode : ended.code = 0 := by
      by_contra hne
      simp [hstart, Outcome.of, hne, hfailure] at hrun
    rw [← hcode]
    rfl

end Launcher

/-! ### Looks at a workspace -/

/-- Whether an event is a change that was tried in some repository. -/
def Git.Event.isChange : Event → Bool
  | change .. => true
  | _ => false

/-- The questions of a look that were answered, and how. -/
def looked (answers : List (Checkout × Bool)) : List Event :=
  answers.map fun a => .dirt a.1.root (.ok a.2)

/-- An operation of the client is written down and starts nothing. -/
theorem launches_record (event : Except Failure α → Event) (x : EStateM Failure σ α)
    (h : Traced (Watched σ)) :
    (reached (Traced.record event (Watched.act x) h)).host.launches = h.host.launches := by
  rw [Traced.reached_record, Watched.reached_act]

variable (git : Git.Client σ)

/-- Asking about each of some checkouts shows as these questions, up to the first that fails. -/
theorem askEach_watched (cs : List Checkout) (h : Traced (Watched σ)) :
    ∃ asked, (reached (git.beside.traced.askEach cs h)).events = h.events ++ asked ∧
      (reached (git.beside.traced.askEach cs h)).host.launches = h.host.launches ∧
      (∀ event ∈ asked, event.isChange = false) ∧
      ∀ dirty, answer (git.beside.traced.askEach cs h) = .ok dirty →
        ∃ answers, asked = looked answers ∧ answers.map (·.1) = cs ∧
          ∀ c, c ∈ dirty ↔ (c, true) ∈ answers := by
  induction cs generalizing h with
  | nil =>
    refine ⟨[], (List.append_nil _).symm, rfl, by simp, fun dirty hdirty => ?_⟩
    obtain rfl := Except.ok.inj hdirty
    exact ⟨[], rfl, rfl, by simp⟩
  | cons c cs ih =>
    have hfirst : (reached (git.beside.traced.isDirty c.root h)).events =
        h.events ++ [.dirt c.root (answer (git.beside.traced.isDirty c.root h))] := by
      rw [Client.traced, Traced.reached_record, Traced.answer_record]
    have hkept : (reached (git.beside.traced.isDirty c.root h)).host.launches =
        h.host.launches := launches_record _ _ h
    rw [Client.askEach]
    cases hask : git.beside.traced.isDirty c.root h with
    | error e h' =>
      rw [hask] at hfirst hkept
      rw [bind_of_error hask]
      exact ⟨[_], hfirst, hkept, by simp [Event.isChange], by simp⟩
    | ok dirty h' =>
      rw [hask, reached_ok] at hfirst hkept
      obtain ⟨asked, hevents, hlaunches, hnone, hanswers⟩ := ih h'
      rw [hfirst, answer_ok, List.append_assoc, List.singleton_append] at hevents
      rw [hkept] at hlaunches
      have hnone' : ∀ event ∈ .dirt c.root (.ok dirty) :: asked, event.isChange = false :=
        List.forall_mem_cons.2 ⟨by simp [Event.isChange], hnone⟩
      rw [bind_of_ok hask]
      cases hrest : git.beside.traced.askEach cs h' with
      | error e u =>
        rw [hrest] at hevents hlaunches
        rw [bind_of_error hrest]
        exact ⟨_, hevents, hlaunches, hnone', by simp⟩
      | ok rest u =>
        obtain ⟨answers, rfl, hcs, hmem⟩ := hanswers rest (by rw [hrest]; rfl)
        rw [hrest] at hevents hlaunches
        rw [bind_of_ok hrest]
        refine ⟨_, hevents, hlaunches, hnone', fun found hfound => ?_⟩
        obtain rfl := Except.ok.inj hfound
        refine ⟨(c, dirty) :: answers, rfl, by rw [List.map_cons, hcs], fun c' => ?_⟩
        cases dirty <;> simp [hmem]

/-- What a stretch of a run adds to what is written down. -/
structure Leaves (s t : Session (Traced (Watched σ))) (events : List Event)
    (launches : List Launch) : Prop where
  events : t.host.events = s.host.events ++ events
  launches : t.host.host.launches = s.host.host.launches ++ launches

theorem Leaves.trans {s t u : Session (Traced (Watched σ))} {events events' : List Event}
    {launches launches' : List Launch} (h : Leaves s t events launches)
    (h' : Leaves t u events' launches') :
    Leaves s u (events ++ events') (launches ++ launches') :=
  ⟨by rw [h'.events, h.events, List.append_assoc],
    by rw [h'.launches, h.launches, List.append_assoc]⟩

/-- A look at a workspace shows as questions about its checkouts, each asked once where all are
answered, and starts nothing. -/
theorem dirtyCheckouts_watched {w : Workspace} (hw : w.Lawful) (s : Session (Traced (Watched σ))) :
    ∃ asked, Leaves s (reached (dirtyCheckouts git.beside.traced w s)) asked [] ∧
      (∀ event ∈ asked, event.isChange = false) ∧
      ∀ found, answer (dirtyCheckouts git.beside.traced w s) = .ok found →
        ∃ answers, asked = looked answers ∧ (answers.map (·.1)).Perm w.checkouts ∧
          ∀ c, c ∈ found ↔ (c, true) ∈ answers := by
  obtain ⟨t, hasked, hrun⟩ := dirtyCheckouts_apply git.beside.traced hw s
  obtain ⟨asked, hevents, hlaunches, hnone, hanswers⟩ := askEach_watched git w.lookOrder s.host
  rw [← hasked.host] at hevents hlaunches
  have hleaves : Leaves s t asked [] := ⟨hevents, by rw [hlaunches, List.append_nil]⟩
  cases heach : answer (git.beside.traced.askEach w.lookOrder s.host) with
  | error e =>
    rw [heach] at hrun
    rw [hrun]
    exact ⟨asked, hleaves, hnone, by simp⟩
  | ok dirty =>
    rw [heach] at hrun
    obtain ⟨found, hfound, -, hmem⟩ := hrun
    obtain ⟨answers, hlooked, horder, htrue⟩ := hanswers dirty heach
    rw [hfound]
    refine ⟨asked, hleaves, hnone, fun found' hfound' => ?_⟩
    obtain rfl := Except.ok.inj hfound'
    exact ⟨answers, hlooked, horder ▸ w.lookOrder_perm hw, fun c => (hmem c).trans (htrue c)⟩

/-- What an earlier look tells to be clean and a later one to be dirty is what is found by the later
look alone. -/
theorem mem_changed_iff {all found found' : List Checkout} {before after : List (Checkout × Bool)}
    (hall : Distinct all) (hnodup : all.Nodup) (hbefore : (before.map (·.1)).Perm all)
    (hafter : (after.map (·.1)).Perm all) (hfound : ∀ c, c ∈ found ↔ (c, true) ∈ before)
    (hfound' : ∀ c, c ∈ found' ↔ (c, true) ∈ after) (c : Checkout) :
    c ∈ found'.filter (fun c => !c.isIn found) ↔ (c, false) ∈ before ∧ (c, true) ∈ after := by
  have hkeys : ∀ {answers : List (Checkout × Bool)}, (answers.map (·.1)).Perm all →
      ∀ {c dirty}, (c, dirty) ∈ answers → c ∈ all := fun hperm _ _ hmem =>
    hperm.mem_iff.1 (List.mem_map_of_mem hmem)
  have hisIn : c ∈ all → (c.isIn found ↔ c ∈ found) := fun hc =>
    isIn_iff hall hc fun c' hc' => hkeys hbefore ((hfound c').1 hc')
  have hclean : c ∈ all → ((c, false) ∈ before ↔ (c, true) ∉ before) := by
    intro hc
    constructor
    · intro hfalse htrue
      have hkeep := (List.inj_on_of_nodup_map (hbefore.nodup_iff.2 hnodup)) hfalse htrue rfl
      simp at hkeep
    · intro hnot
      obtain ⟨⟨c', dirty⟩, hmem, rfl⟩ := List.mem_map.1 (hbefore.mem_iff.2 hc)
      cases dirty with
      | false => exact hmem
      | true => exact absurd hmem hnot
  rw [List.mem_filter, hfound']
  constructor
  · rintro ⟨hc, hnew⟩
    have hmem := hkeys hafter hc
    refine ⟨(hclean hmem).2 fun htrue => ?_, hc⟩
    rw [(hisIn hmem).2 ((hfound c).2 htrue)] at hnew
    simp at hnew
  · rintro ⟨hfalse, hc⟩
    refine ⟨hc, ?_⟩
    have hmem := hkeys hafter hc
    rw [Bool.not_eq_true', Bool.eq_false_iff]
    exact fun hin => (hclean hmem).1 hfalse ((hfound c).1 ((hisIn hmem).1 hin))

/-! ### Whole runs -/

/-- Nothing that is done to checkouts starts a program. -/
theorem stepsKeep_launches (launches : List Launch) (all : List Checkout) :
    StepsKeep git.beside.traced all fun s => s.host.host.launches = launches where
  note _ _ _ h := h
  forgetAll _ h := h
  forget _ _ _ h := h
  isDirty c _ s h := by
    have hkept : (reached (git.beside.traced.isDirty c.root s.host)).host.launches =
        s.host.host.launches := launches_record _ _ s.host
    rw [Checkout.isDirty_apply]
    cases Ordered.get? Path.order c.root s.dirtyFlags with
    | some dirty => exact h
    | none => cases hask : git.beside.traced.isDirty c.root s.host <;> exact (hask ▸ hkept).trans h
  currentBranch c _ s h := by
    rw [Action.reached_onHost]
    exact (launches_record _ _ s.host).trans h
  change c _ m s h := by
    rw [(c.change_apply git.beside.traced m s).2]
    exact (launches_record _ _ s.host).trans h

/-- Committing always answers, and starts nothing. -/
theorem commitChanges_watched (w : Workspace) (changed : List Checkout) (message : String)
    (pretend : Bool) (s : Session (Traced (Watched σ))) :
    ∃ report t events,
      commitChanges git.beside.traced w changed message pretend s = .ok report t ∧
        Leaves s t events [] := by
  obtain ⟨report, t, tried, asked, tried', hrun, hevents, -⟩ :=
    commitChanges_tells git.beside message pretend w changed s
  have hlaunches := (stepsKeep_launches git s.host.host.launches (w.root :: changed)).commitChanges
    message pretend List.mem_cons_self (fun c hc => List.mem_cons_of_mem _ hc) s rfl
  rw [hrun] at hlaunches
  refine ⟨report, t, tried ++ asked ++ tried', hrun, ?_, by rw [List.append_nil]; exact hlaunches⟩
  rw [hevents]
  simp only [List.append_assoc]

variable (l : Launcher σ)

/-- Runs a program and waits for it, whatever it prints. -/
def Launcher.work (i : Invocation) : Action (Traced (Watched σ)) Unit := do
  let _ ← Action.onHost (l.watched.run i)
  return ()

/-- A run of a program shows as its start, and went well only where it exited with zero. -/
theorem work_watched (i : Invocation) (s : Session (Traced (Watched σ))) :
    ∃ result, Leaves s (reached (l.work i s)) [] [⟨i, result, s.host.events⟩] ∧
      (i.allowFailure = false → answer (l.work i s) = .ok () → result = .ok 0) := by
  have hrun : l.work i s = match l.watched.run i s.host with
      | .ok _ host => .ok () { s with host }
      | .error e host => .error e { s with host } := by
    rw [Launcher.work, bind_apply, Action.onHost]
    cases l.watched.run i s.host <;> rfl
  have hreached := l.reached_watched i s.host
  have hanswer := l.answer_watched i s.host
  rw [hrun]
  cases hwatched : l.watched.run i s.host with
  | ok outcome host =>
    rw [hwatched] at hreached hanswer
    obtain rfl := hreached
    exact ⟨_, ⟨(List.append_nil _).symm, rfl⟩, fun hfailure _ =>
      Launcher.exited_of_ok hfailure hanswer.symm⟩
  | error e host =>
    rw [hwatched] at hreached
    obtain rfl := hreached
    exact ⟨_, ⟨(List.append_nil _).symm, rfl⟩, by simp⟩

/-- Changes are detected by two looks that were answered and the start between them, which went
well; otherwise nothing but questions was asked. -/
theorem detectChanges_watched {w : Workspace} (hw : w.Lawful) {i : Invocation}
    (hfailure : i.allowFailure = false) (s : Session (Traced (Watched σ))) :
    (∃ e t events launches, detectChanges git.beside.traced w (l.work i) s = .error e t ∧
      Leaves s t events launches ∧ ∀ event ∈ events, event.isChange = false) ∨
    ∃ changed t before after,
      detectChanges git.beside.traced w (l.work i) s = .ok ((), changed) t ∧
        Leaves s t (looked before ++ looked after)
          [⟨i, .ok 0, s.host.events ++ looked before⟩] ∧
        (before.map (·.1)).Perm w.checkouts ∧ (after.map (·.1)).Perm w.checkouts ∧
        ∀ c, c ∈ changed ↔ (c, false) ∈ before ∧ (c, true) ∈ after := by
  obtain ⟨asked, hlook, hnone, hanswers⟩ := dirtyCheckouts_watched git hw s
  cases hfirst : dirtyCheckouts git.beside.traced w s with
  | error e t =>
    rw [hfirst] at hlook
    exact .inl ⟨e, t, asked, [], bind_of_error hfirst, hlook, hnone⟩
  | ok found t =>
    rw [hfirst, reached_ok] at hlook
    rw [hfirst] at hanswers
    obtain ⟨before, rfl, hbefore, hfound⟩ := hanswers found rfl
    obtain ⟨result, hstart, hwell⟩ := work_watched l i t
    have hleaves := hlook.trans hstart
    rw [List.append_nil, List.nil_append, hlook.events] at hleaves
    cases hwork : l.work i t with
    | error e u =>
      rw [hwork] at hleaves
      exact .inl ⟨e, u, _, _, (bind_of_ok hfirst).trans (bind_of_error hwork), hleaves, hnone⟩
    | ok value u =>
      obtain rfl := hwell hfailure (by rw [hwork]; rfl)
      rw [hwork] at hleaves
      obtain ⟨asked', hlook', hnone', hanswers'⟩ := dirtyCheckouts_watched git hw u
      have hleaves' := hleaves.trans hlook'
      rw [List.append_nil] at hleaves'
      cases hsecond : dirtyCheckouts git.beside.traced w u with
      | error e v =>
        rw [hsecond] at hleaves'
        refine .inl ⟨e, v, _, _, (bind_of_ok hfirst).trans ((bind_of_ok hwork).trans
          (bind_of_error hsecond)), hleaves', fun event hevent => ?_⟩
        rcases List.mem_append.1 hevent with hevent | hevent
        · exact hnone event hevent
        · exact hnone' event hevent
      | ok found' v =>
        rw [hsecond] at hleaves' hanswers'
        obtain ⟨after, rfl, hafter, hfound'⟩ := hanswers' found' rfl
        exact .inr ⟨_, v, before, after, (bind_of_ok hfirst).trans ((bind_of_ok hwork).trans
          (bind_of_ok hsecond)), hleaves', hbefore, hafter, mem_changed_iff
            (w.distinct_checkouts hw) hw.increasing.nodup hbefore hafter hfound hfound'⟩

namespace DocumentationRequest

/-- The generator as it is run for a project. -/
def invocation (r : DocumentationRequest) (program folder : Path) (pom : Pom) : Invocation :=
  { Invocation.of program (r.argumentsFor folder pom.directory) with
    directory? := some pom.directory }

/-- What stands behind the changes of a run: two looks at the whole workspace that were answered,
between them a start of the generator that went well, and the checkouts that turned dirty. -/
structure Grounds (w : Workspace) (i : Invocation) (s : Session (Traced (Watched σ)))
    (events : List Event) (launches : List Launch) (report : DocumentationReport)
    (before after : List (Checkout × Bool)) : Prop where
  looks : looked before ++ looked after <+: events
  start : launches = [⟨i, .ok 0, s.host.events ++ looked before⟩]
  all_before : (before.map (·.1)).Perm w.checkouts
  all_after : (after.map (·.1)).Perm w.checkouts
  changed : ∀ c, c ∈ report.changed ↔ (c, false) ∈ before ∧ (c, true) ∈ after
  some_changed : report.changed ≠ []
  ran : report.ran = true

section

variable (r : DocumentationRequest) (w : Workspace) (i : Invocation)
  (message : List Checkout → Traced (Watched σ) → String)

theorem generate_of_commitChanges (h : r.commitChanges = true) :
    r.generate git.beside.traced l.watched w i message =
      detectChanges git.beside.traced w (l.work i) >>= fun detected =>
        if detected.2 = [] then do
          Action.note .info "Documentation changed no checkouts"
          return .unchanged true
        else do
          let text := message detected.2 (← get).host
          return ⟨true, detected.2,
            ← Grove.commitChanges git.beside.traced w detected.2 text false⟩ := by
  rw [generate, if_pos h]
  rfl

theorem generate_of_not_commitChanges (h : r.commitChanges = false) :
    r.generate git.beside.traced l.watched w i message =
      l.work i >>= fun _ => pure (.unchanged true) := by
  rw [generate, if_neg (by simp [h])]
  rfl

end

/-- The generator is run once where it is run at all, and changes need grounds. -/
theorem generate_watched (r : DocumentationRequest) {w : Workspace} (hw : w.Lawful)
    {i : Invocation} (hfailure : i.allowFailure = false)
    (message : List Checkout → Traced (Watched σ) → String) (s : Session (Traced (Watched σ))) :
    let result := r.generate git.beside.traced l.watched w i message s
    ∃ events launches, Leaves s (reached result) events launches ∧
      (∀ report, answer result = .ok report → report.ran = true) ∧
      ((∀ event ∈ events, event.isChange = false) ∨
        r.commitChanges = true ∧ ∃ report t before after, result = .ok report t ∧
          Grounds w i s events launches report before after) := by
  intro result
  by_cases hcommit : r.commitChanges = true
  · simp only [result, generate_of_commitChanges git l r w i message hcommit]
    rcases detectChanges_watched git l hw hfailure s with
      ⟨e, t, events, launches, hrun, hleaves, hnone⟩ |
      ⟨changed, t, before, after, hrun, hleaves, hbefore, hafter, hchanged⟩
    · rw [bind_of_error hrun]
      exact ⟨events, launches, hleaves, by simp, .inl hnone⟩
    · rw [bind_of_ok hrun]
      by_cases hsome : changed = []
      · simp only [hsome, if_true]
        refine ⟨_, _, ⟨hleaves.events, hleaves.launches⟩, ?_, .inl ?_⟩
        · rintro report hreport
          obtain rfl := Except.ok.inj hreport
          rfl
        · simp [looked, Event.isChange, or_imp, forall_and]
      · simp only [hsome, if_false]
        obtain ⟨commits, u, events, hcommits, hleaves'⟩ :=
          commitChanges_watched git w changed (message changed t.host) false t
        have hrun' : (do
            let text := message changed (← get).host
            return ⟨true, changed,
              ← Grove.commitChanges git.beside.traced w changed text false⟩ :
            Action (Traced (Watched σ)) DocumentationReport) t = .ok ⟨true, changed, commits⟩ u :=
          (bind_of_ok (get_apply t)).trans (bind_of_ok hcommits)
        rw [hrun']
        refine ⟨_, _, hleaves.trans hleaves', ?_, .inr ⟨hcommit, _, u, before, after, rfl,
          List.prefix_append .., rfl, hbefore, hafter, hchanged, hsome, rfl⟩⟩
        rintro report hreport
        obtain rfl := Except.ok.inj hreport
        rfl
  · rw [Bool.not_eq_true] at hcommit
    simp only [result, generate_of_not_commitChanges git l r w i message hcommit]
    obtain ⟨code, hleaves, -⟩ := work_watched l i s
    cases hwork : l.work i s with
    | error e t =>
      rw [hwork] at hleaves
      rw [bind_of_error hwork]
      exact ⟨_, _, hleaves, by simp, .inl (by simp)⟩
    | ok value t =>
      rw [hwork] at hleaves
      rw [bind_of_ok hwork]
      refine ⟨_, _, hleaves, ?_, .inl (by simp)⟩
      rintro report hreport
      obtain rfl := Except.ok.inj hreport
      rfl

/-- A run is skipped, fails for want of the generator, shows it, or generates. -/
theorem run_apply (git : Git.Client σ) (programs : Programs σ) (r : DocumentationRequest)
    (w : Workspace) (pom : Pom) (folder : Path) (message : List Checkout → σ → String)
    (s : Session σ) :
    ∃ log, r.run git programs w pom folder message s =
      if r.skip then .ok (.unchanged false) { s with log }
      else
        match programs.require r.command s.host with
        | .error e => .error e s
        | .ok program =>
          if r.pretend then .ok (.unchanged false) { s with log }
          else r.generate git programs w (r.invocation program folder pom) message
            { s with log } := by
  rw [run]
  by_cases hskip : r.skip = true
  · simp only [hskip, if_true]
    exact ⟨_, rfl⟩
  · simp only [Bool.eq_false_iff.2 hskip, Bool.false_eq_true, if_false]
    cases hfound : programs.require r.command s.host with
    | error e =>
      refine ⟨s.log, ?_⟩
      rw [bind_of_ok (get_apply s), hfound]
      rfl
    | ok program =>
      by_cases hpretend : r.pretend = true
      · simp only [hpretend, if_true]
        exact ⟨_, (bind_of_ok (get_apply s)).trans (by rw [hfound]; rfl)⟩
      · simp only [Bool.eq_false_iff.2 hpretend, Bool.false_eq_true, if_false]
        exact ⟨_, (bind_of_ok (get_apply s)).trans (by rw [hfound]; rfl)⟩

/-- **When documentation changes repositories.** Whatever the client answers and whatever the
generator does or fails to do: changes of repositories are tried only where commits are asked for,
the run is neither skipped nor pretended, and the generator was found. Then it was started once and
exited with zero, between two looks that asked about every checkout and were answered, and at least
one checkout was clean before it and dirty after it. A run that fails has changed nothing. A run
that reports no generator has started none, has asked the client for nothing, and left the host as
it was. -/
theorem changes_follow_success (git : Git.Client σ) (l : Launcher σ) (r : DocumentationRequest)
    (root : Path) (roots : List Path) (poms : List Pom) (pom : Pom) (folder : Path)
    (message : List Checkout → Traced (Watched σ) → String) (s : Session (Traced (Watched σ))) :
    let w := Workspace.ofFinds root roots poms
    let result := r.run git.beside.traced l.watched w pom folder message s
    ∃ events launches, Leaves s (reached result) events launches ∧
      ((∃ event ∈ events, event.isChange) →
        r.commitChanges = true ∧ r.skip = false ∧ r.pretend = false ∧
        ∃ program, l.find? r.command s.host.host.host = some program ∧
        ∃ report t before after, result = .ok report t ∧
          Grounds w (r.invocation program folder pom) s events launches report before after) ∧
      (∀ e, answer result = .error e → ∀ event ∈ events, event.isChange = false) ∧
      ∀ report, answer result = .ok report → report.ran = false →
        events = [] ∧ launches = [] ∧ (reached result).host = s.host := by
  intro w result
  have hw : w.Lawful := Workspace.lawful_ofFinds root roots poms
  obtain ⟨log, hrun⟩ := run_apply git.beside.traced l.watched r w pom folder message s
  have hstay : ∀ t : Session (Traced (Watched σ)), t.host = s.host → Leaves s t [] [] :=
    fun t ht => ⟨by rw [ht, List.append_nil], by rw [ht, List.append_nil]⟩
  by_cases hskip : r.skip = true
  · rw [if_pos hskip] at hrun
    simp only [result, hrun]
    exact ⟨[], [], hstay _ rfl, by simp, by simp, fun _ _ _ => ⟨rfl, rfl, rfl⟩⟩
  rw [if_neg hskip] at hrun
  cases hfound : l.find? r.command s.host.host.host with
  | none =>
    have hrequire : l.watched.require r.command s.host =
        .error (.bare (.program (.notFound r.command))) := by
      simp only [Programs.require, Launcher.watched, hfound]
    rw [hrequire] at hrun
    simp only [result, hrun]
    exact ⟨[], [], hstay s rfl, by simp, by simp, fun _ _ _ => ⟨rfl, rfl, rfl⟩⟩
  | some program =>
    have hrequire : l.watched.require r.command s.host = .ok program := by
      simp only [Programs.require, Launcher.watched, hfound]
    rw [hrequire] at hrun
    by_cases hpretend : r.pretend = true
    · simp only [if_pos hpretend] at hrun
      simp only [result, hrun]
      exact ⟨[], [], hstay _ rfl, by simp, by simp, fun _ _ _ => ⟨rfl, rfl, rfl⟩⟩
    · simp only [if_neg hpretend] at hrun
      obtain ⟨events, launches, hleaves, hran, hchanges⟩ := generate_watched git l r hw
        (i := r.invocation program folder pom) rfl message { s with log }
      simp only [result, hrun]
      refine ⟨events, launches, ⟨hleaves.events, hleaves.launches⟩, ?_, fun e he => ?_,
        fun report hreport hnot => ?_⟩
      · rintro ⟨event, hevent, hchange⟩
        rcases hchanges with hnone | ⟨hcommit, report, t, before, after, hrun', hgrounds⟩
        · rw [hnone event hevent] at hchange
          simp at hchange
        · exact ⟨hcommit, Bool.eq_false_iff.2 hskip, Bool.eq_false_iff.2 hpretend, program, rfl,
            report, t, before, after, hrun', { hgrounds with }⟩
      · rcases hchanges with hnone | ⟨-, report, t, before, after, hrun', -⟩
        · exact hnone
        · rw [hrun'] at he
          simp at he
      · rw [hran report hreport] at hnot
        simp at hnot

/-- A generator that touches one of two clean checkouts is started once, and leads to changes. -/
theorem changes_follow_success_touched :
    let lib : Path := ⟨["lib"]⟩
    let l : Launcher Recorder :=
      ⟨fun _ _ => some ⟨["lexakai"]⟩, fun _ h => .ok ⟨0, .empty, .empty, h.touch lib⟩⟩
    let r : DocumentationRequest := ⟨"lexakai", [], true, true, none, true, false, false⟩
    let pom : Pom := ⟨⟨["pom.xml"]⟩, ⟨"com.telenav.kivakit", "kivakit", "1.0.0"⟩, "jar"⟩
    let s : Session (Traced (Watched Recorder)) := Session.start ⟨⟨Recorder.empty, []⟩, []⟩
    let w := Workspace.ofFinds ⟨["."]⟩ [lib] []
    let result := r.run Recorder.client.beside.traced l.watched w pom lib (fun _ _ => "m") s
    ∃ events launches, Leaves s (reached result) events launches ∧
      (∃ event ∈ events, event.isChange) ∧ launches.length = 1 := by
  intro lib l r pom s w result
  obtain ⟨events, launches, hleaves, hchanges, -, -⟩ := changes_follow_success Recorder.client l r
    ⟨["."]⟩ [lib] [] pom lib (fun _ _ => "m") s
  have hany : (reached result).host.events.any Event.isChange = true := by decide +kernel
  rw [hleaves.events] at hany
  have hsome : ∃ event ∈ events, event.isChange := List.any_eq_true.1 hany
  obtain ⟨-, -, -, _, -, _, _, _, _, -, hgrounds⟩ := hchanges hsome
  exact ⟨events, launches, hleaves, hsome, by rw [hgrounds.start]; rfl⟩

end DocumentationRequest

end Grove
