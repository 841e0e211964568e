import Mathlib.Data.List.Forall2
import Grove.Proofs.StepsKeep
import Grove.Proofs.MergeSteps
import Grove.Proofs.Trace

/-!
# What a merge leaves in a trace

Through a client that is written down, a merge can be told from its trace. Planning only asks. Every
plan that is carried out adds a part of its own, in which the changes are at the plan's checkout and
come in the order of its steps, up to where a step fails. Which branch is pushed for the first time,
and whether a branch has to be left before it is deleted, is for the client to answer; so the
changes that steps come to are a relation (`MergeStep.Issue`) and not one list.

## What is proved

* `tries_perform`, `tries_runSteps` — what an operation, and what steps on a checkout, try.
* `exists_planning` — planning takes the checkouts one after another (`MergeRequest.Planning`).
* `run_carries` — the trace of a run: what was asked, then one part for each plan
  (`MergePlan.Carried`).
-/

namespace Grove

open Git

variable {σ α β : Type}

/-! ### Changes among events -/

namespace Git.Event

/-- The change that an event is, if it is one. -/
def mutation? : Event → Option Mutation
  | .change _ m _ => some m
  | _ => none

/-- The changes among some events, in order. -/
def mutations (events : List Event) : List Mutation :=
  events.filterMap mutation?

@[simp] theorem mutations_append (events events' : List Event) :
    mutations (events ++ events') = mutations events ++ mutations events' :=
  List.filterMap_append

theorem mem_mutations {events : List Event} {m : Mutation} :
    m ∈ mutations events ↔ ∃ root answer, .change root m answer ∈ events := by
  simp only [mutations, List.mem_filterMap]
  constructor
  · rintro ⟨e, he, hm⟩
    cases e <;> simp only [mutation?, reduceCtorEq, Option.some.injEq] at hm
    subst hm
    exact ⟨_, _, he⟩
  · rintro ⟨root, answer, he⟩
    exact ⟨_, he, rfl⟩

/-- All changes among some events are at one root. -/
def ChangesOnly (root : Path) (events : List Event) : Prop :=
  ∀ e ∈ events, ∀ other, e.Changes other → root.alike other

theorem ChangesOnly.append {root : Path} {events events' : List Event}
    (h : ChangesOnly root events) (h' : ChangesOnly root events') :
    ChangesOnly root (events ++ events') := fun e he =>
  (List.mem_append.1 he).elim (h e) (h' e)

/-- Events without a change change nothing anywhere. -/
theorem not_changes_of_mutations_eq_nil {events : List Event} (h : mutations events = [])
    {e : Event} (he : e ∈ events) (root : Path) : ¬e.Changes root := by
  rintro ⟨other, m, answer, rfl, -⟩
  simpa [h] using mem_mutations.2 ⟨other, answer, he⟩

end Git.Event

open Event

/-! ### What steps come to -/

/-- The changes that an operation comes to where none of them fails. A branch that is checked out is
left before it is deleted; what is pushed for the first time is the branch checked out. -/
inductive Checkout.Operation.Issues : Checkout.Operation → List Mutation → Prop
  /-- A change is itself. -/
  | change (m : Mutation) : Issues (.change m) [m]
  /-- The branch to delete is checked out. -/
  | leaving (branch fallback : String) (force : Bool) :
    Issues (.deleteLeaving branch fallback force) [.switchTo fallback, .delete branch force]
  /-- The branch to delete is not checked out. -/
  | deleting (branch fallback : String) (force : Bool) :
    Issues (.deleteLeaving branch fallback force) [.delete branch force]
  /-- A branch is pushed for the first time. -/
  | pushing (branch : String) : Issues .pushCreating [.pushNew Branch.defaultRemote branch]

theorem Checkout.Operation.exists_issues (op : Checkout.Operation) : ∃ ms, op.Issues ms := by
  cases op with
  | change m => exact ⟨_, .change m⟩
  | deleteLeaving branch fallback force => exact ⟨_, .deleting branch fallback force⟩
  | pushCreating => exact ⟨_, .pushing ""⟩

namespace MergeStep

/-- The changes that steps come to where none of them fails. -/
inductive Issue : List MergeStep → List Mutation → Prop
  /-- There is no step. -/
  | nil : Issue [] []
  /-- A message changes nothing. -/
  | announce {message rest ms} (later : Issue rest ms) : Issue (.announce message :: rest) ms
  /-- An operation comes first. -/
  | perform {op rest ms ms'} (first : op.Issues ms) (later : Issue rest ms') :
    Issue (.perform op :: rest) (ms ++ ms')

theorem exists_issue (steps : List MergeStep) : ∃ ms, Issue steps ms := by
  induction steps with
  | nil => exact ⟨[], .nil⟩
  | cons step rest ih =>
    obtain ⟨ms, hrest⟩ := ih
    cases step with
    | announce message => exact ⟨ms, .announce hrest⟩
    | perform op =>
      obtain ⟨ms', hop⟩ := op.exists_issues
      exact ⟨ms' ++ ms, .perform hop hrest⟩

end MergeStep

/-! ### What one checkout tries -/

/-- From a session on, an action tries changes at a root only: a first part of a list, and all of it
where the action succeeds. -/
def Action.Tries (root : Path) (x : Action (Traced σ) α) (s : Session (Traced σ))
    (ms : List Mutation) : Prop :=
  ∃ events, (reached (x s)).host.events = s.host.events ++ events ∧ ChangesOnly root events ∧
    mutations events <+: ms ∧ ∀ a, answer (x s) = .ok a → mutations events = ms

namespace Action.Tries

variable {root : Path} {s : Session (Traced σ)} {ms ms' : List Mutation}

/-- An action that leaves the host as it is. -/
theorem silent {x : Action (Traced σ) α} (hx : (reached (x s)).host = s.host) :
    Tries root x s [] :=
  ⟨[], by rw [hx, List.append_nil], by simp [ChangesOnly], List.prefix_rfl, fun _ _ => rfl⟩

/-- What follows is tried where the first action succeeds. -/
theorem bind {x : Action (Traced σ) α} {f : α → Action (Traced σ) β} (hx : Tries root x s ms)
    (hf : ∀ a t, x s = .ok a t → Tries root (f a) t ms') : Tries root (x >>= f) s (ms ++ ms') := by
  obtain ⟨events, hevents, hroot, hpre, hall⟩ := hx
  cases hrun : x s with
  | error e t =>
    rw [hrun, reached_error] at hevents
    rw [Tries, bind_of_error hrun]
    exact ⟨events, hevents, hroot, hpre.trans (List.prefix_append _ _), by simp⟩
  | ok a t =>
    obtain ⟨events', hevents', hroot', hpre', hall'⟩ := hf a t hrun
    rw [hrun, reached_ok] at hevents
    rw [hrun] at hall
    rw [Tries, bind_of_ok hrun]
    refine ⟨events ++ events', ?_, hroot.append hroot', ?_, fun b hb => ?_⟩
    · rw [hevents', hevents, List.append_assoc]
    · rw [mutations_append, hall a rfl]
      exact (List.prefix_append_right_inj _).2 hpre'
    · rw [mutations_append, hall a rfl, hall' b hb]

variable (git : Git.Client σ) (c : Checkout)

/-- A question that is written down changes nothing. -/
theorem onHost {event : Except Failure α → Event} {x : EStateM Failure σ α}
    (hevent : ∀ result, (event result).mutation? = none) :
    Tries root (Action.onHost (Traced.record event x)) s [] := by
  have hnone : mutations [event (answer (x s.host.host))] = [] := by
    simp [mutations, hevent]
  refine ⟨_, ?_, fun e he other h => absurd h (not_changes_of_mutations_eq_nil hnone he other),
    by simp [hnone], fun _ _ => hnone⟩
  rw [Action.reached_onHost, Traced.reached_record]

theorem currentBranch : Tries c.root (Action.onHost (git.traced.currentBranch c.root)) s [] :=
  onHost fun _ => rfl

theorem branches : Tries c.root (Action.onHost (git.traced.branches c.root)) s [] := by
  rw [Client.branches, Action.onHost_bind]
  refine (currentBranch git c).bind fun current? t _ => ?_
  rw [Action.onHost_bind]
  have hlist : Tries c.root (Action.onHost (git.traced.listBranches c.root)) t [] :=
    onHost fun _ => rfl
  exact hlist.bind fun _ _ _ => silent rfl

/-- A snapshot of the branches changes nothing, whether it is remembered or asked for. -/
theorem snapshot : Tries c.root (c.snapshot git.traced) s [] := by
  obtain ⟨events, hevents, hroot, hpre, -⟩ := branches (s := s) git c
  have hnone : mutations events = [] := List.prefix_nil.1 hpre
  rw [Action.reached_onHost] at hevents
  rw [Tries, Checkout.snapshot_apply]
  cases Ordered.get? Path.order c.root s.snapshots with
  | some seen => exact silent (x := pure seen) rfl
  | none =>
    cases hask : git.traced.branches c.root s.host <;> rw [hask] at hevents <;>
      exact ⟨events, hevents, hroot, hpre, fun _ _ => hnone⟩

/-- A change is tried whether or not it succeeds. -/
theorem change (m : Mutation) : Tries c.root (c.change git.traced m) s [m] := by
  refine ⟨[.change c.root m (answer (git.mutate c.root m s.host.host))], ?_, ?_,
    List.prefix_rfl, fun _ _ => rfl⟩
  · rw [(c.change_apply git.traced m s).2]
    exact congrArg Traced.events (Traced.reached_record _ _ _)
  · rintro e he other ⟨root, m', answer, rfl, halike⟩
    simp only [List.mem_singleton, Event.change.injEq] at he
    rwa [← he.1]

end Action.Tries

section

variable (git : Git.Client σ) (c : Checkout)

/-- An operation tries a first part of what it comes to. -/
theorem tries_perform (op : Checkout.Operation) (s : Session (Traced σ)) :
    ∃ ms, op.Issues ms ∧ (c.perform git.traced op).Tries c.root s ms := by
  -- the answer to the question for the branch decides what the operation comes to
  have hknown : ∀ {current? t}, Action.onHost (git.traced.currentBranch c.root) s = .ok current? t →
      answer (git.traced.currentBranch c.root s.host) = .ok current? := by
    intro current? t hrun
    rw [← Action.answer_onHost, hrun, answer_ok]
  cases op with
  | change m => exact ⟨[m], .change m, .change git c m⟩
  | deleteLeaving branch fallback force =>
    by_cases hcurrent : answer (git.traced.currentBranch c.root s.host) = .ok (some branch)
    · refine ⟨_, .leaving branch fallback force,
        (Action.Tries.currentBranch git c).bind fun current? t hrun => ?_⟩
      rw [if_pos (Except.ok.inj ((hknown hrun).symm.trans hcurrent))]
      exact (Action.Tries.change git c (.switchTo fallback)).bind
        fun _ _ _ => .change git c (.delete branch force)
    · refine ⟨_, .deleting branch fallback force,
        (Action.Tries.currentBranch git c).bind fun current? t hrun => ?_⟩
      rw [if_neg fun hsame : current? = some branch => hcurrent (hsame ▸ hknown hrun)]
      exact .change git c (.delete branch force)
  | pushCreating =>
    by_cases hcurrent : ∃ branch, answer (git.traced.currentBranch c.root s.host) = .ok (some branch)
    · obtain ⟨branch, hcurrent⟩ := hcurrent
      refine ⟨_, .pushing branch, (Action.Tries.currentBranch git c).bind fun current? t hrun => ?_⟩
      obtain rfl := Except.ok.inj ((hknown hrun).symm.trans hcurrent)
      exact .change git c (.pushNew Branch.defaultRemote branch)
    · -- without a branch checked out nothing is pushed, whichever it would have been
      refine ⟨_, .pushing "", (Action.Tries.currentBranch git c).bind fun current? t hrun => ?_⟩
      cases current? with
      | none => exact ⟨[], by simp, by simp [ChangesOnly], List.nil_prefix, by simp⟩
      | some branch => exact absurd ⟨branch, hknown hrun⟩ hcurrent

/-- Steps on a checkout try a first part of what they come to. -/
theorem tries_runSteps (steps : List MergeStep) (s : Session (Traced σ)) :
    ∃ ms, MergeStep.Issue steps ms ∧
      (MergeRequest.runSteps git.traced false c steps).Tries c.root s ms := by
  induction steps generalizing s with
  | nil => exact ⟨[], .nil, .silent rfl⟩
  | cons step rest ih =>
    cases step with
    | announce message =>
      obtain ⟨ms, hissue, htries⟩ := ih { s with log := s.log ++ [⟨.info, message⟩] }
      refine ⟨ms, .announce hissue, ?_⟩
      rw [Action.Tries, runSteps_announce]
      exact htries
    | perform op =>
      obtain ⟨ms, hop, htries⟩ := tries_perform git c op s
      have hlater : ∃ ms', MergeStep.Issue rest ms' ∧
          ∀ u t, c.perform git.traced op s = .ok u t →
            (MergeRequest.runSteps git.traced false c rest).Tries c.root t ms' := by
        cases hrun : c.perform git.traced op s with
        | error e t =>
          obtain ⟨ms', hissue⟩ := MergeStep.exists_issue rest
          exact ⟨ms', hissue, fun u t h => by simp at h⟩
        | ok u t =>
          obtain ⟨ms', hissue, htries'⟩ := ih t
          refine ⟨ms', hissue, fun u' t' h => ?_⟩
          rwa [← (EStateM.Result.ok.inj h).2]
      obtain ⟨ms', hissue, htries'⟩ := hlater
      refine ⟨ms ++ ms', .perform hop hissue, ?_⟩
      rw [runSteps_perform]
      exact htries.bind htries'

end

/-! ### Runs -/

/-- The steps of a plan that are carried out. -/
def MergePlan.due (p : MergePlan) (flags : MergeFlags) : List MergeStep :=
  if flags.pretend then [] else p.steps flags

/-- What carrying a plan out adds to a trace: changes of its own checkout, a first part of what its
steps come to, and all of it if the checkout is not among those that failed. -/
structure MergePlan.Carried (flags : MergeFlags) (failed : List (Checkout × String))
    (p : MergePlan) (events : List Event) : Prop where
  own : ChangesOnly p.checkout.root events
  issue : ∃ ms, MergeStep.Issue (p.due flags) ms ∧ mutations events <+: ms ∧
    (p.checkout ∉ failed.map (·.1) → mutations events = ms)

namespace MergeRequest

variable (git : Git.Client σ) (r : MergeRequest)

/-- Planning, from session to session: each checkout gets a plan from what is seen of it, or it is
passed over with the reason why it gets none. -/
inductive Planning : Session σ → List Checkout → List MergePlan →
    List (Checkout × MergeObstacle) → Prop
  /-- There is no checkout. -/
  | nil {s} : Planning s [] [] []
  /-- The first checkout gets a plan. -/
  | planned {s c cs p plans skipped} (plan : r.planFrom c (c.seen git s) = .ok p)
    (rest : Planning (reached (c.snapshot git s)) cs plans skipped) :
    Planning s (c :: cs) (p :: plans) skipped
  /-- The first checkout is passed over. -/
  | skipped {s c cs obstacle plans skipped}
    (reason : r.planFrom c (c.seen git s) = .error obstacle)
    (rest : Planning (reached (c.snapshot git s)) cs plans skipped) :
    Planning s (c :: cs) plans ((c, obstacle) :: skipped)

/-- Planning takes the checkouts one after another and never fails as a whole. -/
theorem exists_planning (cs : List Checkout) (s : Session σ) :
    ∃ plans skipped t, r.planAll git cs s = .ok (plans, skipped) t ∧
      Planning git r s cs plans skipped := by
  induction cs generalizing s with
  | nil => exact ⟨[], [], s, rfl, .nil⟩
  | cons c cs ih =>
    obtain ⟨plans, skipped, t, hrest, hplanning⟩ := ih (reached (c.snapshot git s))
    rw [planAll, bind_of_ok (r.planOne_apply git c s), bind_of_ok hrest]
    cases hplan : r.planFrom c (c.seen git s) with
    | ok p => exact ⟨p :: plans, skipped, t, rfl, .planned hplan hplanning⟩
    | error obstacle => exact ⟨plans, (c, obstacle) :: skipped, t, rfl, .skipped hplan hplanning⟩

/-- Planning only asks. -/
theorem planAll_asks (cs : List Checkout) (s : Session (Traced σ)) :
    ∃ asked, (reached (r.planAll git.traced cs s)).host.events = s.host.events ++ asked ∧
      mutations asked = [] := by
  have hsnapshot : ∀ c ∈ cs, Action.Keeps (fun t : Session (Traced σ) => ∃ asked,
      t.host.events = s.host.events ++ asked ∧ mutations asked = []) (c.snapshot git.traced) := by
    rintro c - t ⟨asked, hasked, hnone⟩
    obtain ⟨events, hevents, -, hpre, -⟩ := Action.Tries.snapshot (s := t) git c
    refine ⟨asked ++ events, by rw [hevents, hasked, List.append_assoc], ?_⟩
    rw [mutations_append, hnone, List.prefix_nil.1 hpre, List.append_nil]
  exact keeps_planAll hsnapshot s ⟨[], by simp, rfl⟩

/-- A plan that is carried out tries a first part of what its steps come to. -/
theorem tries_execute (p : MergePlan) (s : Session (Traced σ)) :
    ∃ ms, MergeStep.Issue (p.due r.flags) ms ∧
      (r.execute git.traced p).Tries p.checkout.root s ms := by
  rw [execute, MergePlan.due]
  cases r.flags.pretend with
  | false => exact tries_runSteps git p.checkout (p.steps r.flags) s
  | true =>
    refine ⟨[], .nil, .silent ?_⟩
    rw [runSteps_pretending]
    rfl

/-- Plans that are carried out add one part each. -/
theorem executeAll_carries (ps : List MergePlan) (s : Session (Traced σ)) :
    ∃ merged failed t parts, r.executeAll git.traced ps s = .ok (merged, failed) t ∧
      t.host.events = s.host.events ++ parts.flatten ∧
      List.Forall₂ (MergePlan.Carried r.flags failed) ps parts := by
  induction ps generalizing s with
  | nil => exact ⟨[], [], s, [], rfl, by simp, .nil⟩
  | cons p ps ih =>
    obtain ⟨ms, hissue, events, hevents, hown, hpre, hall⟩ := tries_execute git r p s
    rw [executeAll, bind_of_ok (Action.attempt_apply _ s)]
    cases hanswer : answer (r.execute git.traced p s) with
    | ok u =>
      obtain ⟨merged, failed, t, parts, hrest, hparts, hcarried⟩ :=
        ih (reached (r.execute git.traced p s))
      refine ⟨p.checkout :: merged, failed, t, events :: parts, bind_of_ok hrest, ?_,
        .cons ⟨hown, ms, hissue, hpre, fun _ => hall u hanswer⟩ hcarried⟩
      rw [hparts, hevents, List.flatten_cons, List.append_assoc]
    | error e =>
      obtain ⟨merged, failed, t, parts, hrest, hparts, hcarried⟩ :=
        ih { reached (r.execute git.traced p s) with
          log := (reached (r.execute git.traced p s)).log ++ [⟨.error, "merge failed"⟩] }
      refine ⟨merged, (p.checkout, e.message) :: failed, t, events :: parts,
        (bind_of_ok (Action.note_apply _ _ _)).trans (bind_of_ok hrest), ?_,
        .cons ⟨hown, ms, hissue, hpre, fun h => absurd List.mem_cons_self h⟩
          (hcarried.imp fun p part h => ?_)⟩
      · rw [hparts, List.flatten_cons, ← List.append_assoc]
        exact congrArg (· ++ parts.flatten) hevents
      · obtain ⟨hown', ms', hissue', hpre', hall'⟩ := h
        exact ⟨hown', ms', hissue', hpre', fun h => hall' fun h' => h (List.mem_cons_of_mem _ h')⟩

/-- **The trace of a merge**: what was asked for while the checkouts were planned, then one part for
each plan. -/
theorem run_carries (cs : List Checkout) (s : Session (Traced σ)) :
    ∃ plans report t asked parts, r.run git.traced cs s = .ok report t ∧
      Planning git.traced r s cs plans report.skipped ∧
      t.host.events = s.host.events ++ asked ++ parts.flatten ∧ mutations asked = [] ∧
      List.Forall₂ (MergePlan.Carried r.flags report.failed) plans parts := by
  obtain ⟨plans, skipped, u, hplan, hplanning⟩ := exists_planning git.traced r cs s
  obtain ⟨asked, hasked, hnone⟩ := planAll_asks git r cs s
  rw [hplan, reached_ok] at hasked
  obtain ⟨merged, failed, t, parts, hexecute, hparts, hcarried⟩ :=
    executeAll_carries git r plans { u with log := u.log ++ [heading plans] }
  refine ⟨plans, _, _, asked, parts, run_of_planAll hplan hexecute, hplanning, ?_, hnone,
    hcarried⟩
  rw [settled_host, hparts, hasked]

end MergeRequest

end Grove
