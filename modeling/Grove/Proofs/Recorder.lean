import Grove.Git.Recorder
import Grove.Proofs.Action

/-!
# What an action does to recorded repositories

An operation on a checkout concerns one record. `Repo.tryAll` says, on that record alone, what comes
of a list of changes: they are tried one after another until one fails, each is written down before
it is tried, and the record shows the effect of those that succeeded. `Carries` ties an action on a
session to such a trial: same answer, the record at the root replaced, its calls appended, and every
other record left alone.

## What is proved

* `carries_change`, `carries_perform` — the operations of a checkout carry out a trial that depends
  on the record of their own repository only.
* `tried_tryAll` — the calls of a trial are the changes up to the first that fails, and the record
  is the effect of those before it.
-/

namespace Grove.Git

namespace Mutation

/-- The branch checked out after a change that succeeded. -/
def currentAfter (current? : Option String) : Mutation → Option String
  | switchTo branch => some branch
  | create branch _ => some branch
  | _ => current?

end Mutation

/-! ### The record at a root -/

namespace Recorder

theorem repo_congr (rec : Recorder) {root other : Path} (h : root.alike other) :
    rec.repo root = rec.repo other := by
  rw [repo, repo, Ordered.get?_congr _ (Path.alike_iff_order.1 h)]

/-- A record that is put down is found at its root, and the others stay. -/
theorem repo_put (rec : Recorder) (root other : Path) (r : Repo) :
    (rec.put root r).repo other = if other.alike root then r else rec.repo other := by
  split
  · next h =>
    rw [repo_congr _ h, repo, put, Ordered.get?_put_self]
    rfl
  · next h =>
    rw [Path.alike_iff_order] at h
    rw [repo, put, Ordered.get?_put_of_ne _ h]
    rfl

/-- The calls that reached a repository, oldest first. -/
def callsAt (rec : Recorder) (root : Path) : List String :=
  (rec.calls.filter fun call => call.1.alike root).map (·.2)

end Recorder

/-! ### Trials in one repository -/

/-- What came of trying changes in one repository. -/
structure Trial where
  /-- The repository afterwards. -/
  repo : Repo
  /-- The changes tried, in order. -/
  tried : List Mutation
  /-- Why the last of them failed, if it did. -/
  failure? : Option Failure
  deriving DecidableEq

namespace Trial

/-- Nothing is tried. -/
def idle (repo : Repo) : Trial :=
  ⟨repo, [], none⟩

/-- Success, or the failure of the last change. -/
def answer (t : Trial) : Except Failure Unit :=
  match t.failure? with
  | none => .ok ()
  | some e => .error e

/-- A trial and, unless it fails, another one where it ends. -/
def andThen (t : Trial) (k : Repo → Trial) : Trial :=
  match t.failure? with
  | some _ => t
  | none => { k t.repo with tried := t.tried ++ (k t.repo).tried }

@[simp] theorem andThen_idle (t : Trial) : t.andThen idle = t := by
  obtain ⟨repo, tried, failure?⟩ := t
  cases failure? <;> simp [andThen, idle]

theorem andThen_assoc (t : Trial) (k k' : Repo → Trial) :
    (t.andThen k).andThen k' = t.andThen fun repo => (k repo).andThen k' := by
  obtain ⟨repo, tried, failure?⟩ := t
  cases failure? with
  | some e => rfl
  | none =>
    simp only [andThen]
    cases hk : (k repo).failure? <;> simp [hk]

/-- What follows a trial matters only where the trial succeeds. -/
theorem andThen_congr {t : Trial} {k k' : Repo → Trial}
    (h : t.failure? = none → k t.repo = k' t.repo) : t.andThen k = t.andThen k' := by
  simp only [andThen]
  split
  · rfl
  · next hnone => rw [h hnone]

end Trial

namespace Repo

/-- The repository after a change, or why it failed: the change was made to fail, or git refuses
it. -/
def attempt (repo : Repo) (m : Mutation) : Except Failure Repo :=
  if m.kind ∈ repo.failing then .error (Recorder.simulated m.call)
  else
    match repo.apply m with
    | .ok next => .ok next
    | .error reason => .error (Failure.git (.commandFailed m.call reason))

/-- Tries one change. -/
def tryOne (repo : Repo) (m : Mutation) : Trial :=
  match repo.attempt m with
  | .ok next => ⟨next, [m], none⟩
  | .error e => ⟨repo, [m], some e⟩

/-- Tries changes one after another until one fails. -/
def tryAll (repo : Repo) : List Mutation → Trial
  | [] => .idle repo
  | m :: ms => (repo.tryOne m).andThen fun next => next.tryAll ms

theorem tryAll_singleton (repo : Repo) (m : Mutation) : repo.tryAll [m] = repo.tryOne m :=
  Trial.andThen_idle _

/-- The branch checked out, unless the question was made to fail. -/
def askCurrent (repo : Repo) : Except Failure (Option String) :=
  if .currentBranch ∈ repo.failing then .error (Recorder.simulated Kind.currentBranch.name)
  else .ok repo.current?

/-- What comes of asking for the branch checked out and going on with the answer. -/
def knowing (repo : Repo) (k : Option String → Trial) : Trial :=
  match repo.askCurrent with
  | .ok current? => k current?
  | .error e => ⟨repo, [], some e⟩

/-- What an operation of a checkout comes to in its repository. -/
def perform (repo : Repo) : Checkout.Operation → Trial
  | .change m => repo.tryOne m
  | .deleteLeaving branch fallback force =>
    repo.knowing fun current? =>
      if current? = some branch then repo.tryAll [.switchTo fallback, .delete branch force]
      else repo.tryOne (.delete branch force)
  | .pushCreating =>
    repo.knowing fun
      | none => ⟨repo, [], some (Failure.git (.branchNotFound "HEAD"))⟩
      | some branch => repo.tryOne (.pushNew Branch.defaultRemote branch)

/-- A trial of changes shows the effect of those before the point where it stops, and it stops at
their end or at the first that fails. That change is written down as the last one tried, unless its
operation asks for the branch checked out and the question was made to fail. -/
def Tried (repo : Repo) (ms : List Mutation) (t : Trial) : Prop :=
  ∃ done rest, ms = done ++ rest ∧ done.foldlM attempt repo = .ok t.repo ∧
    ((rest = [] ∧ t.failure? = none ∧ t.tried = done) ∨
      ∃ m later e, rest = m :: later ∧ t.failure? = some e ∧
        ((t.repo.attempt m = .error e ∧ t.tried = done ++ [m]) ∨
          (.currentBranch ∈ t.repo.failing ∧ t.tried = done)))

theorem apply_of_attempt {repo next : Repo} {m : Mutation} (h : repo.attempt m = .ok next) :
    m.kind ∉ repo.failing ∧ repo.apply m = .ok next := by
  simp only [attempt] at h
  split at h
  · simp at h
  · next hkind =>
    split at h
    · next r hr =>
      obtain rfl := by simpa using h
      exact ⟨hkind, hr⟩
    · simp at h

/-- What no change touches, and the branch that is checked out after it. -/
theorem apply_frame {repo next : Repo} {m : Mutation} (h : repo.apply m = .ok next) :
    next.failing = repo.failing ∧ next.others = repo.others ∧
      next.current? = m.currentAfter repo.current? := by
  cases m with
  | switchTo branch =>
    simp only [apply] at h
    split at h
    · obtain rfl := by simpa using h
      exact ⟨rfl, rfl, rfl⟩
    · simp at h
  | create branch start? =>
    simp only [apply] at h
    split at h
    · simp at h
    · obtain rfl := by simpa using h
      exact ⟨rfl, rfl, rfl⟩
  | tag name force =>
    simp only [apply] at h
    split at h
    · simp at h
    · obtain rfl := by simpa using h
      exact ⟨rfl, rfl, rfl⟩
  | delete branch force =>
    simp only [apply] at h
    split at h
    · simp at h
    · obtain rfl := by simpa using h
      exact ⟨rfl, rfl, rfl⟩
  | push =>
    simp only [apply] at h
    split at h <;> obtain rfl := by simpa using h
    · exact ⟨rfl, rfl, rfl⟩
    · exact ⟨rfl, rfl, rfl⟩
  | merge _ | pushNew _ _ | addAll | commit _ =>
    simp only [apply, Except.ok.injEq] at h
    subst h
    exact ⟨rfl, rfl, rfl⟩

theorem tryAll_append (repo : Repo) (ms ms' : List Mutation) :
    repo.tryAll (ms ++ ms') = (repo.tryAll ms).andThen fun next => next.tryAll ms' := by
  induction ms generalizing repo with
  | nil => rfl
  | cons m ms ih =>
    simp only [List.cons_append, tryAll, Trial.andThen_assoc]
    exact Trial.andThen_congr fun _ => ih _

theorem attempt_of_tryOne {repo : Repo} {m : Mutation} (h : (repo.tryOne m).failure? = none) :
    repo.attempt m = .ok (repo.tryOne m).repo := by
  simp only [tryOne] at h ⊢
  split at h
  · next hm => rw [hm]
  · simp at h

/-- After changes that all succeed, the same kinds fail as before and the last branch checked out is
the current one. -/
theorem tryAll_frame {repo : Repo} {ms : List Mutation} (h : (repo.tryAll ms).failure? = none) :
    (repo.tryAll ms).repo.failing = repo.failing ∧
      (repo.tryAll ms).repo.current? = ms.foldl Mutation.currentAfter repo.current? := by
  induction ms generalizing repo with
  | nil => exact ⟨rfl, rfl⟩
  | cons m ms ih =>
    simp only [tryAll, Trial.andThen] at h ⊢
    cases hone : (repo.tryOne m).failure? with
    | some e => simp [hone] at h
    | none =>
      simp only [hone] at h ⊢
      obtain ⟨hfailing, hcurrent⟩ := ih h
      obtain ⟨hfailing', -, hcurrent'⟩ := apply_frame (apply_of_attempt (attempt_of_tryOne hone)).2
      exact ⟨hfailing.trans hfailing', by rw [hcurrent, hcurrent', List.foldl_cons]⟩

theorem Tried.cons {repo next : Repo} {m : Mutation} {ms : List Mutation} {k : Repo → Trial}
    (hm : repo.attempt m = .ok next) (h : next.Tried ms (k next)) :
    repo.Tried (m :: ms) ((repo.tryOne m).andThen k) := by
  have htry : (repo.tryOne m).andThen k = { k next with tried := m :: (k next).tried } := by
    simp [tryOne, hm, Trial.andThen]
  obtain ⟨done, rest, rfl, hdone, hend⟩ := h
  rw [htry]
  refine ⟨m :: done, rest, rfl, ?_, ?_⟩
  · rw [List.foldlM_cons, hm]
    exact hdone
  · rcases hend with ⟨hrest, hnone, htried⟩ | ⟨m', later, e, hrest, hsome, hstop⟩
    · exact .inl ⟨hrest, hnone, congrArg (m :: ·) htried⟩
    · refine .inr ⟨m', later, e, hrest, hsome, ?_⟩
      exact hstop.imp (fun h => ⟨h.1, congrArg (m :: ·) h.2⟩) fun h => ⟨h.1, congrArg (m :: ·) h.2⟩

theorem Tried.refused {repo : Repo} {m : Mutation} {ms : List Mutation} {k : Repo → Trial}
    {e : Failure} (hm : repo.attempt m = .error e) :
    repo.Tried (m :: ms) ((repo.tryOne m).andThen k) := by
  have htry : (repo.tryOne m).andThen k = ⟨repo, [m], some e⟩ := by
    simp [tryOne, hm, Trial.andThen]
  rw [htry]
  exact ⟨[], m :: ms, rfl, rfl, .inr ⟨m, ms, e, rfl, rfl, .inl ⟨hm, rfl⟩⟩⟩

theorem tried_tryAll (repo : Repo) (ms : List Mutation) : repo.Tried ms (repo.tryAll ms) := by
  induction ms generalizing repo with
  | nil => exact ⟨[], [], rfl, rfl, .inl ⟨rfl, rfl, rfl⟩⟩
  | cons m ms ih =>
    cases hm : repo.attempt m with
    | error e => exact .refused hm
    | ok next => exact .cons hm (ih next)

/-- Where no change fails, all are tried. -/
theorem tryAll_of_foldlM {repo final : Repo} {ms : List Mutation}
    (h : ms.foldlM attempt repo = .ok final) : repo.tryAll ms = ⟨final, ms, none⟩ := by
  induction ms generalizing repo with
  | nil =>
    obtain rfl : repo = final := by simpa [pure, Except.pure] using h
    rfl
  | cons m ms ih =>
    rw [List.foldlM_cons] at h
    cases hm : repo.attempt m with
    | error e =>
      rw [hm] at h
      exact absurd h (by simp [bind, Except.bind])
    | ok next =>
      rw [hm] at h
      simp [tryAll, tryOne, hm, Trial.andThen, ih h]

end Repo

/-! ### Actions that carry out a trial -/

/-- From `s` to `s'` a trial took place in the repository at `root`: its record is replaced, its
calls are written down, and all other records and the branch snapshots stay. -/
structure Carried (root : Path) (t : Trial) (s s' : Session Recorder) : Prop where
  repo : ∀ other, s'.host.repo other = if other.alike root then t.repo else s.host.repo other
  calls : s'.host.calls = s.host.calls ++ t.tried.map fun m => (root, m.call)
  queries : s'.host.dirtyQueries = s.host.dirtyQueries
  snapshots : s'.snapshots = s.snapshots

/-- An action answers as a trial at `root` does and carries it out. -/
def Carries (root : Path) (x : Action Recorder Unit) (s : Session Recorder) (t : Trial) : Prop :=
  Grove.answer (x s) = t.answer ∧ Carried root t s (reached (x s))

namespace Carried

variable {root : Path} {s s' s'' : Session Recorder} {t : Trial}

/-- Nothing was tried and nothing changed. -/
theorem stay (hrepo : t.repo = s.host.repo root) (htried : t.tried = []) (hs : s' = s) :
    Carried root t s s' := by
  subst hs
  refine ⟨fun other => ?_, by simp [htried], rfl, rfl⟩
  split
  · next ho => rw [hrepo, Recorder.repo_congr _ ho]
  · rfl

theorem repo_root (h : Carried root t s s') : s'.host.repo root = t.repo := by
  rw [h.repo, if_pos (Path.alike_self root)]

theorem repo_of_not_alike (h : Carried root t s s') {other : Path} (ho : ¬other.alike root) :
    s'.host.repo other = s.host.repo other := by
  rw [h.repo, if_neg ho]

/-- One trial after another in the same repository. -/
theorem trans {k : Repo → Trial} (h : Carried root t s s') (hnone : t.failure? = none)
    (h' : Carried root (k t.repo) s' s'') : Carried root (t.andThen k) s s'' := by
  have ht : t.andThen k = { k t.repo with tried := t.tried ++ (k t.repo).tried } := by
    rw [Trial.andThen, hnone]
  rw [ht]
  refine ⟨fun other => ?_, ?_, ?_, ?_⟩
  · rw [h'.repo]
    split
    · rfl
    · next ho => exact h.repo_of_not_alike ho
  · simp [h'.calls, h.calls]
  · exact h'.queries.trans h.queries
  · exact h'.snapshots.trans h.snapshots

end Carried

namespace Carries

variable {root : Path} {s : Session Recorder} {t : Trial} {x : Action Recorder Unit}

theorem pure : Carries root (Pure.pure ()) s (.idle (s.host.repo root)) :=
  ⟨rfl, .stay rfl rfl rfl⟩

/-- Two actions in a row carry out two trials in a row. -/
theorem bind {f : Unit → Action Recorder Unit} {k : Repo → Trial} (h : Carries root x s t)
    (hf : ∀ s', t.failure? = none → Carried root t s s' → Carries root (f ()) s' (k t.repo)) :
    Carries root (x >>= f) s (t.andThen k) := by
  obtain ⟨hanswer, hcarried⟩ := h
  cases hfail : t.failure? with
  | none =>
    rw [Trial.answer, hfail] at hanswer
    obtain ⟨hanswer', hcarried'⟩ := hf _ hfail hcarried
    rw [Carries, bind_of_ok (eq_ok_of_answer hanswer)]
    refine ⟨?_, hcarried.trans hfail hcarried'⟩
    rw [hanswer', Trial.answer, Trial.answer, Trial.andThen, hfail]
  | some e =>
    have ht : t.andThen k = t := by rw [Trial.andThen, hfail]
    rw [Trial.answer, hfail] at hanswer
    rw [Carries, bind_of_error (eq_error_of_answer hanswer), ht]
    refine ⟨?_, hcarried⟩
    rw [Trial.answer, hfail]
    rfl

end Carries

namespace Recorder

/-- The records once a change is written down and before it is tried. -/
def noted (rec : Recorder) (root : Path) (m : Mutation) : Recorder :=
  { rec with calls := rec.calls ++ [(root, m.call)] }.put root (rec.repo root)

theorem repo_noted (rec : Recorder) (root other : Path) (m : Mutation) :
    (rec.noted root m).repo other = rec.repo other := by
  rw [noted, repo_put]
  split
  · next h => exact (repo_congr rec h).symm
  · rfl

/-- A change of recorded repositories is written down and tried on the record at its root. -/
theorem mutate_apply (root : Path) (m : Mutation) (rec : Recorder) :
    mutate root m rec =
      match (rec.repo root).attempt m with
      | .ok next => .ok () ((rec.noted root m).put root next)
      | .error e => .error e (rec.noted root m) := by
  simp only [mutate, Repo.attempt, noted]
  by_cases hkind : m.kind ∈ (rec.repo root).failing
  · simp [hkind]
  · cases (rec.repo root).apply m <;> simp [hkind]

/-- Asking for the branch checked out changes nothing. -/
theorem currentBranch_apply (root : Path) (s : Session Recorder) :
    Action.onHost (client.currentBranch root) s =
      match (s.host.repo root).askCurrent with
      | .ok current? => .ok current? s
      | .error e => .error e s := by
  simp only [client, Action.onHost, ask, Repo.askCurrent]
  by_cases hkind : Kind.currentBranch ∈ (s.host.repo root).failing <;> simp [hkind]

end Recorder

section

variable (c : Checkout) (s : Session Recorder)

/-- A change of a checkout is a trial in its repository. -/
theorem carries_change (m : Mutation) :
    Carries c.root (c.change Recorder.client m) s ((s.host.repo c.root).tryOne m) := by
  obtain ⟨hanswer, hreached⟩ := Checkout.change_apply Recorder.client c m s
  rw [Carries, hanswer, hreached]
  simp only [Recorder.client, Recorder.mutate_apply, Repo.tryOne]
  cases (s.host.repo c.root).attempt m with
  | ok next =>
    refine ⟨rfl, fun other => ?_, rfl, rfl, rfl⟩
    simp only [reached_ok, Recorder.repo_put, Recorder.repo_noted]
  | error e =>
    refine ⟨rfl, fun other => ?_, rfl, rfl, rfl⟩
    simp only [reached_error, Recorder.repo_noted]
    split
    · next h => exact Recorder.repo_congr _ h
    · rfl

/-- Asking for the branch checked out is no trial; what follows may be one. -/
theorem carries_knowing {f : Option String → Action Recorder Unit} {k : Option String → Trial}
    (h : ∀ current?, Carries c.root (f current?) s (k current?)) :
    Carries c.root (Action.onHost (Recorder.client.currentBranch c.root) >>= f) s
      ((s.host.repo c.root).knowing k) := by
  simp only [Carries, bind_apply, Recorder.currentBranch_apply, Repo.knowing]
  cases (s.host.repo c.root).askCurrent with
  | ok current? => exact h current?
  | error e => exact ⟨rfl, Carried.stay rfl rfl rfl⟩

/-- An operation of a checkout is a trial in its repository. -/
theorem carries_perform (op : Checkout.Operation) :
    Carries c.root (c.perform Recorder.client op) s ((s.host.repo c.root).perform op) := by
  cases op with
  | change m => exact carries_change c s m
  | deleteLeaving branch fallback force =>
    refine carries_knowing c s fun current? => ?_
    split
    · refine (carries_change c s _).bind fun s' _ hs' => ?_
      rw [Repo.tryAll_singleton, ← hs'.repo_root]
      exact carries_change c s' _
    · exact carries_change c s _
  | pushCreating =>
    refine carries_knowing c s fun current? => ?_
    cases current? with
    | none => exact ⟨rfl, Carried.stay rfl rfl rfl⟩
    | some branch => exact carries_change c s _

end

end Grove.Git
