import Grove.Proofs.ChangeDetection

/-!
# Separate repositories

What the workflows rely on when one repository must not disturb another. At the least the answers of
a client are stable: questions change none, and a change touches the dirt of its own repository
only. A client keeps its repositories separate if what comes of an operation, too, is decided by the
repository at its root alone. That is seen through a view, which shows the repository at each root
in a state of the host.

## What is proved

* `Separate.status_congr`, `Separate.listing_congr` — the answers about a checkout are read off its
  own repository.
* `Separate.stable` — the answers about separate repositories are stable.
* `separate_client` — recorded repositories are separate, seen through their records.
-/

namespace Grove.Git

variable {σ ρ α β : Type}

/-- The client's answer about the branches of a checkout in a state of the host. -/
def Client.listing (git : Client σ) (h : σ) (c : Checkout) : Except Failure Branches :=
  answer (git.branches c.root h)

/-- The client answers alike in two states of the host, whatever checkout it is asked about. -/
def Client.SameAnswers (git : Client σ) (h h' : σ) : Prop :=
  ∀ c, git.status h c = git.status h' c ∧ git.listing h c = git.listing h' c

/-- The answers of a client are stable: a question changes none, and a change touches the dirt of no
other repository, nor, if it is a push, that of its own. -/
structure Client.Stable (git : Client σ) : Prop where
  isDirty : ∀ root h, git.SameAnswers (reached (git.isDirty root h)) h
  currentBranch : ∀ root h, git.SameAnswers (reached (git.currentBranch root h)) h
  listBranches : ∀ root h, git.SameAnswers (reached (git.listBranches root h)) h
  mutate : ∀ {root m h c}, ¬c.root.alike root →
    git.status (reached (git.mutate root m h)) c = git.status h c
  pushed : ∀ {c m h}, m.isPush = true →
    git.status (reached (git.mutate c.root m h)) c = git.status h c

namespace Client.Stable

variable {git : Client σ} (hgit : git.Stable)

include hgit

theorem steady : git.Steady := fun h root c => (hgit.isDirty root h c).1

theorem branches (root : Path) (h : σ) : git.SameAnswers (reached (git.branches root h)) h := by
  have hboth : ∀ {t u}, git.SameAnswers t h → git.SameAnswers u t → git.SameAnswers u h :=
    fun ht hu c => ⟨(hu c).1.trans (ht c).1, (hu c).2.trans (ht c).2⟩
  exact reached_bind (P := fun t => git.SameAnswers t h) (hgit.currentBranch root h) fun _ t ht =>
    reached_bind (P := fun u => git.SameAnswers u h) (hboth ht (hgit.listBranches root t))
      fun _ _ hu => hu

end Client.Stable

/-- A question is answered from the repository that it is about, and changes none. -/
structure Question (view : σ → Path → ρ) (ask : Path → EStateM Failure σ α) : Prop where
  answered : ∀ {root h h'}, view h root = view h' root → answer (ask root h) = answer (ask root h')
  unchanged : ∀ root h, view (reached (ask root h)) = view h

/-- An operation at a root is confined to the repository there: it is answered from that repository
and changes no other. -/
structure Confined (view : σ → Path → ρ) (root : Path) (x : EStateM Failure σ α) : Prop where
  answered : ∀ {h h'}, view h root = view h' root → answer (x h) = answer (x h')
  changed : ∀ {h h'}, view h root = view h' root →
    view (reached (x h)) root = view (reached (x h')) root
  others : ∀ {h other}, ¬other.alike root → view (reached (x h)) other = view h other

/-- The repositories of a client are separate: its questions change nothing, and its changes are
confined to their own repositories. A push leaves the dirt of its own. -/
structure Client.Separate (git : Client σ) (view : σ → Path → ρ) : Prop where
  isDirty : Question view git.isDirty
  currentBranch : Question view git.currentBranch
  listBranches : Question view git.listBranches
  mutate : ∀ root m, Confined view root (git.mutate root m)
  pushed : ∀ {c m h}, m.isPush = true →
    git.status (reached (git.mutate c.root m h)) c = git.status h c

namespace Confined

variable {view : σ → Path → ρ} {root : Path}

theorem pure (a : α) : Confined view root (Pure.pure a) :=
  ⟨fun _ => rfl, fun hview => hview, fun _ => rfl⟩

/-- Operations in a row are confined where each is. -/
theorem bind {x : EStateM Failure σ α} {f : α → EStateM Failure σ β} (hx : Confined view root x)
    (hf : ∀ a, Confined view root (f a)) : Confined view root (x >>= f) where
  answered hview := answer_bind_congr (hx.answered hview) fun a =>
    (hf a).answered (hx.changed hview)
  changed hview :=
    reached_bind_congr (R := fun t u => view t root = view u root) (hx.answered hview)
      (hx.changed hview) fun a _ _ => (hf a).changed
  others {h other} hother :=
    reached_bind (P := fun t => view t other = view h other) (hx.others hother) fun a _ hview =>
      ((hf a).others hother).trans hview

end Confined

theorem Question.confined {view : σ → Path → ρ} {ask : Path → EStateM Failure σ α}
    (hask : Question view ask) (root : Path) : Confined view root (ask root) where
  answered := hask.answered
  changed := fun hview => by rw [hask.unchanged, hask.unchanged, hview]
  others := fun _ => by rw [hask.unchanged]

/-- One question after another is a question. -/
theorem Question.bind {view : σ → Path → ρ} {ask : Path → EStateM Failure σ α}
    {next : α → Path → EStateM Failure σ β} (hask : Question view ask)
    (hnext : ∀ a, Question view (next a)) :
    Question view fun root => ask root >>= fun a => next a root := by
  refine ⟨((hask.confined _).bind fun a => (hnext a).confined _).answered, fun root h => ?_⟩
  exact reached_bind (P := fun t => view t = view h) (hask.unchanged root h) fun a t hview =>
    ((hnext a).unchanged root t).trans hview

theorem Question.pure (view : σ → Path → ρ) (a : α) : Question view fun _ => (Pure.pure a) :=
  ⟨fun _ => rfl, fun _ _ => rfl⟩

namespace Client.Separate

variable {git : Client σ} {view : σ → Path → ρ} (hgit : git.Separate view)

include hgit

theorem branches : Question view git.branches :=
  hgit.currentBranch.bind fun _ => hgit.listBranches.bind fun _ => .pure view _

/-- Whether a checkout is dirty is read off its own repository. -/
theorem status_congr {h h' : σ} {c : Checkout} (hview : view h c.root = view h' c.root) :
    git.status h c = git.status h' c :=
  hgit.isDirty.answered hview

/-- The branches of a checkout are read off its own repository. -/
theorem listing_congr {h h' : σ} {c : Checkout} (hview : view h c.root = view h' c.root) :
    git.listing h c = git.listing h' c :=
  hgit.branches.answered hview

theorem sameAnswers {h h' : σ} (hview : view h = view h') : git.SameAnswers h h' := fun c =>
  ⟨hgit.status_congr (congrFun hview c.root), hgit.listing_congr (congrFun hview c.root)⟩

/-- The answers about separate repositories are stable. -/
theorem stable : git.Stable where
  isDirty root h := hgit.sameAnswers (hgit.isDirty.unchanged root h)
  currentBranch root h := hgit.sameAnswers (hgit.currentBranch.unchanged root h)
  listBranches root h := hgit.sameAnswers (hgit.listBranches.unchanged root h)
  mutate hother := hgit.status_congr ((hgit.mutate _ _).others hother)
  pushed := hgit.pushed

end Client.Separate

/-! ### Recorded repositories -/

/-- A push leaves the dirt of a record, and what fails there. -/
theorem Repo.apply_push {repo next : Repo} {m : Mutation} (hpush : m.isPush = true)
    (h : repo.apply m = .ok next) : next.failing = repo.failing ∧ next.dirty = repo.dirty := by
  refine ⟨(apply_frame h).1, ?_⟩
  cases m <;> simp only [Mutation.isPush, Bool.false_eq_true] at hpush
  · simp only [apply] at h
    split at h
    · obtain rfl := Except.ok.inj h
      rfl
    · obtain rfl := Except.ok.inj h
      rfl
  · obtain rfl := Except.ok.inj h
    rfl

namespace Recorder

theorem question_ask (kind : Kind) (read : Repo → α) : Question repo (ask kind read) := by
  constructor
  · intro root h h' hview
    simp only [ask, hview]
    split <;> rfl
  · intro root h
    simp only [ask]
    split <;> rfl

theorem question_isDirty : Question repo isDirty := by
  have hask := question_ask .isDirty (·.dirty)
  exact ⟨fun hview => hask.answered hview, fun root h => hask.unchanged root _⟩

theorem confined_mutate (root : Path) (m : Mutation) : Confined repo root (mutate root m) where
  answered := by
    intro h h' hview
    rw [mutate_apply, mutate_apply, hview]
    cases (h'.repo root).attempt m <;> rfl
  changed := by
    intro h h' hview
    rw [mutate_apply, mutate_apply, hview]
    cases (h'.repo root).attempt m <;> simp [repo_put, repo_noted, hview]
  others := by
    intro h other hother
    rw [mutate_apply]
    cases (h.repo root).attempt m <;> simp [repo_put, repo_noted, hother]

/-- Recorded repositories are separate. -/
theorem separate_client : client.Separate repo where
  isDirty := question_isDirty
  currentBranch := question_ask _ _
  listBranches := question_ask _ _
  mutate := confined_mutate
  pushed := by
    intro c m h hpush
    rw [status_client, status_client]
    simp only [client, mutate_apply]
    cases hm : (h.repo c.root).attempt m with
    | ok next =>
      obtain ⟨hfailing, hdirty⟩ := Repo.apply_push hpush (Repo.apply_of_attempt hm).2
      simp only [reached_ok, repo_put, Path.alike_self, if_true, hfailing, hdirty]
    | error e => simp only [reached_error, repo_noted]

end Recorder

end Grove.Git
