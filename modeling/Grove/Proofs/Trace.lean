import Grove.Proofs.ChangeDetection

/-!
# Traces of a client

A client can be made to write down every operation it is asked for, with what it answered. It
answers and acts as it did before, so what a workflow does through any client can be told from the
trace it leaves.

## What is proved

* `answer_record`, `reached_record` — an operation that is written down answers and acts as before.
* `steady_traced` — a client that is written down is as steady as before.
-/

namespace Grove.Git

variable {σ α : Type}

/-- An operation that a client was asked for, with what it answered. -/
inductive Event where
  /-- Whether a repository is dirty. -/
  | dirt (root : Path) (answer : Except Failure Bool)
  /-- Which branch is checked out. -/
  | current (root : Path) (answer : Except Failure (Option String))
  /-- Which branches there are. -/
  | branches (root : Path) (answer : Except Failure (List Branch))
  /-- A change. -/
  | change (root : Path) (m : Mutation) (answer : Except Failure Unit)

/-- Whether an event is a change that was tried in a repository. -/
def Event.Changes (root : Path) (e : Event) : Prop :=
  ∃ other m answer, e = .change other m answer ∧ other.alike root

/-- A state of the host with the operations asked for so far, oldest first. -/
structure Traced (σ : Type) where
  /-- The state. -/
  host : σ
  /-- The operations asked for. -/
  events : List Event

namespace Traced

/-- Carries an operation out and writes down what it answered. -/
def record (event : Except Failure α → Event) (x : EStateM Failure σ α) :
    EStateM Failure (Traced σ) α := fun h =>
  match x h.host with
  | .ok a host => .ok a ⟨host, h.events ++ [event (.ok a)]⟩
  | .error e host => .error e ⟨host, h.events ++ [event (.error e)]⟩

variable (event : Except Failure α → Event) (x : EStateM Failure σ α) (h : Traced σ)

@[simp] theorem answer_record : answer (record event x h) = answer (x h.host) := by
  rw [record]
  cases x h.host <;> rfl

@[simp] theorem reached_record :
    reached (record event x h) =
      ⟨reached (x h.host), h.events ++ [event (answer (x h.host))]⟩ := by
  rw [record]
  cases x h.host <;> rfl

end Traced

/-- The client, with every operation written down. -/
def Client.traced (git : Client σ) : Client (Traced σ) where
  isDirty root := Traced.record (.dirt root) (git.isDirty root)
  currentBranch root := Traced.record (.current root) (git.currentBranch root)
  listBranches root := Traced.record (.branches root) (git.listBranches root)
  mutate root m := Traced.record (.change root m) (git.mutate root m)

namespace Client

variable {git : Client σ}

@[simp] theorem status_traced (h : Traced σ) (c : Checkout) :
    git.traced.status h c = git.status h.host c :=
  Traced.answer_record _ _ _

theorem steady_traced (hgit : git.Steady) : git.traced.Steady := by
  intro h root c
  rw [status_traced, status_traced, traced, Traced.reached_record]
  exact hgit h.host root c

end Client

end Grove.Git
