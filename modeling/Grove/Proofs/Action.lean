import Grove.Git.Checkout

/-!
# Actions, step by step

What an action does to the session it starts from: one equation for each of the ways to build an
action. A result is taken apart into its answer and the state reached (`answer`, `reached`).
-/

namespace Grove

section

variable {ε σ α β : Type}

/-- What a result answers, its state aside. -/
def answer : EStateM.Result ε σ α → Except ε α
  | .ok a _ => .ok a
  | .error e _ => .error e

/-- The state a result ends in, success or not. -/
def reached : EStateM.Result ε σ α → σ
  | .ok _ s => s
  | .error _ s => s

@[simp] theorem answer_ok (a : α) (s : σ) : answer (.ok a s : EStateM.Result ε σ α) = .ok a := rfl

@[simp] theorem answer_error (e : ε) (s : σ) :
    answer (.error e s : EStateM.Result ε σ α) = .error e := rfl

@[simp] theorem reached_ok (a : α) (s : σ) : reached (.ok a s : EStateM.Result ε σ α) = s := rfl

@[simp] theorem reached_error (e : ε) (s : σ) :
    reached (.error e s : EStateM.Result ε σ α) = s := rfl

/-- A result is its answer together with the state reached. -/
theorem eq_ok_of_answer {x : EStateM.Result ε σ α} {a : α} (h : answer x = .ok a) :
    x = .ok a (reached x) := by
  cases x with
  | ok b s => simp only [answer_ok, Except.ok.injEq] at h; rw [h]; rfl
  | error e s => simp at h

theorem eq_error_of_answer {x : EStateM.Result ε σ α} {e : ε} (h : answer x = .error e) :
    x = .error e (reached x) := by
  cases x with
  | ok b s => simp at h
  | error e' s => simp only [answer_error, Except.error.injEq] at h; rw [h]; rfl

theorem bind_apply (x : EStateM ε σ α) (f : α → EStateM ε σ β) (s : σ) :
    (x >>= f) s = match x s with
      | .ok a t => f a t
      | .error e t => .error e t := by
  show EStateM.bind x f s = _
  unfold EStateM.bind
  cases x s <;> rfl

theorem bind_of_ok {x : EStateM ε σ α} {f : α → EStateM ε σ β} {s t : σ} {a : α}
    (h : x s = .ok a t) : (x >>= f) s = f a t := by
  rw [bind_apply, h]

theorem bind_of_error {x : EStateM ε σ α} {f : α → EStateM ε σ β} {s t : σ} {e : ε}
    (h : x s = .error e t) : (x >>= f) s = .error e t := by
  rw [bind_apply, h]

/-- Two steps in a row go well if each does. -/
theorem bind_eq_ok_iff {x : EStateM ε σ α} {f : α → EStateM ε σ β} {s u : σ} {b : β} :
    (x >>= f) s = .ok b u ↔ ∃ a t, x s = .ok a t ∧ f a t = .ok b u := by
  rw [bind_apply]
  cases x s with
  | ok a t =>
    constructor
    · exact fun h => ⟨a, t, rfl, h⟩
    · rintro ⟨_, _, heq, h⟩
      obtain ⟨rfl, rfl⟩ := EStateM.Result.ok.inj heq
      exact h
  | error e t => simp

/-- What the first of two steps reaches and the second keeps is reached by both in a row. -/
theorem reached_bind {P : σ → Prop} {x : EStateM ε σ α} {f : α → EStateM ε σ β} {s : σ}
    (hfirst : P (reached (x s))) (hrest : ∀ a t, P t → P (reached (f a t))) :
    P (reached ((x >>= f) s)) := by
  cases hx : x s with
  | ok a t =>
    rw [hx] at hfirst
    rw [bind_of_ok hx]
    exact hrest a t hfirst
  | error e t =>
    rw [hx] at hfirst
    rw [bind_of_error hx]
    exact hfirst

section

variable {τ : Type} {x : EStateM ε σ α} {y : EStateM ε τ α} {f : α → EStateM ε σ β}
  {g : α → EStateM ε τ β} {s : σ} {t : τ}

/-- Two steps in a row answer alike in two states where each of the steps does. -/
theorem answer_bind_congr (hfirst : answer (x s) = answer (y t))
    (hrest : ∀ a, answer (f a (reached (x s))) = answer (g a (reached (y t)))) :
    answer ((x >>= f) s) = answer ((y >>= g) t) := by
  cases hx : x s with
  | ok a s' =>
    rw [hx] at hfirst hrest
    rw [bind_of_ok hx, bind_of_ok (eq_ok_of_answer hfirst.symm)]
    exact hrest a
  | error e s' =>
    rw [hx] at hfirst
    rw [bind_of_error hx, bind_of_error (eq_error_of_answer hfirst.symm)]
    rfl

/-- Two steps in a row reach related states where the first answers alike and each of the steps
reaches related states. -/
theorem reached_bind_congr {R : σ → τ → Prop} (hanswer : answer (x s) = answer (y t))
    (hfirst : R (reached (x s)) (reached (y t)))
    (hrest : ∀ a s' t', R s' t' → R (reached (f a s')) (reached (g a t'))) :
    R (reached ((x >>= f) s)) (reached ((y >>= g) t)) := by
  cases hx : x s with
  | ok a s' =>
    rw [hx] at hanswer hfirst
    rw [bind_of_ok hx, bind_of_ok (eq_ok_of_answer hanswer.symm)]
    exact hrest a _ _ hfirst
  | error e s' =>
    rw [hx] at hanswer hfirst
    rw [bind_of_error hx, bind_of_error (eq_error_of_answer hanswer.symm)]
    exact hfirst

end

@[simp] theorem pure_apply (a : α) (s : σ) : (pure a : EStateM ε σ α) s = .ok a s := rfl

@[simp] theorem throw_apply (e : ε) (s : σ) : (throw e : EStateM ε σ α) s = .error e s := rfl

@[simp] theorem get_apply (s : σ) : (get : EStateM ε σ σ) s = .ok s s := rfl

@[simp] theorem modify_apply (f : σ → σ) (s : σ) :
    (modify f : EStateM ε σ Unit) s = .ok () (f s) := rfl

end

namespace Action

variable {σ α : Type}

theorem onHost_of_ok {x : EStateM Failure σ α} {s : Session σ} {a : α} {h : σ}
    (hx : x s.host = .ok a h) : onHost x s = .ok a { s with host := h } := by
  rw [onHost, hx]

theorem onHost_of_error {x : EStateM Failure σ α} {s : Session σ} {e : Failure} {h : σ}
    (hx : x s.host = .error e h) : onHost x s = .error e { s with host := h } := by
  rw [onHost, hx]

/-- Acting on the host leaves everything else of the session. -/
theorem reached_onHost (x : EStateM Failure σ α) (s : Session σ) :
    reached (onHost x s) = { s with host := reached (x s.host) } := by
  rw [onHost]
  cases x s.host <;> rfl

@[simp] theorem answer_onHost (x : EStateM Failure σ α) (s : Session σ) :
    answer (onHost x s) = answer (x s.host) := by
  rw [onHost]
  cases x s.host <;> rfl

/-- Steps of the host in a row are steps of the session in a row. -/
theorem onHost_bind {β : Type} (x : EStateM Failure σ α) (f : α → EStateM Failure σ β) :
    onHost (x >>= f) = (onHost x >>= fun a => onHost (f a)) := by
  funext s
  rw [bind_apply, onHost, onHost, bind_apply]
  cases x s.host <;> rfl

@[simp] theorem note_apply (severity : Severity) (message : String) (s : Session σ) :
    note severity message s = .ok () { s with log := s.log ++ [⟨severity, message⟩] } := rfl

/-- An attempt never fails: it answers what the action answers, in the state the action reaches. -/
@[simp] theorem attempt_apply (x : Action σ α) (s : Session σ) :
    attempt x s = .ok (answer (x s)) (reached (x s)) := by
  rw [attempt]
  cases x s <;> rfl

@[simp] theorem ofExcept_ok (a : α) (s : Session σ) : ofExcept (.ok a) s = .ok a s := rfl

@[simp] theorem ofExcept_error (e : Failure) (s : Session σ) :
    (ofExcept (.error e) : Action σ α) s = .error e s := rfl

@[simp] theorem forgetAll_apply (s : Session σ) :
    forgetAll s = .ok () { s with dirtyFlags := [], snapshots := [] } := rfl

/-- An action that writes no log line, whether it succeeds or not. -/
def Quiet (x : Action σ α) : Prop :=
  ∀ s, (reached (x s)).log = s.log

namespace Quiet

variable {β : Type}

theorem bind {x : Action σ α} {f : α → Action σ β} (hx : Quiet x) (hf : ∀ a, Quiet (f a)) :
    Quiet (x >>= f) := fun s =>
  reached_bind (hx s) fun a t hlog => (hf a t).trans hlog

theorem onHost (x : EStateM Failure σ α) : Quiet (Action.onHost x) := by
  intro s
  rw [reached_onHost]

theorem throw (e : Failure) : Quiet (throw e : Action σ α) := fun _ => rfl

end Quiet

end Action

namespace Checkout

variable {σ : Type}

@[simp] theorem forget_apply (c : Checkout) (s : Session σ) :
    c.forget s =
      .ok () { s with dirtyFlags := Ordered.erase Path.order c.root s.dirtyFlags } := rfl

/-- A change answers what the client answers; the session keeps all but the host and, where the work
tree may have changed, what was known of its dirt. -/
theorem change_apply (git : Git.Client σ) (c : Checkout) (m : Git.Mutation) (s : Session σ) :
    answer (c.change git m s) = answer (git.mutate c.root m s.host) ∧
      reached (c.change git m s) =
        { s with
          host := reached (git.mutate c.root m s.host)
          dirtyFlags := if m.isPush then s.dirtyFlags
            else Ordered.erase Path.order c.root s.dirtyFlags } := by
  rw [change]
  simp only [bind_apply, Action.attempt_apply, Action.reached_onHost, Action.answer_onHost]
  by_cases hpush : m.isPush <;> cases git.mutate c.root m s.host <;>
    simp [hpush, bind_apply]

theorem quiet_change (git : Git.Client σ) (c : Checkout) (m : Git.Mutation) :
    (c.change git m).Quiet := by
  intro s
  rw [(c.change_apply git m s).2]

/-- Whether a checkout is dirty is asked only where no answer is remembered. -/
theorem isDirty_apply (git : Git.Client σ) (c : Checkout) (s : Session σ) :
    c.isDirty git s =
      match Ordered.get? Path.order c.root s.dirtyFlags with
      | some dirty => .ok dirty s
      | none =>
        match git.isDirty c.root s.host with
        | .ok dirty host =>
          .ok dirty { s with host, dirtyFlags := Ordered.put Path.order c.root dirty s.dirtyFlags }
        | .error e host => .error e { s with host } := by
  rw [isDirty, bind_of_ok (get_apply s)]
  cases Ordered.get? Path.order c.root s.dirtyFlags with
  | some dirty => rfl
  | none =>
    simp only []
    cases hask : git.isDirty c.root s.host with
    | ok dirty host => exact bind_of_ok (Action.onHost_of_ok hask)
    | error e host => exact bind_of_error (Action.onHost_of_error hask)

/-- The branches are asked for only where no snapshot is remembered. -/
theorem snapshot_apply (git : Git.Client σ) (c : Checkout) (s : Session σ) :
    c.snapshot git s =
      match Ordered.get? Path.order c.root s.snapshots with
      | some branches => .ok branches s
      | none =>
        match git.branches c.root s.host with
        | .ok branches host =>
          .ok branches
            { s with host, snapshots := Ordered.put Path.order c.root branches s.snapshots }
        | .error e host => .error e { s with host } := by
  rw [snapshot, bind_of_ok (get_apply s)]
  cases Ordered.get? Path.order c.root s.snapshots with
  | some branches => rfl
  | none =>
    simp only []
    cases hask : git.branches c.root s.host with
    | ok branches host => exact bind_of_ok (Action.onHost_of_ok hask)
    | error e host => exact bind_of_error (Action.onHost_of_error hask)

end Checkout

end Grove
