import Mathlib.Data.List.Basic
import Grove.Proofs.ChangeDetection
import Grove.Workflow.Clean

/-!
# What is remembered of dirt

Whether a checkout is dirty is asked once and remembered. As long as every answer that is remembered
is the one the client would give, asking a checkout and requiring clean ones come out as they would
without a memory. A look at a workspace starts from nothing remembered, so whatever comes of it, all
that is remembered afterwards holds. The action between two looks is not part of this: where it
fails, there is no second look, and the answers of the first one stay.

## What is proved

* `FlagsHold.isDirty`, `FlagsHold.ensureClean` — what is answered from a memory that holds is what
  would be answered without one.
* `flagsHold_dirtyCheckouts` — after a look, what is remembered holds.
* `flagsHold_detectChanges` — when it holds after changes were looked for.
-/

namespace Grove

open Git

variable {σ α β : Type}

/-! ### Properties that actions keep -/

/-- A property that a session keeps when an action is run, whether it succeeds or not. -/
def Action.Keeps (P : Session σ → Prop) (x : Action σ α) : Prop :=
  ∀ s, P s → P (reached (x s))

namespace Action.Keeps

variable {P : Session σ → Prop}

theorem pure (a : α) : Keeps P (Pure.pure a : Action σ α) := fun _ hs => hs

theorem throw (e : Failure) : Keeps P (MonadExcept.throw e : Action σ α) := fun _ hs => hs

theorem bind {x : Action σ α} {f : α → Action σ β} (hx : Keeps P x) (hf : ∀ a, Keeps P (f a)) :
    Keeps P (x >>= f) := fun s hs =>
  reached_bind (hx s hs) hf

theorem attempt {x : Action σ α} (hx : Keeps P x) : Keeps P (Action.attempt x) := by
  intro s hs
  rw [Action.attempt_apply]
  exact hx s hs

/-- Looking through checkouts keeps what asking for each of them keeps. -/
theorem dirtyAmong {git : Git.Client σ} {cs : List Checkout}
    (hask : ∀ c ∈ cs, Keeps P (c.isDirty git)) (found : List Checkout) :
    Keeps P (Grove.dirtyAmong git cs found) := by
  induction cs generalizing found with
  | nil => exact .pure _
  | cons c cs ih =>
    exact (hask c List.mem_cons_self).bind fun _ =>
      ih (fun c' hc' => hask c' (List.mem_cons_of_mem _ hc')) _

/-- So does requiring clean ones. -/
theorem ensureClean {git : Git.Client σ} {cs : List Checkout}
    (hask : ∀ c ∈ cs, Keeps P (c.isDirty git)) : Keeps P (Grove.ensureClean git cs) := by
  have hnames : Keeps P (dirtyNames git cs) := by
    induction cs with
    | nil => exact .pure _
    | cons c cs ih =>
      exact (hask c List.mem_cons_self).bind fun _ =>
        (ih fun c' hc' => hask c' (List.mem_cons_of_mem _ hc')).bind fun _ => .pure _
  refine hnames.bind fun names => ?_
  split
  · exact .throw _
  · exact .pure _

end Action.Keeps

/-! ### Answers without a memory -/

/-- The names of the dirty checkouts among some, by asking for each. -/
def Git.Client.dirtyNames (git : Git.Client σ) : List Checkout → EStateM Failure σ (List String)
  | [] => pure []
  | c :: cs => do
    let dirty ← git.isDirty c.root
    let names ← git.dirtyNames cs
    return if dirty then c.name :: names else names

/-- Fails when a checkout is dirty, by asking for each. -/
def Git.Client.ensureClean (git : Git.Client σ) (checkouts : List Checkout) :
    EStateM Failure σ Unit := do
  let names ← git.dirtyNames checkouts
  if names ≠ [] then throw (Failure.git (.uncommittedChanges names))

/-- Every answer that is remembered of some checkouts is the client's answer now. -/
def FlagsHold (git : Git.Client σ) (all : List Checkout) (s : Session σ) : Prop :=
  ∀ c ∈ all, ∀ dirty, Ordered.get? Path.order c.root s.dirtyFlags = some dirty →
    git.status s.host c = .ok dirty

section

variable {git : Git.Client σ} {all : List Checkout} {s t : Session σ}

theorem flagsHold_of_forgotten (hforgotten : s.dirtyFlags = []) : FlagsHold git all s := by
  intro c _ dirty hflag
  rw [hforgotten] at hflag
  simp [Ordered.get?] at hflag

/-- What holds goes on to hold where no more is remembered and the client answers as before. -/
theorem FlagsHold.mono (hs : FlagsHold git all s)
    (hflags : ∀ c ∈ all, ∀ dirty, Ordered.get? Path.order c.root t.dirtyFlags = some dirty →
      Ordered.get? Path.order c.root s.dirtyFlags = some dirty ∧
        git.status t.host c = git.status s.host c) : FlagsHold git all t := by
  intro c hc dirty hflag
  obtain ⟨hflag', hstatus⟩ := hflags c hc dirty hflag
  rw [hstatus]
  exact hs c hc dirty hflag'

/-- From a memory that holds a checkout is answered as without one. -/
theorem FlagsHold.isDirty (hs : FlagsHold git all s) {c : Checkout} (hc : c ∈ all) :
    answer (c.isDirty git s) = git.status s.host c := by
  rw [Checkout.isDirty_apply]
  cases hflag : Ordered.get? Path.order c.root s.dirtyFlags with
  | some dirty => exact (hs c hc dirty hflag).symm
  | none =>
    rw [Client.status]
    cases git.isDirty c.root s.host <;> rfl

variable (hgit : git.Steady)

include hgit

/-- Asking for a checkout changes no answer about dirt. -/
theorem status_reached_isDirty (c c' : Checkout) (s : Session σ) :
    git.status (reached (c.isDirty git s)).host c' = git.status s.host c' := by
  have hsteady := hgit s.host c.root c'
  rw [Checkout.isDirty_apply]
  cases Ordered.get? Path.order c.root s.dirtyFlags with
  | some dirty => rfl
  | none => cases hask : git.isDirty c.root s.host <;> rw [hask] at hsteady <;> exact hsteady

variable (hall : Distinct all)

include hall

/-- What is remembered of a checkout once it is asked for is what was answered. -/
theorem keeps_flagsHold_isDirty {c : Checkout} (hc : c ∈ all) :
    Action.Keeps (FlagsHold git all) (c.isDirty git) := by
  intro s hs
  have hsteady := hgit s.host c.root
  rw [Checkout.isDirty_apply]
  cases Ordered.get? Path.order c.root s.dirtyFlags with
  | some dirty => exact hs
  | none =>
    cases hask : git.isDirty c.root s.host with
    | error e host =>
      rw [hask] at hsteady
      exact hs.mono fun c' _ dirty hflag => ⟨hflag, hsteady c'⟩
    | ok dirty host =>
      rw [hask] at hsteady
      intro c' hc' dirty' hflag
      simp only [reached_ok] at hflag hsteady ⊢
      rw [hsteady]
      by_cases hsame : c'.same c
      · obtain rfl := hall c' hc' c hc hsame
        rw [Ordered.get?_put_self] at hflag
        rw [← Option.some.inj hflag, Client.status, hask]
        rfl
      · rw [Ordered.get?_put_of_ne _ (fun h => hsame (Path.alike_iff_order.2 h))] at hflag
        exact hs c' hc' dirty' hflag

/-- From a memory that holds the dirty checkouts are named as without one, in any state in which the
client gives the same answers. -/
theorem FlagsHold.dirtyNames {cs : List Checkout} (hcs : ∀ c ∈ cs, c ∈ all) {h : σ}
    (hs : FlagsHold git all s) (hstatus : ∀ c, git.status s.host c = git.status h c) :
    answer (Grove.dirtyNames git cs s) = answer (git.dirtyNames cs h) := by
  induction cs generalizing s h with
  | nil => rfl
  | cons c cs ih =>
    have hc := hcs c List.mem_cons_self
    have hasked := (hs.isDirty hc).trans (hstatus c)
    have hkept := keeps_flagsHold_isDirty hgit hall hc s hs
    have hstatus' : ∀ c', git.status (reached (c.isDirty git s)).host c' =
        git.status (reached (git.isDirty c.root h)) c' := by
      intro c'
      rw [status_reached_isDirty hgit, hstatus, hgit]
    have hrest := ih (fun c' hc' => hcs c' (List.mem_cons_of_mem _ hc')) hkept hstatus'
    rw [Grove.dirtyNames, Client.dirtyNames]
    exact answer_bind_congr hasked fun _ => answer_bind_congr hrest fun _ => rfl

/-- From a memory that holds clean checkouts are required as without one. -/
theorem FlagsHold.ensureClean {cs : List Checkout} (hcs : ∀ c ∈ cs, c ∈ all)
    (hs : FlagsHold git all s) :
    answer (Grove.ensureClean git cs s) = answer (git.ensureClean cs s.host) := by
  have hnames := hs.dirtyNames hgit hall hcs fun _ => rfl
  rw [Grove.ensureClean, Client.ensureClean]
  refine answer_bind_congr hnames fun names => ?_
  split <;> rfl

end

/-! ### Looks -/

/-- Whether an answer is remembered of a checkout. -/
def Known (c : Checkout) (s : Session σ) : Prop :=
  ∃ dirty, Ordered.get? Path.order c.root s.dirtyFlags = some dirty

section

variable (git : Git.Client σ) (c : Checkout)

theorem known_of_isDirty {s t : Session σ} {dirty : Bool} (hrun : c.isDirty git s = .ok dirty t) :
    Known c t := by
  rw [Checkout.isDirty_apply] at hrun
  cases hflag : Ordered.get? Path.order c.root s.dirtyFlags with
  | some dirty' =>
    simp only [hflag, EStateM.Result.ok.injEq] at hrun
    exact ⟨dirty', hrun.2 ▸ hflag⟩
  | none =>
    simp only [hflag] at hrun
    cases hask : git.isDirty c.root s.host with
    | error e host => simp [hask] at hrun
    | ok dirty' host =>
      simp only [hask, EStateM.Result.ok.injEq] at hrun
      exact ⟨dirty', hrun.2 ▸ Ordered.get?_put_self _ _ _ _⟩

/-- Asking for a checkout forgets none. -/
theorem keeps_known_isDirty (other : Checkout) : Action.Keeps (Known other) (c.isDirty git) := by
  intro s ⟨dirty, hknown⟩
  rw [Checkout.isDirty_apply]
  cases Ordered.get? Path.order c.root s.dirtyFlags with
  | some dirty' => exact ⟨dirty, hknown⟩
  | none =>
    cases hask : git.isDirty c.root s.host with
    | error e host => exact ⟨dirty, hknown⟩
    | ok dirty' host =>
      by_cases halike : Path.order other.root c.root = .eq
      · refine ⟨dirty', ?_⟩
        rw [reached_ok, Ordered.get?_congr _ halike, Ordered.get?_put_self]
      · refine ⟨dirty, ?_⟩
        rw [reached_ok, Ordered.get?_put_of_ne _ halike]
        exact hknown

/-- Where looking through checkouts succeeds, an answer is remembered of each. -/
theorem known_of_dirtyAmong {cs found found' : List Checkout} {s t : Session σ}
    (hrun : dirtyAmong git cs found s = .ok found' t) {c : Checkout} (hc : c ∈ cs) : Known c t := by
  induction cs generalizing found s with
  | nil => simp at hc
  | cons c' cs ih =>
    rw [dirtyAmong] at hrun
    cases hask : c'.isDirty git s with
    | error e u => simp [bind_of_error hask] at hrun
    | ok dirty u =>
      rw [bind_of_ok hask] at hrun
      rcases List.mem_cons.1 hc with rfl | hc
      · have hkept : Action.Keeps (Known c) (dirtyAmong git cs
            (if dirty then Ordered.insert Checkout.order c found else found)) :=
          .dirtyAmong (fun c' _ => keeps_known_isDirty git c' c) _
        have hknown := hkept u (known_of_isDirty git c hask)
        rwa [hrun] at hknown
      · exact ih hrun hc

end

section

variable {git : Git.Client σ} (hgit : git.Steady) {w : Workspace} (hw : w.Lawful)

include hgit hw

/-- After a look, whatever comes of it and whatever was remembered before, all that is remembered
holds. -/
theorem flagsHold_dirtyCheckouts (s : Session σ) :
    FlagsHold git w.checkouts (reached (dirtyCheckouts git w s)) := by
  rw [dirtyCheckouts, bind_of_ok (Action.forgetAll_apply s)]
  have hask : ∀ c ∈ w.root :: w.withoutProjects ++ w.withProjects,
      Action.Keeps (FlagsHold git w.checkouts) (c.isDirty git) := fun c hc =>
    keeps_flagsHold_isDirty hgit (w.distinct_checkouts hw) ((w.mem_checkouts_iff hw).1 hc)
  exact Action.Keeps.dirtyAmong hask [] _ (flagsHold_of_forgotten rfl)

omit hgit in
/-- After a look that succeeds, an answer is remembered of every checkout. -/
theorem known_of_dirtyCheckouts {s t : Session σ} {found : List Checkout}
    (hrun : dirtyCheckouts git w s = .ok found t) {c : Checkout} (hc : c ∈ w.checkouts) :
    Known c t := by
  rw [dirtyCheckouts, bind_of_ok (Action.forgetAll_apply s)] at hrun
  exact known_of_dirtyAmong git hrun ((w.mem_checkouts_iff hw).2 hc)

/-- Where the host changes after a look that succeeded, what is remembered holds on just if no
checkout is answered differently. -/
theorem flagsHold_after_look {s t : Session σ} {found : List Checkout} (h : σ)
    (hrun : dirtyCheckouts git w s = .ok found t) :
    FlagsHold git w.checkouts { t with host := h } ↔
      ∀ c ∈ w.checkouts, git.status h c = git.status t.host c := by
  have hlook := flagsHold_dirtyCheckouts hgit hw s
  rw [hrun, reached_ok] at hlook
  constructor
  · intro hholds c hc
    obtain ⟨dirty, hflag⟩ := known_of_dirtyCheckouts hw hrun hc
    rw [hholds c hc dirty hflag, hlook c hc dirty hflag]
  · exact fun hstatus => hlook.mono fun c hc dirty hflag => ⟨hflag, hstatus c hc⟩

/-- After looking for changes what is remembered holds, unless the action failed: then it holds just
if what the action left remembered does. -/
theorem flagsHold_detectChanges_iff (action : Action σ α) (s : Session σ) :
    FlagsHold git w.checkouts (reached (detectChanges git w action s)) ↔
      ∀ before t e u, dirtyCheckouts git w s = .ok before t → action t = .error e u →
        FlagsHold git w.checkouts u := by
  have hlook := flagsHold_dirtyCheckouts hgit hw s
  rw [detectChanges]
  cases hbefore : dirtyCheckouts git w s with
  | error e t =>
    rw [hbefore] at hlook
    rw [bind_of_error hbefore]
    exact ⟨fun _ _ _ _ _ h => by simp at h, fun _ => hlook⟩
  | ok before t =>
    rw [bind_of_ok hbefore]
    cases haction : action t with
    | error e u =>
      -- the only way out without a look at the end
      rw [bind_of_error haction]
      constructor
      · rintro hholds before' t' e' u' hrun hfails
        obtain ⟨-, rfl⟩ := EStateM.Result.ok.inj hrun
        obtain ⟨-, rfl⟩ := EStateM.Result.error.inj (haction.symm.trans hfails)
        exact hholds
      · exact fun hholds => hholds before t e u rfl haction
    | ok value u =>
      have hafter := flagsHold_dirtyCheckouts hgit hw u
      rw [bind_of_ok haction]
      have hend : ∀ f : List Checkout → α × List Checkout, FlagsHold git w.checkouts
          (reached ((dirtyCheckouts git w >>= fun after => pure (f after)) u)) := fun f =>
        reached_bind hafter fun _ _ hs => hs
      refine ⟨fun _ before' t' e' u' hrun hfails => ?_, fun _ => hend _⟩
      obtain ⟨-, rfl⟩ := EStateM.Result.ok.inj hrun
      rw [haction] at hfails
      simp at hfails

end

/-- **What is remembered after looking for changes.** For every workspace, client, action and
session: unless the looks succeed up to the action and the action fails, all that is remembered
afterwards is what the client answers. Where an action on the host fails there, the answers from
before it are still remembered, so this holds just if it changed no answer. As far as it holds,
asking for a checkout and requiring clean ones come out as without a memory. -/
theorem flagsHold_detectChanges {git : Git.Client σ} (hgit : git.Steady) (root : Path)
    (roots : List Path) (poms : List Pom) (action : Action σ α) (s : Session σ) :
    let w := Workspace.ofFinds root roots poms
    let t := reached (detectChanges git w action s)
    ((∀ before s₁ e s₂, dirtyCheckouts git w s = .ok before s₁ → action s₁ ≠ .error e s₂) →
        FlagsHold git w.checkouts t) ∧
      (∀ before s₁ e h (x : EStateM Failure σ α), dirtyCheckouts git w s = .ok before s₁ →
        action = Action.onHost x → x s₁.host = .error e h →
        (FlagsHold git w.checkouts t ↔
          ∀ c ∈ w.checkouts, git.status h c = git.status s₁.host c)) ∧
      (FlagsHold git w.checkouts t →
        (∀ c ∈ w.checkouts, answer (c.isDirty git t) = git.status t.host c) ∧
        ∀ cs : List Checkout, (∀ c ∈ cs, c ∈ w.checkouts) →
          answer (ensureClean git cs t) = answer (git.ensureClean cs t.host)) := by
  intro w t
  have hw : w.Lawful := Workspace.lawful_ofFinds root roots poms
  have hiff := flagsHold_detectChanges_iff hgit hw action s
  refine ⟨fun hnever => ?_, fun before s₁ e h x hlook haction hfails => ?_, fun hholds => ⟨?_, ?_⟩⟩
  · exact hiff.2 fun before s₁ e s₂ hlook hfails => absurd hfails (hnever before s₁ e s₂ hlook)
  · have hrun : action s₁ = .error e { s₁ with host := h } := by
      rw [haction]
      exact Action.onHost_of_error hfails
    have hend : t = { s₁ with host := h } := by
      show reached (detectChanges git w action s) = _
      rw [detectChanges, bind_of_ok hlook, bind_of_error hrun]
      rfl
    rw [hend]
    exact flagsHold_after_look hgit hw h hlook
  · exact fun c hc => hholds.isDirty hc
  · exact fun cs hcs => hholds.ensureClean hgit (w.distinct_checkouts hw) hcs

/-- What is remembered no longer holds after an action that touches a checkout and then fails, while
it holds after one that touches it and succeeds. -/
theorem flagsHold_detectChanges_touching :
    let outer := Checkout.outermost ⟨["ws"]⟩
    let lib := Checkout.nested ⟨["ws", "lib"]⟩ outer.root
    let w := Workspace.ofFinds outer.root [lib.root] []
    let s := Session.start Recorder.empty
    let touching : EStateM Failure Recorder Unit := modify (·.touch lib.root)
    let crashing : EStateM Failure Recorder Unit := do
      touching
      throw (Failure.bare (.plain "tool crashed"))
    FlagsHold Recorder.client w.checkouts
        (reached (detectChanges Recorder.client w (Action.onHost touching) s)) ∧
      ¬FlagsHold Recorder.client w.checkouts
        (reached (detectChanges Recorder.client w (Action.onHost crashing) s)) := by
  intro outer lib w s touching crashing
  obtain ⟨hsucceeds, -, -⟩ := flagsHold_detectChanges Recorder.steady_client outer.root
    [lib.root] [] (Action.onHost touching) s
  obtain ⟨-, hfails, -⟩ := flagsHold_detectChanges Recorder.steady_client outer.root
    [lib.root] [] (Action.onHost crashing) s
  have hlook : answer (dirtyCheckouts Recorder.client w s) = .ok [] := by decide +kernel
  refine ⟨hsucceeds fun before s₁ e s₂ _ h => ?_, fun hholds => ?_⟩
  · simp [touching, Action.onHost] at h
  · have hstatus := (hfails _ _ _ _ crashing (eq_ok_of_answer hlook) rfl rfl).1 hholds lib
      (by decide +kernel)
    exact absurd hstatus (by decide +kernel)

/-- An action that touches a checkout and then fails leaves it remembered as clean, and it passes
for clean where clean checkouts are required. -/
theorem stale_after_failing_action :
    let outer := Checkout.outermost ⟨["ws"]⟩
    let lib := Checkout.nested ⟨["ws", "lib"]⟩ outer.root
    let w := Workspace.ofFinds outer.root [lib.root] []
    let crashing : EStateM Failure Recorder Unit := do
      modify (·.touch lib.root)
      throw (Failure.bare (.plain "tool crashed"))
    let t := reached (detectChanges Recorder.client w (Action.onHost crashing)
      (Session.start Recorder.empty))
    Recorder.client.status t.host lib = .ok true ∧
      answer (lib.isDirty Recorder.client t) = .ok false ∧
      answer (ensureClean Recorder.client [lib] t) = .ok () := by
  intro outer lib w crashing t
  exact ⟨by decide +kernel, by decide +kernel, by decide +kernel⟩

end Grove
