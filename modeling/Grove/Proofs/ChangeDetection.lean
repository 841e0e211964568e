import Grove.Proofs.Recorder
import Grove.Proofs.Workspaces
import Grove.Workflow.Changes

/-!
# Which changes an action leaves behind

A look at a workspace asks the client once for every checkout, although the outermost one may be
come across twice: everything remembered is forgotten before, and what is answered on the way is
remembered. So what a look finds is what the client answers at that time, whatever was remembered
when it began or by the look before.

## What is proved

* `dirtyAmong_apply` — looking through checkouts asks for those that come across for the first time.
* `dirtyCheckouts_apply` — a look at a workspace asks once for each of its checkouts.
* `detectChanges_exact` — the action runs once between two such looks, and what is reported was
  clean before it and is dirty after it.
-/

namespace Grove

open Git

variable {σ α : Type}

/-! ### Asking the client -/

/-- Asks for each of some checkouts whether it is dirty, and answers those that are. -/
def Git.Client.askEach (git : Git.Client σ) : List Checkout → EStateM Failure σ (List Checkout)
  | [] => pure []
  | c :: cs => do
    let dirty ← git.isDirty c.root
    let rest ← git.askEach cs
    return if dirty then c :: rest else rest

/-- The client's answer for a checkout in a state of the host. -/
def Git.Client.status (git : Git.Client σ) (h : σ) (c : Checkout) : Except Failure Bool :=
  answer (git.isDirty c.root h)

/-- Asking whether a work tree is dirty changes no answer to such a question. -/
def Git.Client.Steady (git : Git.Client σ) : Prop :=
  ∀ h root c, git.status (reached (git.isDirty root h)) c = git.status h c

namespace Git.Recorder

/-- A recorded repository is as dirty as its record says, unless the question was made to fail. -/
theorem status_client (rec : Recorder) (c : Checkout) :
    client.status rec c =
      if .isDirty ∈ (rec.repo c.root).failing then .error (simulated Kind.isDirty.name)
      else .ok (rec.repo c.root).dirty := by
  have hrepo : ({ rec with dirtyQueries := rec.dirtyQueries + 1 } : Recorder).repo c.root =
      rec.repo c.root := rfl
  simp only [Client.status, client, isDirty, ask, hrepo]
  by_cases hkind : .isDirty ∈ (rec.repo c.root).failing <;> simp [hkind]

theorem reached_isDirty (rec : Recorder) (root : Path) :
    reached (client.isDirty root rec) = { rec with dirtyQueries := rec.dirtyQueries + 1 } := by
  simp only [client, isDirty, ask]
  split <;> rfl

theorem steady_client : client.Steady := by
  intro rec root c
  rw [reached_isDirty, status_client, status_client]
  rfl

end Git.Recorder

section

variable {git : Git.Client σ} {cs : List Checkout} {h : σ}

/-- Where the client answers for every checkout, asking each finds the dirty ones. -/
theorem askEach_of_answers (hgit : git.Steady)
    (hanswers : ∀ c ∈ cs, ∃ dirty, git.status h c = .ok dirty) :
    ∃ found, answer (git.askEach cs h) = .ok found ∧
      ∀ c, c ∈ found ↔ c ∈ cs ∧ git.status h c = .ok true := by
  induction cs generalizing h with
  | nil => exact ⟨[], rfl, by simp⟩
  | cons c cs ih =>
    obtain ⟨dirty, hdirty⟩ := hanswers c List.mem_cons_self
    have hrest : ∀ c' ∈ cs, ∃ dirty,
        git.status (reached (git.isDirty c.root h)) c' = .ok dirty := by
      intro c' hc'
      rw [hgit]
      exact hanswers c' (List.mem_cons_of_mem _ hc')
    obtain ⟨found, hfound, hmem⟩ := ih hrest
    rw [Client.askEach, bind_of_ok (eq_ok_of_answer hdirty), bind_of_ok (eq_ok_of_answer hfound)]
    refine ⟨if dirty then c :: found else found, rfl, fun c' => ?_⟩
    cases dirty with
    | true =>
      simp only [if_true, List.mem_cons, hmem, hgit h c.root]
      constructor
      · rintro (rfl | ⟨hc', hstatus⟩)
        · exact ⟨.inl rfl, hdirty⟩
        · exact ⟨.inr hc', hstatus⟩
      · rintro ⟨rfl | hc', hstatus⟩
        · exact .inl rfl
        · exact .inr ⟨hc', hstatus⟩
    | false =>
      simp only [Bool.false_eq_true, if_false, List.mem_cons, hmem, hgit h c.root]
      constructor
      · exact fun ⟨hc', hstatus⟩ => ⟨.inr hc', hstatus⟩
      · rintro ⟨rfl | hc', hstatus⟩
        · rw [hdirty] at hstatus
          simp at hstatus
        · exact ⟨hc', hstatus⟩

/-- Where the client fails for a checkout, asking each fails as the client does for one of them. -/
theorem askEach_of_failure (hgit : git.Steady)
    (hfails : ∃ c ∈ cs, ∃ e, git.status h c = .error e) :
    ∃ c ∈ cs, ∃ e, git.status h c = .error e ∧ answer (git.askEach cs h) = .error e := by
  induction cs generalizing h with
  | nil => simp at hfails
  | cons c cs ih =>
    cases hstatus : git.status h c with
    | error e =>
      refine ⟨c, List.mem_cons_self, e, hstatus, ?_⟩
      rw [Client.askEach, bind_of_error (eq_error_of_answer hstatus)]
      rfl
    | ok dirty =>
      obtain ⟨c', hc', e, he⟩ := hfails
      have hne : c' ∈ cs := by
        rcases List.mem_cons.1 hc' with rfl | hc'
        · rw [hstatus] at he
          simp at he
        · exact hc'
      obtain ⟨c', hc', e, he, hask⟩ := ih (h := reached (git.isDirty c.root h))
        ⟨c', hne, e, by rw [hgit]; exact he⟩
      rw [hgit] at he
      refine ⟨c', List.mem_cons_of_mem _ hc', e, he, ?_⟩
      rw [Client.askEach, bind_of_ok (eq_ok_of_answer hstatus),
        bind_of_error (eq_error_of_answer hask)]
      rfl

end

/-! ### Looking through checkouts -/

/-- The checkouts of a list that come across for the first time, where some were seen before. -/
def firsts (seen : List Checkout) : List Checkout → List Checkout
  | [] => []
  | c :: cs => if c ∈ seen then firsts seen cs else c :: firsts (c :: seen) cs

theorem mem_firsts {seen cs : List Checkout} {c : Checkout} :
    c ∈ firsts seen cs ↔ c ∈ cs ∧ c ∉ seen := by
  induction cs generalizing seen with
  | nil => simp [firsts]
  | cons c' cs ih =>
    simp only [firsts]
    split
    · next hc' =>
      rw [ih, List.mem_cons]
      constructor
      · exact fun h => ⟨.inr h.1, h.2⟩
      · rintro ⟨rfl | hc, hseen⟩
        · exact absurd hc' hseen
        · exact ⟨hc, hseen⟩
    · next hc' =>
      rw [List.mem_cons, ih, List.mem_cons, List.mem_cons]
      by_cases heq : c = c'
      · simp [heq, hc']
      · simp [heq]

theorem nodup_firsts (seen cs : List Checkout) : (firsts seen cs).Nodup := by
  induction cs generalizing seen with
  | nil => exact List.nodup_nil
  | cons c cs ih =>
    simp only [firsts]
    split
    · exact ih seen
    · refine List.nodup_cons.2 ⟨fun hc => ?_, ih _⟩
      exact (mem_firsts.1 hc).2 List.mem_cons_self

/-- What is remembered on the way through the checkouts of `all`: the answers for those seen, which
are dirty where found, and nothing of the others. -/
structure Remembered (all seen found : List Checkout) (s : Session σ) : Prop where
  among : ∀ c ∈ seen, c ∈ all
  asked : ∀ c ∈ found, c ∈ seen
  known : ∀ c ∈ seen, Ordered.get? Path.order c.root s.dirtyFlags = some (decide (c ∈ found))
  unknown : ∀ c ∈ all, c ∉ seen → Ordered.get? Path.order c.root s.dirtyFlags = none
  increasing : Ordered.Increasing Checkout.order found

/-- No two checkouts of a list have like roots. -/
def Distinct (all : List Checkout) : Prop :=
  ∀ c ∈ all, ∀ c' ∈ all, c.same c' → c = c'

section

variable {all seen found : List Checkout} {s : Session σ} {c : Checkout}

/-- A checkout joins those found where it is dirty, and no other does. -/
theorem mem_add_iff (hall : Distinct all) (hs : Remembered all seen found s) (hc : c ∈ all)
    (hnew : c ∉ seen) (dirty : Bool) {c' : Checkout} :
    c' ∈ (if dirty then Ordered.insert Checkout.order c found else found) ↔
      c' ∈ found ∨ (dirty = true ∧ c' = c) := by
  cases dirty with
  | false => simp
  | true =>
    simp only [if_true, true_and]
    constructor
    · exact fun h => (Ordered.mem_insert _ h).symm
    · rintro (h | rfl)
      · exact Ordered.mem_insert_of_mem _ h
      · obtain ⟨y, hy, heq⟩ := Ordered.exists_mem_insert Checkout.order c' found
        rcases Ordered.mem_insert _ hy with rfl | hfound
        · exact hy
        · have hseen := hs.asked y hfound
          have := hall c' hc y (hs.among y hseen) (Checkout.same_iff_order.2 heq)
          exact absurd (this ▸ hseen) hnew

/-- An answer is remembered for its checkout and no other. -/
theorem Remembered.add (hall : Distinct all) (hs : Remembered all seen found s) (hc : c ∈ all)
    (hnew : c ∉ seen) (dirty : Bool) (host : σ) :
    Remembered all (c :: seen)
      (if dirty then Ordered.insert Checkout.order c found else found)
      { s with host, dirtyFlags := Ordered.put Path.order c.root dirty s.dirtyFlags } := by
  have hother : ∀ c' ∈ all, c' ≠ c → Ordered.get? Path.order c'.root
      (Ordered.put Path.order c.root dirty s.dirtyFlags) =
        Ordered.get? Path.order c'.root s.dirtyFlags := by
    intro c' hc' hne
    refine Ordered.get?_put_of_ne _ (fun heq => hne ?_) dirty s.dirtyFlags
    exact hall c' hc' c hc (Checkout.same_iff_order.2 heq)
  refine ⟨?_, fun c' hc' => ?_, fun c' hc' => ?_, fun c' hc' hseen => ?_, ?_⟩
  · rintro c' (_ | ⟨_, hc'⟩)
    · exact hc
    · exact hs.among c' hc'
  · rcases (mem_add_iff hall hs hc hnew dirty).1 hc' with h | ⟨-, rfl⟩
    · exact List.mem_cons_of_mem _ (hs.asked c' h)
    · exact List.mem_cons_self
  · simp only [mem_add_iff hall hs hc hnew dirty]
    rcases List.mem_cons.1 hc' with rfl | hseen
    · have hfound : c' ∉ found := fun h => hnew (hs.asked c' h)
      rw [Ordered.get?_put_self]
      cases dirty <;> simp [hfound]
    · have hne : c' ≠ c := by
        rintro rfl
        exact hnew hseen
      rw [hother c' (hs.among c' hseen) hne, hs.known c' hseen]
      simp [hne]
  · have hne : c' ≠ c := by
      rintro rfl
      exact hseen List.mem_cons_self
    rw [hother c' hc' hne]
    exact hs.unknown c' hc' fun h => hseen (List.mem_cons_of_mem _ h)
  · split
    · exact Ordered.increasing_insert _ c hs.increasing
    · exact hs.increasing

/-- What asking comes to in a session: only the host and the remembered dirt change. -/
structure AskedEach (git : Git.Client σ) (order : List Checkout) (s t : Session σ) : Prop where
  host : t.host = reached (git.askEach order s.host)
  log : t.log = s.log
  printed : t.printed = s.printed

/-- Looking through checkouts asks once for each of those that come across for the first time, and
finds the ones the client answers to be dirty. -/
theorem dirtyAmong_apply (git : Git.Client σ) (hall : Distinct all) {cs : List Checkout}
    (hcs : ∀ c ∈ cs, c ∈ all) (hs : Remembered all seen found s) :
    ∃ t, AskedEach git (firsts seen cs) s t ∧ t.snapshots = s.snapshots ∧
      match answer (git.askEach (firsts seen cs) s.host) with
      | .error e => dirtyAmong git cs found s = .error e t
      | .ok dirty => ∃ found', dirtyAmong git cs found s = .ok found' t ∧
          Ordered.Increasing Checkout.order found' ∧ ∀ c, c ∈ found' ↔ c ∈ found ∨ c ∈ dirty := by
  induction cs generalizing seen found s with
  | nil => exact ⟨s, ⟨rfl, rfl, rfl⟩, rfl, found, rfl, hs.increasing, by simp⟩
  | cons c cs ih =>
    have hc := hcs c List.mem_cons_self
    have hrest : ∀ c ∈ cs, c ∈ all := fun c hc => hcs c (List.mem_cons_of_mem _ hc)
    rw [dirtyAmong]
    by_cases hseen : c ∈ seen
    · -- the answer is remembered, and the checkout was found where it is dirty
      have hknown : c.isDirty git s = .ok (decide (c ∈ found)) s := by
        rw [Checkout.isDirty_apply, hs.known c hseen]
      have hsame : (if decide (c ∈ found) then Ordered.insert Checkout.order c found else found) =
          found := by
        by_cases hfound : c ∈ found
        · simp [hfound, Ordered.insert_of_mem _ hs.increasing hfound]
        · simp [hfound]
      rw [bind_of_ok hknown, hsame, firsts, if_pos hseen]
      exact ih hrest hs
    · have hunknown := hs.unknown c hc hseen
      rw [firsts, if_neg hseen]
      cases hask : git.isDirty c.root s.host with
      | error e host =>
        have hfails : c.isDirty git s = .error e { s with host } := by
          rw [Checkout.isDirty_apply, hunknown, hask]
        have heach : git.askEach (c :: firsts (c :: seen) cs) s.host = .error e host := by
          rw [Client.askEach, bind_of_error hask]
        rw [heach, bind_of_error hfails]
        exact ⟨{ s with host }, ⟨by rw [heach]; rfl, rfl, rfl⟩, rfl, rfl⟩
      | ok dirty host =>
        have hanswers : c.isDirty git s = .ok dirty
            { s with host, dirtyFlags := Ordered.put Path.order c.root dirty s.dirtyFlags } := by
          rw [Checkout.isDirty_apply, hunknown, hask]
        obtain ⟨t, ⟨hhost, hlog, hprinted⟩, hsnapshots, hrun⟩ :=
          ih hrest (hs.add hall hc hseen dirty host)
        rw [bind_of_ok hanswers]
        cases hothers : git.askEach (firsts (c :: seen) cs) host with
        | error e host' =>
          have heach : git.askEach (c :: firsts (c :: seen) cs) s.host = .error e host' := by
            rw [Client.askEach, bind_of_ok hask, bind_of_error hothers]
          rw [hothers] at hhost hrun
          rw [heach]
          exact ⟨t, ⟨by rw [heach, hhost], hlog, hprinted⟩, hsnapshots, hrun⟩
        | ok rest host' =>
          have heach : git.askEach (c :: firsts (c :: seen) cs) s.host =
              .ok (if dirty then c :: rest else rest) host' := by
            rw [Client.askEach, bind_of_ok hask, bind_of_ok hothers]
            rfl
          rw [hothers] at hhost hrun
          rw [heach]
          obtain ⟨found', hfound', hincreasing, hmem⟩ := hrun
          refine ⟨t, ⟨by rw [heach, hhost]; rfl, hlog, hprinted⟩, hsnapshots, found', hfound',
            hincreasing, fun c' => ?_⟩
          rw [hmem, mem_add_iff hall hs hc hseen dirty]
          cases dirty <;> simp [or_assoc]

end

/-! ### Looking at a workspace -/

/-- The checkouts of a workspace in the order in which a look asks for them. -/
def Workspace.lookOrder (w : Workspace) : List Checkout :=
  firsts [] (w.root :: w.withoutProjects ++ w.withProjects)

variable (git : Git.Client σ) {w : Workspace}

/-- A look asks for every checkout of a workspace, and for each once. -/
theorem Workspace.lookOrder_perm (hw : w.Lawful) : w.lookOrder.Perm w.checkouts := by
  have hnodup : w.lookOrder.Nodup := nodup_firsts _ _
  refine (List.perm_ext_iff_of_nodup hnodup hw.increasing.nodup).2 fun c => ?_
  rw [lookOrder, mem_firsts, mem_checkouts_iff hw]
  simp

theorem Workspace.distinct_checkouts (hw : w.Lawful) : Distinct w.checkouts :=
  fun _ hc _ hc' h => eq_of_same hw hc hc' h

/-- A look at a workspace forgets everything, asks once for each checkout, and finds those the
client answers to be dirty. -/
theorem dirtyCheckouts_apply (hw : w.Lawful) (s : Session σ) :
    ∃ t, AskedEach git w.lookOrder s t ∧
      match answer (git.askEach w.lookOrder s.host) with
      | .error e => dirtyCheckouts git w s = .error e t
      | .ok dirty => ∃ found, dirtyCheckouts git w s = .ok found t ∧
          Ordered.Increasing Checkout.order found ∧ ∀ c, c ∈ found ↔ c ∈ dirty := by
  have hnothing : Remembered w.checkouts [] []
      { s with dirtyFlags := [], snapshots := [] } :=
    ⟨by simp, by simp, by simp, fun _ _ _ => rfl, .nil⟩
  obtain ⟨t, hasked, -, hrun⟩ := dirtyAmong_apply git (w.distinct_checkouts hw)
    (fun c hc => (w.mem_checkouts_iff hw).1 hc) hnothing
  rw [dirtyCheckouts, bind_of_ok (Action.forgetAll_apply s)]
  simp only [List.not_mem_nil, false_or] at hrun
  exact ⟨t, ⟨hasked.host, hasked.log, hasked.printed⟩, hrun⟩

/-- Whether the client answers for every checkout of a workspace. -/
def Git.Client.Answers (git : Git.Client σ) (h : σ) (w : Workspace) : Prop :=
  ∀ c ∈ w.checkouts, ∃ dirty, git.status h c = .ok dirty

variable {git}

theorem dirtyCheckouts_of_answers (hgit : git.Steady) (hw : w.Lawful) {s : Session σ}
    (hanswers : git.Answers s.host w) :
    ∃ found t, dirtyCheckouts git w s = .ok found t ∧ AskedEach git w.lookOrder s t ∧
      Ordered.Increasing Checkout.order found ∧
      ∀ c, c ∈ found ↔ c ∈ w.checkouts ∧ git.status s.host c = .ok true := by
  have hperm := w.lookOrder_perm hw
  obtain ⟨t, hasked, hrun⟩ := dirtyCheckouts_apply git hw s
  obtain ⟨dirty, hdirty, hmem⟩ := askEach_of_answers hgit fun c hc =>
    hanswers c (hperm.mem_iff.1 hc)
  rw [hdirty] at hrun
  obtain ⟨found, hfound, hincreasing, hmem'⟩ := hrun
  refine ⟨found, t, hfound, hasked, hincreasing, fun c => ?_⟩
  rw [hmem', hmem, hperm.mem_iff]

theorem dirtyCheckouts_of_failure (hgit : git.Steady) (hw : w.Lawful) {s : Session σ}
    (hfails : ¬git.Answers s.host w) :
    ∃ c ∈ w.checkouts, ∃ e t, git.status s.host c = .error e ∧
      dirtyCheckouts git w s = .error e t ∧ AskedEach git w.lookOrder s t := by
  have hperm := w.lookOrder_perm hw
  obtain ⟨t, hasked, hrun⟩ := dirtyCheckouts_apply git hw s
  have hsome : ∃ c ∈ w.lookOrder, ∃ e, git.status s.host c = .error e := by
    simp only [Client.Answers, Classical.not_forall] at hfails
    obtain ⟨c, hc, hnone⟩ := hfails
    refine ⟨c, hperm.mem_iff.2 hc, ?_⟩
    cases hstatus : git.status s.host c with
    | error e => exact ⟨e, rfl⟩
    | ok dirty => exact absurd ⟨dirty, hstatus⟩ hnone
  obtain ⟨c, hc, e, hstatus, hask⟩ := askEach_of_failure hgit hsome
  rw [hask] at hrun
  exact ⟨c, hperm.mem_iff.1 hc, e, t, hstatus, hrun, hasked⟩

/-- Recorded repositories count the questions that are answered and change nothing else. -/
theorem Git.Recorder.reached_askEach {order : List Checkout} {rec : Recorder}
    (hanswers : ∀ c ∈ order, ∃ dirty, Recorder.client.status rec c = .ok dirty) :
    reached (Recorder.client.askEach order rec) =
      { rec with dirtyQueries := rec.dirtyQueries + order.length } := by
  induction order generalizing rec with
  | nil => rfl
  | cons c cs ih =>
    obtain ⟨dirty, hdirty⟩ := hanswers c List.mem_cons_self
    have hrest : ∀ c' ∈ cs, ∃ dirty,
        Recorder.client.status (reached (Recorder.client.isDirty c.root rec)) c' = .ok dirty := by
      intro c' hc'
      rw [Recorder.steady_client]
      exact hanswers c' (List.mem_cons_of_mem _ hc')
    have hcount : rec.dirtyQueries + (cs.length + 1) = rec.dirtyQueries + 1 + cs.length := by
      omega
    have hreached := ih hrest
    rw [Client.askEach, bind_of_ok (eq_ok_of_answer hdirty), bind_apply, List.length_cons, hcount]
    rw [Recorder.reached_isDirty] at hreached ⊢
    cases hask : Recorder.client.askEach cs { rec with dirtyQueries := rec.dirtyQueries + 1 } with
    | ok found rec' => rw [hask] at hreached; exact hreached
    | error e rec' => rw [hask] at hreached; exact hreached

theorem AskedEach.host_recorded {order : List Checkout} {s t : Session Recorder}
    (h : AskedEach Recorder.client order s t)
    (hanswers : ∀ c ∈ order, ∃ dirty, Recorder.client.status s.host c = .ok dirty) :
    t.host = { s.host with dirtyQueries := s.host.dirtyQueries + order.length } := by
  rw [h.host, Recorder.reached_askEach hanswers]

/-! ### Detecting changes -/

theorem isIn_iff {all cs : List Checkout} {c : Checkout} (hall : Distinct all) (hc : c ∈ all)
    (hcs : ∀ c ∈ cs, c ∈ all) : c.isIn cs ↔ c ∈ cs := by
  rw [Checkout.isIn, List.any_eq_true]
  constructor
  · rintro ⟨c', hc', hsame⟩
    rwa [hall c hc c' (hcs c' hc') hsame]
  · exact fun h => ⟨c, h, Path.alike_self c.root⟩

/-- The checkouts found dirty by the later of two looks and not by the earlier one became dirty in
between. -/
theorem mem_new_iff {all before after : List Checkout} {h h' : σ} {c : Checkout}
    (hall : Distinct all) (hanswers : ∀ c ∈ all, ∃ dirty, git.status h c = .ok dirty)
    (hbefore : ∀ c, c ∈ before ↔ c ∈ all ∧ git.status h c = .ok true)
    (hafter : ∀ c, c ∈ after ↔ c ∈ all ∧ git.status h' c = .ok true) :
    c ∈ after.filter (fun c => !c.isIn before) ↔
      c ∈ all ∧ git.status h c = .ok false ∧ git.status h' c = .ok true := by
  have hisIn : c ∈ all → (c.isIn before ↔ c ∈ before) := fun hc =>
    isIn_iff hall hc fun c' hc' => ((hbefore c').1 hc').1
  rw [List.mem_filter, hafter, Bool.not_eq_true']
  constructor
  · rintro ⟨⟨hc, hdirty⟩, hnew⟩
    obtain ⟨dirty, hstatus⟩ := hanswers c hc
    refine ⟨hc, ?_, hdirty⟩
    cases dirty with
    | false => exact hstatus
    | true => exact absurd ((hisIn hc).2 ((hbefore c).2 ⟨hc, hstatus⟩)) (by simp [hnew])
  · rintro ⟨hc, hclean, hdirty⟩
    refine ⟨⟨hc, hdirty⟩, Bool.eq_false_iff.2 fun hold => ?_⟩
    have hstatus := ((hbefore c).1 ((hisIn hc).1 hold)).2
    rw [hclean] at hstatus
    simp at hstatus

/-- **Detection is exact.** For every workspace, action and session, whatever is remembered at the
start: a look asks the client once for each checkout, the action runs once from there, and a second
look asks once for each again. What is reported is in the workspace, was clean before the action and
is dirty after it. The first of the three that fails tells its error, and what follows it is left
out. -/
theorem detectChanges_exact (hgit : git.Steady) (root : Path) (roots : List Path)
    (poms : List Pom) (action : Action σ α) (s : Session σ) :
    let w := Workspace.ofFinds root roots poms
    ∃ order s₁, order.Perm w.checkouts ∧ AskedEach git order s s₁ ∧
      (¬git.Answers s.host w → ∃ c ∈ w.checkouts, ∃ e, git.status s.host c = .error e ∧
        detectChanges git w action s = .error e s₁) ∧
      (git.Answers s.host w →
        (∀ e s₂, action s₁ = .error e s₂ → detectChanges git w action s = .error e s₂) ∧
        ∀ value s₂, action s₁ = .ok value s₂ → ∃ s₃, AskedEach git order s₂ s₃ ∧
          (¬git.Answers s₂.host w → ∃ c ∈ w.checkouts, ∃ e, git.status s₂.host c = .error e ∧
            detectChanges git w action s = .error e s₃) ∧
          (git.Answers s₂.host w → ∃ found,
            detectChanges git w action s = .ok (value, found) s₃ ∧
            Ordered.Increasing Checkout.order found ∧
            ∀ c, c ∈ found ↔ c ∈ w.checkouts ∧ git.status s.host c = .ok false ∧
              git.status s₂.host c = .ok true)) := by
  intro w
  have hw : w.Lawful := Workspace.lawful_ofFinds root roots poms
  have hperm := w.lookOrder_perm hw
  by_cases hbefore : git.Answers s.host w
  · obtain ⟨before, s₁, hrun, hasked, -, hmem⟩ := dirtyCheckouts_of_answers hgit hw hbefore
    have hstart : detectChanges git w action s = (do
        let value ← action
        let after ← dirtyCheckouts git w
        return (value, after.filter fun c => !c.isIn before) : Action σ (α × List Checkout)) s₁ :=
      bind_of_ok hrun
    rw [hstart]
    refine ⟨w.lookOrder, s₁, hperm, hasked, fun h => absurd hbefore h, fun _ => ⟨?_, ?_⟩⟩
    · exact fun e s₂ haction => bind_of_error haction
    · intro value s₂ haction
      rw [bind_of_ok haction]
      by_cases hafter : git.Answers s₂.host w
      · obtain ⟨after, s₃, hrun', hasked', hincreasing, hmem'⟩ :=
          dirtyCheckouts_of_answers hgit hw hafter
        refine ⟨s₃, hasked', fun h => absurd hafter h, fun _ => ?_⟩
        rw [bind_of_ok hrun']
        exact ⟨_, rfl, hincreasing.filter _, fun c =>
          mem_new_iff (w.distinct_checkouts hw) hbefore hmem hmem'⟩
      · obtain ⟨c, hc, e, s₃, hstatus, hrun', hasked'⟩ := dirtyCheckouts_of_failure hgit hw hafter
        exact ⟨s₃, hasked', fun _ => ⟨c, hc, e, hstatus, bind_of_error hrun'⟩,
          fun h => absurd h hafter⟩
  · obtain ⟨c, hc, e, s₁, hstatus, hrun, hasked⟩ := dirtyCheckouts_of_failure hgit hw hbefore
    exact ⟨w.lookOrder, s₁, hperm, hasked, fun _ => ⟨c, hc, e, hstatus, bind_of_error hrun⟩,
      fun h => absurd h hbefore⟩

/-- An action that touches one of two clean checkouts is found to have changed that one, by four
questions. -/
theorem detectChanges_exact_touched :
    let lib : Path := ⟨["lib"]⟩
    let w := Workspace.ofFinds ⟨["."]⟩ [lib] []
    let s : Session Recorder := Session.start Recorder.empty
    let touching : Action Recorder Unit := Action.onHost (modify (·.touch lib))
    ∃ found t, detectChanges Recorder.client w touching s = .ok ((), found) t ∧
      t.host.dirtyQueries = 4 ∧ ∀ c, c ∈ found ↔ c ∈ w.checkouts ∧ c.root.alike lib := by
  intro lib w s touching
  have hanswers : ∀ h : Recorder, (∀ root, (h.repo root).failing = []) →
      ∀ c, Recorder.client.status h c = .ok (h.repo c.root).dirty := by
    intro h hfailing c
    rw [Recorder.status_client, hfailing]
    rfl
  have hlength : w.checkouts.length = 2 := by decide +kernel
  have hempty : ∀ n root, (⟨[], [], n⟩ : Recorder).repo root = .empty := fun _ _ => rfl
  have htouched : ∀ n root, ((⟨[], [], n⟩ : Recorder).touch lib).repo root =
      { Repo.empty with dirty := root.alike lib } := by
    intro n root
    rw [Recorder.touch, Recorder.repo_put, hempty, hempty]
    cases root.alike lib <;> rfl
  have hbefore : ∀ c, Recorder.client.status s.host c = .ok false :=
    hanswers s.host fun root => congrArg Repo.failing (hempty 0 root)
  obtain ⟨order, s₁, hperm, hasked, -, hrun⟩ := detectChanges_exact Recorder.steady_client ⟨["."]⟩
    [lib] [] touching s
  obtain ⟨-, hrun⟩ := hrun fun c _ => ⟨_, hbefore c⟩
  have hhost : s₁.host = ⟨[], [], 2⟩ := by
    rw [hasked.host_recorded fun c _ => ⟨_, hbefore c⟩, hperm.length_eq, hlength]
    rfl
  have hafter : ∀ c, Recorder.client.status (s₁.host.touch lib) c = .ok (c.root.alike lib) := by
    intro c
    rw [hhost, hanswers _ (fun root => congrArg Repo.failing (htouched _ root)), htouched]
  obtain ⟨s₃, hasked', -, hrun⟩ := hrun () { s₁ with host := s₁.host.touch lib } rfl
  obtain ⟨found, hfound, -, hmem⟩ := hrun fun c _ => ⟨_, hafter c⟩
  refine ⟨found, s₃, hfound, ?_, fun c => ?_⟩
  · rw [hasked'.host_recorded fun c _ => ⟨_, hafter c⟩, hperm.length_eq, hlength, hhost]
    rfl
  · rw [hmem, hbefore, hafter]
    simp [w]

end Grove
