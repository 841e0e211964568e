import Mathlib.Data.List.Induction
import Mathlib.Data.List.Perm.Basic
import Grove.Statistics.Workers

/-!
# Steps of a pool of workers

Whatever the order of the turns, each project of the queue is taken once, and what a worker holds
will be handed on and counted once. So when all workers are done, each project was either passed or
had its scores handed on, and all that was counted. A worker that is not done can always take a
turn, and turns lead to an end.

## What is proved

* `turn_cases` — a turn is no turn, or one of five steps.
* `Ledger.step`, `Ledger.run` — what steps preserve: all projects are accounted for.
* `Ledger.of_finished` — what that comes to in the end.
* `exists_finished_run` — every run can be finished.
-/

namespace Grove

namespace ScanSummary

theorem of_concat (outcomes : List ScanOutcome) (o : ScanOutcome) :
    of (outcomes ++ [o]) = (of outcomes).add o := by
  rw [of, List.foldl_append]
  rfl

/-- A summary does not depend on the order of the outcomes. -/
theorem of_perm {outcomes outcomes' : List ScanOutcome} (h : outcomes.Perm outcomes') :
    of outcomes = of outcomes' := by
  have hcomm : RightCommutative add := ⟨fun s o o' => by cases o <;> cases o' <;> rfl⟩
  exact h.foldl_eq none

/-- A summary counts every outcome once. -/
theorem total_of (outcomes : List ScanOutcome) :
    (of outcomes).scanned + (of outcomes).skipped + (of outcomes).failed = outcomes.length := by
  induction outcomes using List.reverseRecOn with
  | nil => rfl
  | append_singleton outcomes o ih =>
    rw [of_concat, List.length_append, List.length_singleton, ← ih]
    cases o <;> simp only [add] <;> omega

/-- Where none was skipped and none failed, all were scanned. -/
theorem forall_eq_scanned {outcomes : List ScanOutcome} (hskipped : (of outcomes).skipped = 0)
    (hfailed : (of outcomes).failed = 0) : ∀ o ∈ outcomes, o = .scanned := by
  induction outcomes using List.reverseRecOn with
  | nil => simp
  | append_singleton outcomes o ih =>
    rw [of_concat] at hskipped hfailed
    cases o with
    | scanned => exact List.forall_mem_append.2 ⟨ih hskipped hfailed, by simp⟩
    | skipped => simp [add] at hskipped
    | failed cause => simp [add] at hfailed

end ScanSummary

namespace Pool

variable {σ : Type} (files : σ → Files) (scorer : Scorer) (glob? : Option String)
  (deliver : Pom → Scores → EStateM Breakdown σ Unit)

/-! ### Steps -/

/-- One step of the worker that stands between some others. -/
inductive Step (p : Pool σ) : Pool σ → Prop where
  | leave {before after : List Worker} (workers : p.workers = before ++ .idle :: after)
      (queue : p.queue = []) : Step p { p with workers := before ++ .done :: after }
  | take {before after : List Worker} {pom : Pom} {rest : List Pom}
      (workers : p.workers = before ++ .idle :: after) (queue : p.queue = pom :: rest) :
      Step p { p with
        queue := rest
        taken := p.taken ++ [pom]
        workers := before ++ .scoring pom :: after }
  | score {before after : List Worker} {pom : Pom}
      (workers : p.workers = before ++ .scoring pom :: after) :
      Step p { p with
        workers := before ++
          afterScoring pom (Scores.ofProject scorer glob? (files p.shared) pom) :: after }
  | handOn {before after : List Worker} {pom : Pom} {scores : Scores}
      (workers : p.workers = before ++ .delivering pom scores :: after) :
      Step p { p with
        workers := before ++ .counting (Grove.handOn deliver pom scores p.shared).1 :: after
        delivered := p.delivered ++ [(pom, scores)]
        shared := (Grove.handOn deliver pom scores p.shared).2 }
  | count {before after : List Worker} {outcome : ScanOutcome}
      (workers : p.workers = before ++ .counting outcome :: after) :
      Step p { p with
        workers := before ++ .idle :: after
        summary := p.summary.add outcome }

/-- A worker stands between others, and a change of its own leaves those. -/
theorem exists_split {ws : List Worker} {i : Nat} {w : Worker} (h : ws[i]? = some w) :
    ∃ before after, ws = before ++ w :: after ∧ ∀ w', ws.set i w' = before ++ w' :: after := by
  induction ws generalizing i with
  | nil => simp at h
  | cons w₀ ws ih =>
    cases i with
    | zero =>
      obtain rfl : w₀ = w := by simpa using h
      exact ⟨[], ws, rfl, fun _ => rfl⟩
    | succ i =>
      obtain ⟨before, after, rfl, hset⟩ := ih (by simpa using h)
      exact ⟨w₀ :: before, after, rfl, fun w' => congrArg (w₀ :: ·) (hset w')⟩

/-- A turn is one step, unless the worker is done or there is none. -/
theorem turn_cases (p : Pool σ) (i : Nat) :
    (turn files scorer glob? deliver p i = p ∧ ∀ w, p.workers[i]? = some w → w = .done) ∨
      Step files scorer glob? deliver p (turn files scorer glob? deliver p i) := by
  rw [turn]
  cases hworker : p.workers[i]? with
  | none => exact .inl ⟨rfl, by simp⟩
  | some w =>
    obtain ⟨before, after, hworkers, hset⟩ := exists_split hworker
    cases w with
    | done => exact .inl ⟨rfl, by simp [eq_comm]⟩
    | idle =>
      right
      dsimp only
      cases hqueue : p.queue with
      | nil =>
        dsimp only
        rw [hset, ← hqueue]
        exact .leave hworkers hqueue
      | cons pom rest =>
        dsimp only
        rw [hset]
        exact .take hworkers hqueue
    | scoring pom =>
      dsimp only
      rw [hset]
      exact .inr (.score hworkers)
    | delivering pom scores =>
      dsimp only
      rw [hset]
      exact .inr (.handOn hworkers)
    | counting outcome =>
      dsimp only
      rw [hset]
      exact .inr (.count hworkers)

/-! ### What becomes of the projects -/

/-- Hands scores on one after the other and tells what became of each. -/
def handOnAll : List (Pom × Scores) → σ → List ScanOutcome × σ
  | [], s => ([], s)
  | (pom, scores) :: rest, s =>
    let (outcome, t) := handOn deliver pom scores s
    let (outcomes, t) := handOnAll rest t
    (outcome :: outcomes, t)

theorem handOnAll_concat (calls : List (Pom × Scores)) (pom : Pom) (scores : Scores) (s : σ) :
    handOnAll deliver (calls ++ [(pom, scores)]) s =
      ((handOnAll deliver calls s).1 ++
          [(handOn deliver pom scores (handOnAll deliver calls s).2).1],
        (handOn deliver pom scores (handOnAll deliver calls s).2).2) := by
  induction calls generalizing s with
  | nil => rfl
  | cons call calls ih =>
    obtain ⟨pom', scores'⟩ := call
    simp only [List.cons_append, handOnAll, ih]

/-- The project a worker is at. -/
def pomsIn : Worker → List Pom
  | .scoring pom | .delivering pom _ => [pom]
  | .counting _ | .idle | .done => []

/-- What a worker is about to hand on. -/
def deliveriesIn : Worker → List (Pom × Scores)
  | .delivering pom scores => [(pom, scores)]
  | .scoring _ | .counting _ | .idle | .done => []

/-- What a worker is about to count. -/
def outcomesIn : Worker → List ScanOutcome
  | .counting outcome => [outcome]
  | .scoring _ | .delivering .. | .idle | .done => []

/-- A project comes to an outcome without scores, or its scores are to be handed on. -/
theorem afterScoring_cases (pom : Pom) (result : Except Breakdown (Option Scores)) :
    (∃ outcome, afterScoring pom result = .counting outcome) ∨
      ∃ scores, result = .ok (some scores) ∧ afterScoring pom result = .delivering pom scores := by
  rcases result with e | _ | scores
  · exact .inl ⟨_, rfl⟩
  · exact .inl ⟨_, rfl⟩
  · exact .inr ⟨scores, rfl, rfl⟩

/-- What has become of every project of a queue: it waits to be taken, a worker is at it, it was
passed with an outcome and no scores, or its scores were handed on. Projects are scored after some
of the scores were handed on that have been by now. -/
structure Ledger (s₀ : σ) (queued : List Pom) (p : Pool σ) (passed : List (Pom × ScanOutcome))
    (counted : List ScanOutcome) : Prop where
  taken : p.taken ++ p.queue = queued
  left : .done ∈ p.workers → p.queue = []
  shared : p.shared = (handOnAll deliver p.delivered s₀).2
  poms : (passed.map (·.1) ++ p.delivered.map (·.1) ++ p.workers.flatMap pomsIn).Perm p.taken
  summary : p.summary = .of counted
  outcomes : (counted ++ p.workers.flatMap outcomesIn).Perm
    (passed.map (·.2) ++ (handOnAll deliver p.delivered s₀).1)
  judged : ∀ x ∈ passed, ∃ earlier, earlier <+: p.delivered ∧
    afterScoring x.1 (Scores.ofProject scorer glob? (files (handOnAll deliver earlier s₀).2) x.1) =
      .counting x.2
  scored : ∀ d ∈ p.delivered ++ p.workers.flatMap deliveriesIn, ∃ earlier,
    earlier <+: p.delivered ∧
      Scores.ofProject scorer glob? (files (handOnAll deliver earlier s₀).2) d.1 = .ok (some d.2)

/-- Workers that all hold nothing hold nothing together. -/
theorem flatMap_of_forall_eq {α : Type} {f : Worker → List α} {ws : List Worker} {w : Worker}
    (hws : ∀ v ∈ ws, v = w) (hf : f w = []) : ws.flatMap f = [] :=
  List.flatMap_eq_nil_iff.2 fun v hv => by rw [hws v hv, hf]

/-- A worker comes to hold something else: what the others hold stays. -/
theorem perm_exchange {α β : Type} {f : α → List β} {before after : List α} {w : α}
    {xs ys : List β} (xs' : List β) (w' : α) (ys' : List β)
    (h : (xs ++ (before ++ w :: after).flatMap f).Perm ys)
    (hchange : (xs' ++ f w' ++ ys).Perm (xs ++ f w ++ ys')) :
    (xs' ++ (before ++ w' :: after).flatMap f).Perm ys' := by
  classical
  rw [List.perm_iff_count] at h hchange ⊢
  intro b
  have hb := h b
  have hchangeb := hchange b
  simp only [List.flatMap_append, List.flatMap_cons, List.count_append] at hb hchangeb ⊢
  omega

section

variable {files scorer glob? deliver} {s₀ : σ} {queued : List Pom} {p q : Pool σ}
  {passed : List (Pom × ScanOutcome)} {counted : List ScanOutcome} {before after : List Worker}
  {pom : Pom} {rest : List Pom} {scores : Scores} {outcome : ScanOutcome}

/-- A worker that leaves holds nothing. -/
theorem Ledger.step_leave (hp : Ledger files scorer glob? deliver s₀ queued p passed counted)
    (hworkers : p.workers = before ++ .idle :: after) (hqueue : p.queue = []) :
    Ledger files scorer glob? deliver s₀ queued { p with workers := before ++ .done :: after }
      passed counted := by
  obtain ⟨htaken, -, hshared, hpoms, hsummary, houtcomes, hjudged, hscored⟩ := hp
  rw [hworkers] at hpoms houtcomes hscored
  refine ⟨htaken, fun _ => hqueue, hshared, ?_, hsummary, ?_, hjudged, ?_⟩
  · exact perm_exchange _ .done _ hpoms (.refl _)
  · exact perm_exchange _ .done _ houtcomes (.refl _)
  · simpa [deliveriesIn] using hscored

/-- A worker that takes a project is at it from then on. -/
theorem Ledger.step_take (hp : Ledger files scorer glob? deliver s₀ queued p passed counted)
    (hworkers : p.workers = before ++ .idle :: after) (hqueue : p.queue = pom :: rest) :
    Ledger files scorer glob? deliver s₀ queued
      { p with
        queue := rest
        taken := p.taken ++ [pom]
        workers := before ++ .scoring pom :: after }
      passed counted := by
  obtain ⟨htaken, hleft, hshared, hpoms, hsummary, houtcomes, hjudged, hscored⟩ := hp
  have hnone : .done ∉ p.workers := fun h => by simp [hleft h] at hqueue
  rw [hworkers] at hpoms houtcomes hscored hnone
  refine ⟨?_, fun h => ?_, hshared, ?_, hsummary, ?_, hjudged, ?_⟩
  · rw [← htaken, hqueue, List.append_assoc, List.singleton_append]
  · simp only [List.mem_append, List.mem_cons, not_or] at h hnone
    simp [hnone] at h
  · refine perm_exchange _ (.scoring pom) _ hpoms (List.perm_iff_count.2 fun b => ?_)
    simp only [pomsIn, List.count_append, List.count_nil]
    omega
  · exact perm_exchange _ (.scoring pom) _ houtcomes (.refl _)
  · simpa [deliveriesIn] using hscored

/-- A project that has no scores is passed with its outcome. -/
theorem Ledger.step_pass (hp : Ledger files scorer glob? deliver s₀ queued p passed counted)
    (hworkers : p.workers = before ++ .scoring pom :: after)
    (hcase : afterScoring pom (Scores.ofProject scorer glob? (files p.shared) pom) =
      .counting outcome) :
    Ledger files scorer glob? deliver s₀ queued
      { p with workers := before ++ .counting outcome :: after }
      (passed ++ [(pom, outcome)]) counted := by
  obtain ⟨htaken, hleft, hshared, hpoms, hsummary, houtcomes, hjudged, hscored⟩ := hp
  rw [hworkers] at hpoms houtcomes hscored hleft
  refine ⟨htaken, fun h => hleft (by simpa using h), hshared, ?_, hsummary, ?_, ?_, ?_⟩
  · refine perm_exchange _ (.counting outcome) _ hpoms (List.perm_iff_count.2 fun b => ?_)
    simp only [pomsIn, List.map_append, List.map_singleton, List.count_append, List.count_nil]
    omega
  · refine perm_exchange _ (.counting outcome) _ houtcomes (List.perm_iff_count.2 fun b => ?_)
    simp only [outcomesIn, List.map_append, List.map_singleton, List.count_append, List.count_nil]
    omega
  · refine List.forall_mem_append.2 ⟨hjudged, List.forall_mem_singleton.2 ?_⟩
    exact ⟨p.delivered, List.prefix_rfl, by rw [← hshared, hcase]⟩
  · simpa [deliveriesIn] using hscored

/-- The scores of a project are held until they are handed on. -/
theorem Ledger.step_hold (hp : Ledger files scorer glob? deliver s₀ queued p passed counted)
    (hworkers : p.workers = before ++ .scoring pom :: after)
    (hresult : Scores.ofProject scorer glob? (files p.shared) pom = .ok (some scores)) :
    Ledger files scorer glob? deliver s₀ queued
      { p with workers := before ++ .delivering pom scores :: after } passed counted := by
  obtain ⟨htaken, hleft, hshared, hpoms, hsummary, houtcomes, hjudged, hscored⟩ := hp
  rw [hworkers] at hpoms houtcomes hscored hleft
  refine ⟨htaken, fun h => hleft (by simpa using h), hshared, ?_, hsummary, ?_, hjudged, ?_⟩
  · exact perm_exchange _ (.delivering pom scores) _ hpoms (.refl _)
  · exact perm_exchange _ (.delivering pom scores) _ houtcomes (.refl _)
  · intro d hd
    simp only [List.flatMap_append, List.flatMap_cons, List.mem_append, deliveriesIn,
      List.mem_singleton] at hd hscored
    rcases hd with hd | hd | rfl | hd
    · exact hscored d (.inl hd)
    · exact hscored d (.inr (.inl hd))
    · exact ⟨p.delivered, List.prefix_rfl, by rw [← hshared, hresult]⟩
    · exact hscored d (.inr (.inr (.inr hd)))

/-- Scores that are handed on come to an outcome that waits to be counted. -/
theorem Ledger.step_handOn (hp : Ledger files scorer glob? deliver s₀ queued p passed counted)
    (hworkers : p.workers = before ++ .delivering pom scores :: after) :
    Ledger files scorer glob? deliver s₀ queued
      { p with
        workers := before ++ .counting (Grove.handOn deliver pom scores p.shared).1 :: after
        delivered := p.delivered ++ [(pom, scores)]
        shared := (Grove.handOn deliver pom scores p.shared).2 }
      passed counted := by
  obtain ⟨htaken, hleft, hshared, hpoms, hsummary, houtcomes, hjudged, hscored⟩ := hp
  rw [hworkers] at hpoms houtcomes hscored hleft
  refine ⟨htaken, fun h => hleft (by simpa using h), ?_, ?_, hsummary, ?_, fun x hx => ?_,
    fun d hd => ?_⟩
  · rw [handOnAll_concat, ← hshared]
  · refine perm_exchange _ (.counting _) _ hpoms (List.perm_iff_count.2 fun b => ?_)
    simp only [pomsIn, List.map_append, List.map_singleton, List.count_append, List.count_nil]
    omega
  · rw [handOnAll_concat, ← hshared]
    refine perm_exchange _ (.counting _) _ houtcomes (List.perm_iff_count.2 fun b => ?_)
    simp only [outcomesIn, List.count_append, List.count_nil]
    omega
  · obtain ⟨earlier, hearlier, h⟩ := hjudged x hx
    exact ⟨earlier, hearlier.trans (List.prefix_append ..), h⟩
  · obtain ⟨earlier, hearlier, h⟩ := hscored d (by
      simp only [List.flatMap_append, List.flatMap_cons, List.mem_append, deliveriesIn,
        List.mem_singleton, List.not_mem_nil, false_or] at hd ⊢
      tauto)
    exact ⟨earlier, hearlier.trans (List.prefix_append ..), h⟩

/-- An outcome is counted once, and then the worker is free again. -/
theorem Ledger.step_count (hp : Ledger files scorer glob? deliver s₀ queued p passed counted)
    (hworkers : p.workers = before ++ .counting outcome :: after) :
    Ledger files scorer glob? deliver s₀ queued
      { p with
        workers := before ++ .idle :: after
        summary := p.summary.add outcome }
      passed (counted ++ [outcome]) := by
  obtain ⟨htaken, hleft, hshared, hpoms, hsummary, houtcomes, hjudged, hscored⟩ := hp
  rw [hworkers] at hpoms houtcomes hscored hleft
  refine ⟨htaken, fun h => hleft (by simpa using h), hshared, ?_, ?_, ?_, hjudged, ?_⟩
  · exact perm_exchange _ .idle _ hpoms (.refl _)
  · rw [hsummary, ScanSummary.of_concat]
  · refine perm_exchange _ .idle _ houtcomes (List.perm_iff_count.2 fun b => ?_)
    simp only [outcomesIn, List.count_append, List.count_nil]
    omega
  · simpa [deliveriesIn] using hscored

/-- A step accounts for all that was accounted for before. -/
theorem Ledger.step (hp : Ledger files scorer glob? deliver s₀ queued p passed counted)
    (hstep : Step files scorer glob? deliver p q) :
    ∃ passed counted, Ledger files scorer glob? deliver s₀ queued q passed counted := by
  cases hstep with
  | leave hworkers hqueue => exact ⟨_, _, hp.step_leave hworkers hqueue⟩
  | take hworkers hqueue => exact ⟨_, _, hp.step_take hworkers hqueue⟩
  | @score before after pom hworkers =>
    rcases afterScoring_cases pom (Scores.ofProject scorer glob? (files p.shared) pom) with
      ⟨outcome, hcase⟩ | ⟨scores, hresult, hcase⟩
    · rw [hcase]
      exact ⟨_, _, hp.step_pass hworkers hcase⟩
    · rw [hcase]
      exact ⟨_, _, hp.step_hold hworkers hresult⟩
  | handOn hworkers => exact ⟨_, _, hp.step_handOn hworkers⟩
  | count hworkers => exact ⟨_, _, hp.step_count hworkers⟩

/-- A run accounts for all projects, whatever the schedule. -/
theorem Ledger.run (hp : Ledger files scorer glob? deliver s₀ queued p passed counted)
    (schedule : List Nat) :
    ∃ passed counted, Ledger files scorer glob? deliver s₀ queued
      (p.run files scorer glob? deliver schedule) passed counted := by
  induction schedule generalizing p passed counted with
  | nil => exact ⟨passed, counted, hp⟩
  | cons i schedule ih =>
    rcases turn_cases files scorer glob? deliver p i with ⟨hsame, -⟩ | hstep
    · exact ih (hsame.symm ▸ hp)
    · obtain ⟨passed', counted', hq⟩ := hp.step hstep
      exact ih hq

/-- Before the first turn all projects wait to be taken. -/
theorem ledger_start (threads : Nat) (poms : List Pom) :
    Ledger files scorer glob? deliver s₀ (poms.filter fun pom => !pom.isAggregator)
      (start threads poms s₀) [] [] := by
  have hidle : ∀ w ∈ (start threads poms s₀).workers, w = .idle := fun w hw =>
    List.eq_of_mem_replicate hw
  refine ⟨rfl, fun h => ?_, rfl, ?_, rfl, ?_, by simp, ?_⟩
  · cases hidle _ h
  · rw [flatMap_of_forall_eq hidle rfl]
    exact .refl _
  · rw [flatMap_of_forall_eq hidle rfl]
    exact .refl _
  · rw [flatMap_of_forall_eq hidle rfl]
    simp [start]

/-- When all workers are done, each project of the queue was passed or its scores were handed on,
and all of that was counted. -/
theorem Ledger.of_finished (hp : Ledger files scorer glob? deliver s₀ queued p passed counted)
    (hworkers : p.workers ≠ []) (hfinished : p.finished = true) :
    p.taken = queued ∧
      (passed.map (·.1) ++ p.delivered.map (·.1)).Perm queued ∧
      counted.Perm (passed.map (·.2) ++ (handOnAll deliver p.delivered s₀).1) := by
  have hdone : ∀ w ∈ p.workers, w = .done := by simpa [finished] using hfinished
  obtain ⟨w, rest, hw⟩ := List.exists_cons_of_ne_nil hworkers
  have hqueue : p.queue = [] := hp.left (by
    rw [← hdone w (by simp [hw]), hw]
    exact List.mem_cons_self)
  have htaken := hp.taken
  have hpoms := hp.poms
  have houtcomes := hp.outcomes
  rw [hqueue, List.append_nil] at htaken
  rw [flatMap_of_forall_eq hdone rfl, List.append_nil, htaken] at hpoms
  rw [flatMap_of_forall_eq hdone rfl, List.append_nil] at houtcomes
  exact ⟨htaken, hpoms, houtcomes⟩

theorem afterScoring_ne_scanned (pom : Pom) (result : Except Breakdown (Option Scores)) :
    afterScoring pom result ≠ .counting .scanned := by
  rcases result with e | _ | scores <;> simp [afterScoring]

/-- When all workers are done and nothing was skipped or failed, the scores of each project of the
queue were handed on, and all of that went well. -/
theorem Ledger.of_all_scanned
    (hp : Ledger files scorer glob? deliver s₀ queued p passed counted)
    (hworkers : p.workers ≠ []) (hfinished : p.finished = true) (hskipped : p.summary.skipped = 0)
    (hfailed : p.summary.failed = 0) :
    (p.delivered.map (·.1)).Perm queued ∧
      ∀ o ∈ (handOnAll deliver p.delivered s₀).1, o = .scanned := by
  obtain ⟨-, hpoms, hcounted⟩ := hp.of_finished hworkers hfinished
  rw [hp.summary] at hskipped hfailed
  have hall : ∀ o ∈ passed.map (·.2) ++ (handOnAll deliver p.delivered s₀).1, o = .scanned :=
    fun o ho => ScanSummary.forall_eq_scanned hskipped hfailed o (hcounted.mem_iff.2 ho)
  obtain ⟨hpassed, hdelivered⟩ := List.forall_mem_append.1 hall
  have hnone : passed = [] := List.eq_nil_iff_forall_not_mem.2 fun x hx => by
    obtain ⟨earlier, -, hcase⟩ := hp.judged x hx
    rw [hpassed _ (List.mem_map_of_mem hx)] at hcase
    exact afterScoring_ne_scanned _ _ hcase
  rw [hnone, List.map_nil, List.nil_append] at hpoms
  exact ⟨hpoms, hdelivered⟩

end

/-! ### Ends -/

/-- How many turns a worker has left for the project it is at, and one to leave. -/
def turnsLeft : Worker → Nat
  | .done => 0
  | .idle => 1
  | .counting _ => 2
  | .delivering .. => 3
  | .scoring _ => 4

/-- How many turns some workers have left for what they are at. -/
def turnsLeftOf : List Worker → Nat
  | [] => 0
  | w :: ws => turnsLeft w + turnsLeftOf ws

@[simp] theorem turnsLeftOf_append (ws ws' : List Worker) :
    turnsLeftOf (ws ++ ws') = turnsLeftOf ws + turnsLeftOf ws' := by
  induction ws with
  | nil => simp [turnsLeftOf]
  | cons w ws ih => simp [turnsLeftOf, ih, Nat.add_assoc]

/-- How many turns a pool has left at most. -/
def measure (p : Pool σ) : Nat :=
  4 * p.queue.length + turnsLeftOf p.workers

section

variable {files scorer glob? deliver} {p q : Pool σ}

/-- A step brings the end nearer. -/
theorem Step.measure_lt (h : Step files scorer glob? deliver p q) : q.measure < p.measure := by
  cases h with
  | leave hworkers hqueue => simp [measure, hworkers, turnsLeftOf, turnsLeft]
  | take hworkers hqueue =>
    simp [measure, hworkers, hqueue, turnsLeftOf, turnsLeft]
    omega
  | @score _ _ pom hworkers =>
    rcases hscored : Scores.ofProject scorer glob? (files p.shared) pom with e | _ | scores <;>
      simp [measure, hworkers, afterScoring, turnsLeftOf, turnsLeft]
  | handOn hworkers => simp [measure, hworkers, turnsLeftOf, turnsLeft]
  | count hworkers => simp [measure, hworkers, turnsLeftOf, turnsLeft]

theorem Step.length_workers (h : Step files scorer glob? deliver p q) :
    q.workers.length = p.workers.length := by
  cases h <;> simp_all

theorem length_workers_run (p : Pool σ) (schedule : List Nat) :
    (p.run files scorer glob? deliver schedule).workers.length = p.workers.length := by
  induction schedule generalizing p with
  | nil => rfl
  | cons i schedule ih =>
    refine (ih _).trans ?_
    rcases turn_cases files scorer glob? deliver p i with ⟨hsame, -⟩ | hstep
    · rw [hsame]
    · exact hstep.length_workers

variable (files scorer glob? deliver)

/-- From every pool turns lead to an end: as long as a worker is not done, it has a step. -/
theorem exists_finished_run (p : Pool σ) :
    ∃ schedule, (p.run files scorer glob? deliver schedule).finished = true := by
  by_cases hfinished : p.finished = true
  · exact ⟨[], hfinished⟩
  · obtain ⟨w, hw, hworking⟩ : ∃ w ∈ p.workers, w ≠ .done := by simpa [finished] using hfinished
    obtain ⟨i, hi, hget⟩ := List.getElem_of_mem hw
    have hstep : Step files scorer glob? deliver p (turn files scorer glob? deliver p i) := by
      rcases turn_cases files scorer glob? deliver p i with ⟨-, hdone⟩ | hstep
      · exact absurd (hdone w (by rw [List.getElem?_eq_getElem hi, hget])) hworking
      · exact hstep
    have hlt := hstep.measure_lt
    obtain ⟨schedule, hend⟩ := exists_finished_run (turn files scorer glob? deliver p i)
    exact ⟨i :: schedule, hend⟩
termination_by p.measure

end

end Pool

end Grove
