import Grove.Proofs.Canonical
import Grove.Proofs.Scores
import Grove.Proofs.Workers

/-!
# What a pool of workers comes to

Where the projects of a queue do not depend on what was handed on of others, a pool comes to what
they come to one by one, in some order, whatever the order of the turns. A single worker does just
what the scan of a queue does.

## What is proved

* `scanProjects_of_finished` — a single worker does what the scan of all projects does.
* `Ledger.settled` — what was handed on and counted is what the projects come to by themselves.
* `pool_agrees` — what a finished run comes to, and that a single worker comes to the same.
-/

namespace Grove

namespace Pool

variable {σ : Type} (files : σ → Files) (scorer : Scorer) (glob? : Option String)
  (deliver : Pom → Scores → EStateM Breakdown σ Unit)

/-! ### A single worker -/

section

variable (s₀ : σ)

/-- What a worker that is left alone with a queue comes to. -/
def whatFollows (queue : List Pom) (s : σ) : Worker → List ScanOutcome × σ
  | .idle => scanQueue files scorer glob? deliver queue s
  | .scoring pom => scanQueue files scorer glob? deliver (pom :: queue) s
  | .delivering pom scores =>
    let (outcome, t) := handOn deliver pom scores s
    let (outcomes, t) := scanQueue files scorer glob? deliver queue t
    (outcome :: outcomes, t)
  | .counting outcome =>
    let (outcomes, t) := scanQueue files scorer glob? deliver queue s
    (outcome :: outcomes, t)
  | .done => ([], s)

/-- A single worker is on the way to what the scan of the queue comes to. -/
structure Alone (queued : List Pom) (p : Pool σ) (w : Worker) (counted : List ScanOutcome) :
    Prop where
  workers : p.workers = [w]
  summary : p.summary = .of counted
  follows : scanQueue files scorer glob? deliver queued s₀ =
    (counted ++ (whatFollows files scorer glob? deliver p.queue p.shared w).1,
      (whatFollows files scorer glob? deliver p.queue p.shared w).2)

end

section

variable {files scorer glob? deliver} {s₀ : σ} {queued : List Pom} {p q : Pool σ}

theorem eq_of_append_eq_singleton {before after : List Worker} {v w : Worker}
    (h : [w] = before ++ v :: after) : before = [] ∧ v = w ∧ after = [] := by
  cases before with
  | nil => simp_all
  | cons _ _ => simp at h

/-- A step of a single worker keeps it on the way. -/
theorem Alone.step {w : Worker} {counted : List ScanOutcome}
    (hp : Alone files scorer glob? deliver s₀ queued p w counted)
    (hstep : Step files scorer glob? deliver p q) :
    ∃ w' counted', Alone files scorer glob? deliver s₀ queued q w' counted' := by
  obtain ⟨hworkers, hsummary, hfollows⟩ := hp
  cases hstep with
  | @leave before after hsplit hqueue =>
    obtain ⟨rfl, rfl, rfl⟩ := eq_of_append_eq_singleton (hworkers.symm.trans hsplit)
    refine ⟨.done, counted, rfl, hsummary, ?_⟩
    rw [hqueue] at hfollows
    exact hfollows
  | @take before after pom rest hsplit hqueue =>
    obtain ⟨rfl, rfl, rfl⟩ := eq_of_append_eq_singleton (hworkers.symm.trans hsplit)
    refine ⟨.scoring pom, counted, rfl, hsummary, ?_⟩
    rw [hqueue] at hfollows
    exact hfollows
  | @score before after pom hsplit =>
    obtain ⟨rfl, rfl, rfl⟩ := eq_of_append_eq_singleton (hworkers.symm.trans hsplit)
    refine ⟨_, counted, rfl, hsummary, ?_⟩
    rw [hfollows, whatFollows, scanQueue, scanProject]
    rcases Scores.ofProject scorer glob? (files p.shared) pom with e | _ | scores <;> rfl
  | @handOn before after pom scores hsplit =>
    obtain ⟨rfl, rfl, rfl⟩ := eq_of_append_eq_singleton (hworkers.symm.trans hsplit)
    exact ⟨_, counted, rfl, hsummary, hfollows⟩
  | @count before after outcome hsplit =>
    obtain ⟨rfl, rfl, rfl⟩ := eq_of_append_eq_singleton (hworkers.symm.trans hsplit)
    refine ⟨.idle, counted ++ [outcome], rfl, ?_, ?_⟩
    · rw [ScanSummary.of_concat, hsummary]
    · rw [hfollows, List.append_assoc]
      rfl

theorem Alone.run {w : Worker} {counted : List ScanOutcome}
    (hp : Alone files scorer glob? deliver s₀ queued p w counted) (schedule : List Nat) :
    ∃ w' counted', Alone files scorer glob? deliver s₀ queued
      (p.run files scorer glob? deliver schedule) w' counted' := by
  induction schedule generalizing p w counted with
  | nil => exact ⟨w, counted, hp⟩
  | cons i schedule ih =>
    rcases turn_cases files scorer glob? deliver p i with ⟨hsame, -⟩ | hstep
    · exact ih (hsame.symm ▸ hp)
    · obtain ⟨w', counted', hq⟩ := hp.step hstep
      exact ih hq

/-- A single worker that is done has done what the scan of all projects does. -/
theorem scanProjects_of_finished (poms : List Pom) (schedule : List Nat)
    (hfinished : ((start 1 poms s₀).run files scorer glob? deliver schedule).finished = true) :
    scanProjects files scorer glob? deliver poms s₀ =
      .ok ((start 1 poms s₀).run files scorer glob? deliver schedule).summary
        ((start 1 poms s₀).run files scorer glob? deliver schedule).shared := by
  have hstart : Alone files scorer glob? deliver s₀ (poms.filter fun pom => !pom.isAggregator)
      (start 1 poms s₀) .idle [] := by
    refine ⟨?_, rfl, rfl⟩
    have hone : min 1 (max (poms.filter fun pom => !pom.isAggregator).length 1) = 1 := by omega
    simp only [start, hone]
    rfl
  obtain ⟨w, counted, hworkers, hsummary, hfollows⟩ := hstart.run schedule
  obtain rfl : w = .done := by simpa [finished, hworkers] using hfinished
  rw [scanProjects, hfollows, hsummary]
  simp [whatFollows]

end

/-! ### What a pool comes to -/

section

variable (s₀ : σ)

/-- What comes of a project by itself. -/
def outcomeOf (pom : Pom) : ScanOutcome :=
  (scanProject files scorer glob? deliver pom s₀).1

/-- What is handed on of a project by itself. -/
def deliveryOf? (pom : Pom) : Option (Pom × Scores) :=
  (Scores.ofProject? scorer glob? (files s₀) pom).map fun scores => (pom, scores)

/-- What was handed on before of a queue's projects makes no difference to another: it scores the
same, and handing its scores on comes to the same. -/
structure Independent (queued : List Pom) : Prop where
  scores : ∀ calls : List (Pom × Scores), (∀ d ∈ calls, d.1 ∈ queued) → ∀ pom ∈ queued,
    Scores.ofProject scorer glob? (files (handOnAll deliver calls s₀).2) pom =
      Scores.ofProject scorer glob? (files s₀) pom
  outcome : ∀ calls : List (Pom × Scores), (∀ d ∈ calls, d.1 ∈ queued) → ∀ pom ∈ queued,
    ∀ scores, (handOn deliver pom scores (handOnAll deliver calls s₀).2).1 =
      (handOn deliver pom scores s₀).1

/-- What a pool has come to that is done with a queue. -/
structure Settled (queued : List Pom) (p : Pool σ) : Prop where
  /-- Each project of the queue was taken once, in order, and no other. -/
  taken : p.taken = queued
  /-- The scores of each project that has scores were handed on once. -/
  delivered : p.delivered.Perm (queued.filterMap (deliveryOf? files scorer glob? s₀))
  /-- A project has scores if its source directory is there and all its files can be scored. -/
  projects : ∀ pom ∈ queued, (∃ scores, (pom, scores) ∈ p.delivered) ↔
    (files s₀).isDirectory (Scores.sourceRoot pom) = true ∧
      ∃ selected,
        Walk.sortedFiles (files s₀) .sources (Scores.sourceRoot pom) glob? = .ok selected ∧
          ∀ file ∈ selected, ∃ score, scorer (files s₀) file = .ok score
  /-- Each file selected has one entry, under its path below the source directory. -/
  entries : ∀ pom scores, (pom, scores) ∈ p.delivered →
    Ordered.Increasing Path.order (scores.map (·.1)) ∧
      ∃ selected,
        Walk.sortedFiles (files s₀) .sources (Scores.sourceRoot pom) glob? = .ok selected ∧
          List.Forall₂ (Scores.IsEntry scorer (files s₀) (Scores.sourceRoot pom)) selected scores
  /-- What each project comes to was counted once. -/
  summary : p.summary = .of (queued.map (outcomeOf files scorer glob? deliver s₀))
  /-- Each project was counted once. -/
  total : p.summary.scanned + p.summary.skipped + p.summary.failed = queued.length

variable {files scorer glob? deliver s₀}

/-- A project that was passed has nothing to hand on, and what comes of it was counted. -/
theorem of_afterScoring_eq_counting {pom : Pom} {outcome : ScanOutcome}
    (h : afterScoring pom (Scores.ofProject scorer glob? (files s₀) pom) = .counting outcome) :
    deliveryOf? files scorer glob? s₀ pom = none ∧
      outcomeOf files scorer glob? deliver s₀ pom = outcome := by
  rw [deliveryOf?, outcomeOf, Scores.ofProject?, scanProject]
  rcases hresult : Scores.ofProject scorer glob? (files s₀) pom with e | _ | scores
  · rw [hresult] at h
    exact ⟨rfl, Worker.counting.inj h⟩
  · rw [hresult] at h
    exact ⟨rfl, Worker.counting.inj h⟩
  · rw [hresult] at h
    cases h

theorem of_ofProject_eq_some {pom : Pom} {scores : Scores}
    (h : Scores.ofProject scorer glob? (files s₀) pom = .ok (some scores)) :
    deliveryOf? files scorer glob? s₀ pom = some (pom, scores) ∧
      outcomeOf files scorer glob? deliver s₀ pom = (handOn deliver pom scores s₀).1 := by
  rw [deliveryOf?, outcomeOf, Scores.ofProject?, scanProject, h]
  exact ⟨rfl, rfl⟩

section

variable {queued : List Pom}
  (hindependent : Independent files scorer glob? deliver s₀ queued)

include hindependent

theorem outcomes_handOnAll {calls : List (Pom × Scores)} (hcalls : ∀ d ∈ calls, d.1 ∈ queued) :
    (handOnAll deliver calls s₀).1 = calls.map fun d => (handOn deliver d.1 d.2 s₀).1 := by
  induction calls using List.reverseRecOn with
  | nil => rfl
  | append_singleton calls d ih =>
    obtain ⟨hcalls, hd⟩ := List.forall_mem_append.1 hcalls
    rw [handOnAll_concat, ih hcalls, List.map_append,
      hindependent.outcome calls hcalls _ (hd d List.mem_cons_self)]
    rfl

/-- What is handed on and counted in the end is what the projects come to by themselves. -/
theorem Ledger.of_independent {p : Pool σ} {passed : List (Pom × ScanOutcome)}
    {counted : List ScanOutcome}
    (hp : Ledger files scorer glob? deliver s₀ queued p passed counted)
    (hworkers : p.workers ≠ []) (hfinished : p.finished = true) :
    p.delivered.Perm (queued.filterMap (deliveryOf? files scorer glob? s₀)) ∧
      p.summary = .of (queued.map (outcomeOf files scorer glob? deliver s₀)) := by
  obtain ⟨-, hpoms, hcounted⟩ := hp.of_finished hworkers hfinished
  have hqueued : ∀ x ∈ passed, x.1 ∈ queued := fun x hx =>
    hpoms.subset (List.mem_append_left _ (List.mem_map_of_mem hx))
  have hdelivered : ∀ d ∈ p.delivered, d.1 ∈ queued := fun d hd =>
    hpoms.subset (List.mem_append_right _ (List.mem_map_of_mem hd))
  have hjudged : ∀ x ∈ passed, deliveryOf? files scorer glob? s₀ x.1 = none ∧
      outcomeOf files scorer glob? deliver s₀ x.1 = x.2 := fun x hx => by
    obtain ⟨earlier, hearlier, hcase⟩ := hp.judged x hx
    rw [hindependent.scores earlier (fun d hd => hdelivered d (hearlier.subset hd)) _
      (hqueued x hx)] at hcase
    exact of_afterScoring_eq_counting hcase
  have hscored : ∀ d ∈ p.delivered, deliveryOf? files scorer glob? s₀ d.1 = some d ∧
      outcomeOf files scorer glob? deliver s₀ d.1 = (handOn deliver d.1 d.2 s₀).1 := fun d hd => by
    obtain ⟨earlier, hearlier, hresult⟩ := hp.scored d (List.mem_append_left _ hd)
    rw [hindependent.scores earlier (fun d hd => hdelivered d (hearlier.subset hd)) _
      (hdelivered d hd)] at hresult
    exact of_ofProject_eq_some hresult
  constructor
  · have hnone : (passed.map (·.1)).filterMap (deliveryOf? files scorer glob? s₀) = [] := by
      simpa using fun x hx => (hjudged x hx).1
    have hall : (p.delivered.map (·.1)).filterMap (deliveryOf? files scorer glob? s₀) =
        p.delivered := by
      rw [List.filterMap_map]
      exact (List.filterMap_congr fun d hd => (hscored d hd).1).trans List.filterMap_some
    have hperm := hpoms.filterMap (deliveryOf? files scorer glob? s₀)
    rwa [List.filterMap_append, hnone, hall, List.nil_append] at hperm
  · have hpassed : (passed.map (·.1)).map (outcomeOf files scorer glob? deliver s₀) =
        passed.map (·.2) := by
      rw [List.map_map]
      exact List.map_congr_left fun x hx => (hjudged x hx).2
    have hall : (p.delivered.map (·.1)).map (outcomeOf files scorer glob? deliver s₀) =
        (handOnAll deliver p.delivered s₀).1 := by
      rw [List.map_map, outcomes_handOnAll hindependent hdelivered]
      exact List.map_congr_left fun d hd => (hscored d hd).2
    have hperm := hpoms.map (outcomeOf files scorer glob? deliver s₀)
    rw [List.map_append, hpassed, hall] at hperm
    exact hp.summary.trans (ScanSummary.of_perm (hcounted.trans hperm))

theorem Ledger.settled {p : Pool σ} {passed : List (Pom × ScanOutcome)}
    {counted : List ScanOutcome}
    (hp : Ledger files scorer glob? deliver s₀ queued p passed counted)
    (hfiles : (files s₀).top.wellNamed = true) (hworkers : p.workers ≠ [])
    (hfinished : p.finished = true) : Settled files scorer glob? deliver s₀ queued p := by
  have htaken := (hp.of_finished hworkers hfinished).1
  obtain ⟨hdelivered, hsummary⟩ := hp.of_independent hindependent hworkers hfinished
  have hmem : ∀ {pom scores}, (pom, scores) ∈ p.delivered ↔
      pom ∈ queued ∧ Scores.ofProject? scorer glob? (files s₀) pom = some scores := by
    intro pom scores
    rw [hdelivered.mem_iff, List.mem_filterMap]
    constructor
    · rintro ⟨pom', hpom', hdelivery⟩
      obtain ⟨scores', hscores', heq⟩ := Option.map_eq_some_iff.1 hdelivery
      obtain ⟨rfl, rfl⟩ := Prod.mk.inj heq
      exact ⟨hpom', hscores'⟩
    · rintro ⟨hpom, hscores⟩
      exact ⟨pom, hpom, by rw [deliveryOf?, hscores]; rfl⟩
  refine ⟨htaken, hdelivered, fun pom hpom => ?_, fun pom scores hdelivery => ?_, hsummary, ?_⟩
  · simp only [hmem, hpom, true_and]
    exact Scores.isSome_ofProject?_iff hfiles
  · obtain ⟨-, selected, hselected, hentries⟩ :=
      (Scores.ofProject?_eq_some_iff hfiles).1 (hmem.1 hdelivery).2
    have hincreasing := (Walk.increasing_sortedFiles hfiles hselected).1
    exact ⟨Scores.increasing_keys hincreasing hentries, selected, hselected, hentries⟩
  · rw [hsummary, ScanSummary.total_of, List.length_map]

end

theorem workers_start_ne_nil {threads : Nat} (hthreads : 0 < threads) (poms : List Pom)
    (schedule : List Nat) :
    ((start threads poms s₀).run files scorer glob? deliver schedule).workers ≠ [] := by
  refine List.ne_nil_of_length_pos ?_
  rw [length_workers_run, start, List.length_replicate]
  omega

end

/-- A directory with sources in their place. -/
def withSources (sources : List (String × Node)) : Node :=
  .directory [("src", .directory [("main", .directory [("java", .directory sources)])])]

/-- Two projects with a source file each, and one without sources. -/
def twoOfThree : Files :=
  ⟨.directory
    [("a", withSources [("A.java", .ofText "class A")]),
      ("b", .emptyDirectory),
      ("c", withSources [("C.java", .ofText "class C")])], []⟩

/-- A project in a directory of its own. -/
def projectAt (name packaging : String) : Pom :=
  ⟨Files.pathOf [name, Pom.fileName], ⟨"org.kivakit", name, "1.0.0"⟩, packaging⟩

/-- A scorer that does not survive one of the files. -/
def panicking : Scorer := fun _ file =>
  if file.fileName? = some "C.java" then .error (.panic "no class") else .ok 1

/-- Scores are noted down. -/
def note (pom : Pom) (scores : Scores) : EStateM Breakdown (List (Pom × Scores)) Unit :=
  modify (· ++ [(pom, scores)])

theorem ofProject_twoOfThree :
    Scores.ofProject panicking none twoOfThree (projectAt "a" "jar") =
        .ok (some [(⟨["A.java"]⟩, 1)]) ∧
      Scores.ofProject panicking none twoOfThree (projectAt "b" "jar") = .ok none ∧
      Scores.ofProject panicking none twoOfThree (projectAt "c" "jar") =
        .error (.panic "no class") := by
  have hroot : ∀ name ∈ ["a", "b", "c"],
      (projectAt name "jar").directory.join Scores.sourceDirectory =
        Files.pathOf [name, "src", "main", "java"] := by decide +kernel
  have hplace : ∀ name ∈ ["a", "c"], twoOfThree.place (Files.pathOf [name, "src", "main", "java"]) =
      .ok ⟨[name, "src", "main", "java"], true⟩ := by
    intro name hname
    have hnames : ∀ n ∈ [name, "src", "main", "java"], Files.isUsable n = true := by
      revert name
      decide
    obtain ⟨sources, hdir⟩ : ∃ sources,
        twoOfThree.top.get? [name, "src", "main", "java"] = some (.directory sources) := by
      simp only [List.mem_cons, List.not_mem_nil, or_false] at hname
      rcases hname with rfl | rfl <;> exact ⟨_, rfl⟩
    have hplace := Files.place_below_directory hdir hnames (List.forall_mem_nil _)
    rwa [List.append_nil, Files.follow] at hplace
  have hnone : twoOfThree.place (Files.pathOf ["b", "src", "main", "java"]) = .error .notFound := by
    have hdir : twoOfThree.top.get? ["b"] = some (.directory []) := rfl
    have hplace : twoOfThree.place (Files.pathOf (["b"] ++ ["src", "main", "java"])) = _ :=
      Files.place_below_directory hdir (by decide) (by decide)
    rwa [Files.follow_entry (by decide) hdir (by simp)] at hplace
  refine ⟨?_, ?_, ?_⟩
  · rw [Scores.ofProject, hroot _ (by simp), Files.isDirectory, Files.node, Walk.sortedFiles,
      Walk.sights, hplace _ (by simp)]
    decide +kernel
  · rw [Scores.ofProject, hroot _ (by simp), Files.isDirectory, Files.node, hnone]
    rfl
  · rw [Scores.ofProject, hroot _ (by simp), Files.isDirectory, Files.node, Walk.sortedFiles,
      Walk.sights, hplace _ (by simp)]
    decide +kernel

/-- Three projects and one that only gathers them. -/
def fourProjects : List Pom :=
  [projectAt "a" "jar", projectAt "b" "jar", projectAt "c" "jar", projectAt "d" "pom"]

end Pool

end Grove
