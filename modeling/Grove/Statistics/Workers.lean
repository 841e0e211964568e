import Grove.Statistics.Scores

/-!
# Workers that share a queue

Projects are scored by several workers at once. Each takes the next project from a queue that all
of them share, scores it, hands the scores on, counts what became of it, and takes the next one,
until the queue is empty. Workers take turns in any order; a turn is one step of one worker. A
worker survives whatever breaks off, since that is counted as an outcome like any other.
-/

namespace Grove

/-- What a worker is about to do. -/
inductive Worker where
  /-- Take a project. -/
  | idle
  /-- Score a project. -/
  | scoring (pom : Pom)
  /-- Hand on the scores of a project. -/
  | delivering (pom : Pom) (scores : Scores)
  /-- Count what became of a project. -/
  | counting (outcome : ScanOutcome)
  /-- Nothing more. -/
  | done
  deriving DecidableEq, Inhabited

/-- Workers, the queue they share, and what they have done so far. -/
structure Pool (σ : Type) where
  /-- The projects that nobody has taken, next first. -/
  queue : List Pom
  /-- The workers. -/
  workers : List Worker
  /-- The projects taken, in order. -/
  taken : List Pom
  /-- The scores handed on, in order. -/
  delivered : List (Pom × Scores)
  /-- How many projects came to which outcome. -/
  summary : ScanSummary
  /-- The state that scores are handed on to. -/
  shared : σ

namespace Pool

variable {σ : Type}

/-- A pool before the first turn: projects that are mere aggregators are left out, and there are no
more workers than projects, but at least one. -/
def start (threads : Nat) (poms : List Pom) (shared : σ) : Pool σ :=
  let queue := poms.filter fun pom => !pom.isAggregator
  ⟨queue, List.replicate (min threads (max queue.length 1)) .idle, [], [], .none, shared⟩

/-- What a worker does next once it has scored a project. -/
def afterScoring (pom : Pom) : Except Breakdown (Option Scores) → Worker
  | .error e => .counting (.failed e)
  | .ok none => .counting .skipped
  | .ok (some scores) => .delivering pom scores

variable (files : σ → Files) (scorer : Scorer) (glob? : Option String)
  (deliver : Pom → Scores → EStateM Breakdown σ Unit)

/-- The pool after a turn of one worker. -/
def turn (p : Pool σ) (i : Nat) : Pool σ :=
  match p.workers[i]? with
  | none => p
  | some .done => p
  | some .idle =>
    match p.queue with
    | [] => { p with workers := p.workers.set i .done }
    | pom :: rest =>
      { p with
        queue := rest
        taken := p.taken ++ [pom]
        workers := p.workers.set i (.scoring pom) }
  | some (.scoring pom) =>
    { p with
      workers :=
        p.workers.set i (afterScoring pom (Scores.ofProject scorer glob? (files p.shared) pom)) }
  | some (.delivering pom scores) =>
    let (outcome, shared) := handOn deliver pom scores p.shared
    { p with
      workers := p.workers.set i (.counting outcome)
      delivered := p.delivered ++ [(pom, scores)]
      shared }
  | some (.counting outcome) =>
    { p with
      workers := p.workers.set i .idle
      summary := p.summary.add outcome }

/-- The pool after turns of the workers that a schedule lists. -/
def run (p : Pool σ) (schedule : List Nat) : Pool σ :=
  schedule.foldl (turn files scorer glob? deliver) p

/-- Whether no worker has anything left to do. -/
def finished (p : Pool σ) : Bool :=
  p.workers.all (· = .done)

end Pool

end Grove
