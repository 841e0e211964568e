import Grove.Ordered
import Grove.Project.Pom
import Grove.Text.Utf8
import Grove.Walk.Basic

/-!
# Scores of source files

Every source file of a project gets a score, the number of its words unless another measure is
given. Projects that only gather others are left out, those without sources are passed over, and a
project whose scoring or delivery breaks off, by an error or a panic, leaves the others as they are.
-/

namespace Grove

/-- How the work on a project can break off. -/
inductive Breakdown where
  /-- By an error. -/
  | error (cause : Failure)
  /-- By a panic. -/
  | panic (message : String)
  deriving DecidableEq

/-- The scores of a project's files, by path below the source directory, in path order. -/
abbrev Scores := List (Path × Nat)

/-- A measure of a file. -/
abbrev Scorer := Files → Path → Except Breakdown Nat

namespace Scorer

/-- The number of words in a file. -/
def countWords (files : Files) (path : Path) : Except Failure Nat :=
  match files.read path with
  | .ok bytes => .ok (Text.wordCount (Text.decode bytes))
  | .error e => .error ((Failure.bare (.os e)).within ("failed to read " ++ path.shown))

/-- Files measured by the number of their words. -/
def words : Scorer := fun files path =>
  (countWords files path).mapError .error

end Scorer

namespace Scores

/-- Where the sources of a project lie. -/
def sourceDirectory : Path := .ofString "src/main/java"

/-- The scores with that of one more file. -/
def put (path : Path) (score : Nat) (scores : Scores) : Scores :=
  Ordered.put Path.order path score scores

/-- The scores of some files below a directory, in any order. -/
def ofFiles (scorer : Scorer) (files : Files) (root : Path) : List Path → Except Breakdown Scores
  | [] => .ok []
  | path :: rest => do
    let score ← scorer files path
    let scores ← ofFiles scorer files root rest
    match path.stripStart? root with
    | some relative => return put relative score scores
    | none => return scores

/-- The scores of a project's source files, those that match the glob if one is given; nothing for a
project without sources. -/
def ofProject (scorer : Scorer) (glob? : Option String) (files : Files) (pom : Pom) :
    Except Breakdown (Option Scores) := do
  let root := pom.directory.join sourceDirectory
  if files.isDirectory root then
    let found ← (Walk.sortedFiles files .sources root glob?).mapError .error
    return some (← ofFiles scorer files root found)
  else return none

end Scores

/-- What became of one project. -/
inductive ScanOutcome where
  /-- Its scores were handed on. -/
  | scanned
  /-- It has no sources. -/
  | skipped
  /-- Scoring or handing on broke off. -/
  | failed (cause : Breakdown)
  deriving DecidableEq

/-- How many projects came to which outcome. -/
structure ScanSummary where
  /-- Projects whose scores were handed on. -/
  scanned : Nat
  /-- Projects without sources. -/
  skipped : Nat
  /-- Projects that failed. -/
  failed : Nat
  deriving DecidableEq, Inhabited

namespace ScanSummary

/-- No projects. -/
def none : ScanSummary :=
  ⟨0, 0, 0⟩

/-- The summary with one more outcome. -/
def add (s : ScanSummary) : ScanOutcome → ScanSummary
  | .scanned => { s with scanned := s.scanned + 1 }
  | .skipped => { s with skipped := s.skipped + 1 }
  | .failed _ => { s with failed := s.failed + 1 }

/-- The summary of some outcomes. -/
def of (outcomes : List ScanOutcome) : ScanSummary :=
  outcomes.foldl add none

end ScanSummary

section

variable {σ : Type}

/-- Hands the scores of a project on and tells what became of it. -/
def handOn (deliver : Pom → Scores → EStateM Breakdown σ Unit) (pom : Pom) (scores : Scores)
    (s : σ) : ScanOutcome × σ :=
  match deliver pom scores s with
  | .ok () s => (.scanned, s)
  | .error e s => (.failed e, s)

/-- Scores one project and hands the scores on. -/
def scanProject (files : σ → Files) (scorer : Scorer) (glob? : Option String)
    (deliver : Pom → Scores → EStateM Breakdown σ Unit) (pom : Pom) (s : σ) : ScanOutcome × σ :=
  match Scores.ofProject scorer glob? (files s) pom with
  | .error e => (.failed e, s)
  | .ok none => (.skipped, s)
  | .ok (some scores) => handOn deliver pom scores s

/-- Scores the projects of a queue one after the other. -/
def scanQueue (files : σ → Files) (scorer : Scorer) (glob? : Option String)
    (deliver : Pom → Scores → EStateM Breakdown σ Unit) : List Pom → σ → List ScanOutcome × σ
  | [], s => ([], s)
  | pom :: rest, s =>
    let (first, s) := scanProject files scorer glob? deliver pom s
    let (others, s) := scanQueue files scorer glob? deliver rest s
    (first :: others, s)

/-- Scores all projects that are not mere aggregators and tells what became of them. -/
def scanProjects (files : σ → Files) (scorer : Scorer) (glob? : Option String)
    (deliver : Pom → Scores → EStateM Breakdown σ Unit) (poms : List Pom) :
    EStateM Failure σ ScanSummary :=
  fun s =>
    let (outcomes, s) :=
      scanQueue files scorer glob? deliver (poms.filter fun pom => !pom.isAggregator) s
    .ok (.of outcomes) s

end

end Grove
