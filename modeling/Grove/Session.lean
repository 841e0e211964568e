import Grove.Git.Client
import Grove.Log.Line

/-!
# Sessions

What a run carries along: the state of the host, what is remembered of each checkout, the log so far
and the lines printed. An action may fail; the state it reached stays.
-/

namespace Grove

/-- The state of a run. -/
structure Session (σ : Type) where
  /-- The state that repositories and files live in. -/
  host : σ
  /-- The answers to "is it dirty?" that still hold, by checkout root. -/
  dirtyFlags : List (Path × Bool)
  /-- The branch snapshots taken, by checkout root. -/
  snapshots : List (Path × Branches)
  /-- The log, oldest line first. -/
  log : List LogLine
  /-- The lines printed, oldest first. -/
  printed : List String

/-- A run's steps, which may fail. -/
abbrev Action (σ α : Type) := EStateM Failure (Session σ) α

namespace Session

/-- A session that has done nothing. -/
def start {σ : Type} (host : σ) : Session σ :=
  ⟨host, [], [], [], []⟩

end Session

namespace Action

variable {σ α : Type}

/-- Acts on the host alone. -/
def onHost (x : EStateM Failure σ α) : Action σ α := fun s =>
  match x s.host with
  | .ok a host => .ok a { s with host }
  | .error e host => .error e { s with host }

/-- Writes a log line. -/
def note (severity : Severity) (message : String) : Action σ Unit :=
  modify fun s => { s with log := s.log ++ [⟨severity, message⟩] }

/-- Prints a line. -/
def print (line : String) : Action σ Unit :=
  modify fun s => { s with printed := s.printed ++ [line] }

/-- Turns failure into an answer; the state reached stays. -/
def attempt (x : Action σ α) : Action σ (Except Failure α) := fun s =>
  match x s with
  | .ok a s => .ok (.ok a) s
  | .error e s => .ok (.error e) s

/-- Answers a result or fails with its error. -/
def ofExcept (r : Except Failure α) : Action σ α :=
  match r with
  | .ok a => pure a
  | .error e => throw e

/-- Adds an outer step to a failure. -/
def within (step : String) (x : Action σ α) : Action σ α := fun s =>
  match x s with
  | .ok a s => .ok a s
  | .error e s => .error (e.within step) s

/-- Forgets everything remembered of the checkouts. -/
def forgetAll : Action σ Unit :=
  modify fun s => { s with dirtyFlags := [], snapshots := [] }

end Action

end Grove
