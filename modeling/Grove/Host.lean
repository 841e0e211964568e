import Grove.Calendar
import Grove.Files.Basic
import Grove.Git.Recorder
import Grove.Git.Repository
import Grove.Session

/-!
# The host

The machine a run takes place on: its files, the variables of its environment, its clock, its
repositories and the recorded repositories that live beside the files.
-/

namespace Grove

/-- The state of a machine. -/
structure Host where
  /-- The files. -/
  files : Files
  /-- The variables of the environment, the later of two with one name in force. -/
  environment : List (String × String)
  /-- The time. -/
  now : Instant
  /-- The repositories. -/
  depot : Git.Depot
  /-- Repositories that are mere records. -/
  recorder : Git.Recorder
  deriving Inhabited

namespace Host

/-- The value of an environment variable. -/
def lookup (h : Host) (name : String) : Option String :=
  h.environment.reverse.lookup name

/-- Changes the files or fails with the system's answer, under a step that tells what was tried. -/
def change (step : String) (f : Files → Except OsError Files) : EStateM Failure Host Unit := fun h =>
  match f h.files with
  | .ok files => .ok () { h with files }
  | .error e => .error ((Failure.bare (.os e)).within step) h

/-- Makes a directory and those it lies in. -/
def createDirectories (p : Path) : EStateM Failure Host Unit :=
  change ("failed to create " ++ p.shown) fun files => files.createDirectories p

/-- Writes a text file. -/
def writeText (p : Path) (text : String) : EStateM Failure Host Unit :=
  change ("failed to write " ++ p.shown) fun files => files.writeText p text

end Host

end Grove
