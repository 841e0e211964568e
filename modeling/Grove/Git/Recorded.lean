import Grove.Host

/-!
# Recorded repositories on a host

Access to the recorded repositories of a host. Besides its record, a file can make a repository
dirty, so that programs which only write files can; a commit removes the file.
-/

namespace Grove.Git

/-- The file that makes a recorded repository dirty. -/
def dirtyMarker : String := "DIRTY"

/-- Asks or changes the records of a host. -/
def onRecorder {α : Type} (x : EStateM Failure Recorder α) : EStateM Failure Host α := fun h =>
  match x h.recorder with
  | .ok a recorder => .ok a { h with recorder }
  | .error e recorder => .error e { h with recorder }

/-- Removes the file that makes a repository dirty. -/
def clearMarker (root : Path) : EStateM Failure Host Unit :=
  modify fun h => { h with files := (h.files.remove (root.child dirtyMarker)).toOption.getD h.files }

/-- Access to the recorded repositories of a host. -/
def recorded : Client Host where
  isDirty root := do
    let dirty ← onRecorder (Recorder.isDirty root)
    return dirty || (← get).files.holds (root.child dirtyMarker)
  currentBranch root := onRecorder (Recorder.client.currentBranch root)
  listBranches root := onRecorder (Recorder.client.listBranches root)
  mutate root m := do
    onRecorder (Recorder.mutate root m)
    if m.kind = .commit then clearMarker root

end Grove.Git
