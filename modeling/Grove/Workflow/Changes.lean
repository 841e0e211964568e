import Grove.Project.Workspace

/-!
# Changes that an action leaves behind

Which checkouts an action made dirty, and committing them. The checkouts dirty before the action are
never counted. Commits go from the deepest checkout outwards and end with the outermost one, which
is committed only if it is dirty by then.
-/

namespace Grove

variable {σ α : Type}

/-- The dirty checkouts among some, in path order. -/
def dirtyAmong (git : Git.Client σ) : List Checkout → List Checkout → Action σ (List Checkout)
  | [], found => pure found
  | c :: cs, found => do
    let dirty ← c.isDirty git
    dirtyAmong git cs (if dirty then Ordered.insert Checkout.order c found else found)

/-- All dirty checkouts of a workspace, asked afresh. -/
def dirtyCheckouts (git : Git.Client σ) (w : Workspace) : Action σ (List Checkout) := do
  Action.forgetAll
  dirtyAmong git (w.root :: w.withoutProjects ++ w.withProjects) []

/-- Runs an action and tells which checkouts are dirty after it that were clean before. -/
def detectChanges (git : Git.Client σ) (w : Workspace) (action : Action σ α) :
    Action σ (α × List Checkout) := do
  let before ← dirtyCheckouts git w
  let value ← action
  let after ← dirtyCheckouts git w
  return (value, after.filter fun c => !c.isIn before)

/-- What became of the commits. -/
structure CommitReport where
  /-- Committed, in order. -/
  committed : List Checkout
  /-- Failed to stage or commit, with the message. -/
  failed : List (Checkout × String)
  deriving DecidableEq, Inhabited

namespace CommitReport

/-- No commits. -/
def empty : CommitReport :=
  ⟨[], []⟩

/-- One report after another. -/
def append (a b : CommitReport) : CommitReport :=
  ⟨a.committed ++ b.committed, a.failed ++ b.failed⟩

instance : Append CommitReport := ⟨append⟩

end CommitReport

/-- Whether `a` is committed before `b`: the deeper one first, else in path order. -/
def commitsBefore (a b : Checkout) : Bool :=
  b.depth < a.depth || (a.depth = b.depth && (a.order b).isLE)

/-- Stages and commits everything in a checkout. -/
def commitOne (git : Git.Client σ) (message : String) (pretend : Bool) (c : Checkout) :
    Action σ CommitReport := do
  Action.note .info ("Commit " ++ c.name)
  if pretend then return ⟨[c], []⟩
  let work : Action σ Unit := do
    c.change git .addAll
    c.change git (.commit message)
  match ← Action.attempt work with
  | .ok () => return ⟨[c], []⟩
  | .error e =>
    Action.note .error "commit failed"
    return ⟨[], [(c, e.message)]⟩

/-- Commits checkouts one by one. -/
def commitEach (git : Git.Client σ) (message : String) (pretend : Bool) :
    List Checkout → Action σ CommitReport
  | [] => pure .empty
  | c :: cs => do
    let first ← commitOne git message pretend c
    let rest ← commitEach git message pretend cs
    return first ++ rest

/-- Whether the outermost checkout is to be committed: it is known to be changed, or dirty now. A
question that fails is noted and counts as no. -/
def rootIsDue (git : Git.Client σ) (w : Workspace) (changed : List Checkout) : Action σ Bool := do
  if w.root.isIn changed then return true
  match ← Action.attempt (w.root.isDirty git) with
  | .ok dirty => return dirty
  | .error _ =>
    Action.note .error "cannot query root status"
    return false

/-- Commits the changed checkouts, the deepest first, and then the outermost one if it is due. -/
def commitChanges (git : Git.Client σ) (w : Workspace) (changed : List Checkout) (message : String)
    (pretend : Bool) : Action σ CommitReport := do
  let inner := (changed.filter fun c => !c.isOutermost).mergeSort commitsBefore
  let first ← commitEach git message pretend inner
  Action.forgetAll
  let due ← rootIsDue git w changed
  let last ← commitEach git message pretend (if due then [w.root] else [])
  Action.forgetAll
  return first ++ last

end Grove
