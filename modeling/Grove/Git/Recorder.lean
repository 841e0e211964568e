import Grove.Git.Client
import Grove.Ordered

/-!
# Recorded repositories

Repositories that exist only as a record of branches and tags. Every change is written down before
it is tried, and any operation can be made to fail. A directory without a record is an empty
repository.
-/

namespace Grove.Git

/-- The kinds of operation that can be made to fail. -/
inductive Kind where
  /-- Checking out a branch. -/
  | switchTo
  /-- Making a branch. -/
  | create
  /-- Merging. -/
  | merge
  /-- Tagging. -/
  | tag
  /-- Removing a branch. -/
  | delete
  /-- Pushing in either way. -/
  | push
  /-- Staging. -/
  | addAll
  /-- Committing. -/
  | commit
  /-- Asking whether the work tree is dirty. -/
  | isDirty
  /-- Asking for the branch checked out. -/
  | currentBranch
  /-- Asking for all branches. -/
  | listBranches
  deriving DecidableEq

namespace Kind

/-- The name of a kind. -/
def name : Kind → String
  | switchTo => "switch"
  | create => "create"
  | merge => "merge"
  | tag => "tag"
  | delete => "delete"
  | push => "push"
  | addAll => "add"
  | commit => "commit"
  | isDirty => "is_dirty"
  | currentBranch => "current_branch"
  | listBranches => "list_branches"

/-- All kinds. -/
def all : List Kind :=
  [switchTo, create, merge, tag, delete, push, addAll, commit, isDirty, currentBranch, listBranches]

/-- The kind of a name. -/
def ofName? (s : String) : Option Kind :=
  all.find? (·.name = s)

end Kind

namespace Mutation

/-- The kind of a change. -/
def kind : Mutation → Kind
  | switchTo _ => .switchTo
  | create .. => .create
  | merge _ => .merge
  | tag .. => .tag
  | delete .. => .delete
  | push => .push
  | pushNew .. => .push
  | addAll => .addAll
  | commit _ => .commit

/-- The first line of a commit message. -/
def subject (message : String) : String :=
  String.ofList ((Text.lines message.toList).headD [])

/-- A change as it is written down. -/
def call : Mutation → String
  | switchTo branch => "switch " ++ branch
  | create branch none => "create " ++ branch
  | create branch (some start) => "create " ++ branch ++ " from " ++ start
  | merge branch => "merge " ++ branch
  | tag name force => "tag " ++ name ++ " force=" ++ toString force
  | delete branch force => "delete " ++ branch ++ " force=" ++ toString force
  | push => "push"
  | pushNew remote branch => "push -u " ++ remote ++ " " ++ branch
  | addAll => "add -A"
  | commit message => "commit " ++ subject message

end Mutation

/-- The record of one repository. -/
structure Repo where
  /-- Whether the work tree is dirty. -/
  dirty : Bool
  /-- The branch checked out, if one is. -/
  current? : Option String
  /-- The local branches, in order. -/
  locals : List String
  /-- The branches of the default remote, in order. -/
  remotes : List String
  /-- Branches of other remotes. -/
  others : List Branch
  /-- The tags, in order. -/
  tags : List String
  /-- The kinds of operation that fail here. -/
  failing : List Kind
  deriving DecidableEq, Inhabited

namespace Repo

/-- The repository of a directory without a record. -/
def empty : Repo :=
  ⟨false, none, [], [], [], [], []⟩

/-- Adds a name to a set of names. -/
def withName (name : String) (names : List String) : List String :=
  Ordered.insert compare name names

/-- All branches of the repository. -/
def branches (r : Repo) : List Branch :=
  r.locals.map Branch.localNamed ++ r.remotes.map (Branch.remoteNamed Branch.defaultRemote) ++
    r.others

/-- The repository after a change, or why git refuses it. -/
def apply (r : Repo) : Mutation → Except String Repo
  | .switchTo branch =>
    if branch ∈ r.locals then .ok { r with current? := some branch }
    else .error ("no local branch " ++ branch)
  | .create branch _ =>
    if branch ∈ r.locals then .error ("branch " ++ branch ++ " exists")
    else .ok { r with locals := withName branch r.locals, current? := some branch }
  | .merge _ => .ok r
  | .tag name force =>
    if name ∈ r.tags ∧ force = false then .error ("tag " ++ name ++ " exists")
    else .ok { r with tags := withName name r.tags }
  | .delete branch _ =>
    if r.current? = some branch then
      .error ("cannot delete checked out branch " ++ branch)
    else .ok { r with locals := r.locals.filter (· != branch) }
  | .push =>
    match r.current? with
    | some current => .ok { r with remotes := withName current r.remotes }
    | none => .ok r
  | .pushNew _ branch => .ok { r with remotes := withName branch r.remotes }
  | .addAll => .ok r
  | .commit _ => .ok { r with dirty := false }

end Repo

/-- Recorded repositories and what was asked of them. -/
structure Recorder where
  /-- The records, by root directory. -/
  repos : List (Path × Repo)
  /-- The changes tried, oldest first. -/
  calls : List (Path × String)
  /-- How often a repository was asked whether it is dirty. -/
  dirtyQueries : Nat
  deriving Inhabited

namespace Recorder

/-- No records. -/
def empty : Recorder :=
  ⟨[], [], 0⟩

/-- The record of a directory. -/
def repo (rec : Recorder) (root : Path) : Repo :=
  (Ordered.get? Path.order root rec.repos).getD Repo.empty

/-- Replaces the record of a directory. -/
def put (rec : Recorder) (root : Path) (repo : Repo) : Recorder :=
  { rec with repos := Ordered.put Path.order root repo rec.repos }

/-- Marks a repository dirty, as a tool other than git would. -/
def touch (rec : Recorder) (root : Path) : Recorder :=
  rec.put root { rec.repo root with dirty := true }

/-- The failure of an operation that was made to fail. -/
def simulated (command : String) : Failure :=
  Failure.git (.commandFailed command "simulated failure")

/-- Asks a question of a repository, unless the question fails there. -/
def ask {α : Type} (kind : Kind) (answer : Repo → α) (root : Path) : EStateM Failure Recorder α :=
  fun rec =>
    let repo := rec.repo root
    if kind ∈ repo.failing then .error (simulated kind.name) rec else .ok (answer repo) rec

/-- Writes a change down and tries it. -/
def mutate (root : Path) (m : Mutation) : EStateM Failure Recorder Unit := fun rec =>
  let repo := rec.repo root
  let written := { rec with calls := rec.calls ++ [(root, m.call)] }.put root repo
  if m.kind ∈ repo.failing then .error (simulated m.call) written
  else
    match repo.apply m with
    | .ok repo => .ok () (written.put root repo)
    | .error reason => .error (Failure.git (.commandFailed m.call reason)) written

/-- Counts a question about dirt and answers it. -/
def isDirty (root : Path) : EStateM Failure Recorder Bool := fun rec =>
  ask .isDirty (·.dirty) root { rec with dirtyQueries := rec.dirtyQueries + 1 }

/-- Access to recorded repositories. -/
def client : Client Recorder where
  isDirty := isDirty
  currentBranch := ask .currentBranch (·.current?)
  listBranches := ask .listBranches (·.branches)
  mutate := mutate

end Recorder

end Grove.Git
