import Grove.Git.Branch
import Grove.Git.History

/-!
# Repositories

What git keeps of one repository besides its commits: the references with what they point at, the
branch checked out, the snapshot staged for the next commit, and the configuration. A short name is
looked up among the references in a fixed order of places.

Main statement: a reference that was set is found (`ref?_setRef_self`).
-/

namespace Grove.Git

/-- The name of the entry that makes a directory a checkout. -/
def entryName : String := ".git"

/-- The file that every repository has. -/
def headFile : String := "HEAD"

/-- What a reference holds. -/
inductive Reference where
  /-- A commit. -/
  | commit (id : ObjectId)
  /-- Another reference. -/
  | symbolic (name : String)
  deriving DecidableEq, Inhabited

/-- What is checked out. -/
inductive Head where
  /-- A branch, which need not have a commit yet. -/
  | branch (name : String)
  /-- A commit apart from any branch, with the name it was asked for by and the commit that was
  checked out under it. -/
  | detached (id : ObjectId) (label : String) (start : ObjectId)
  deriving DecidableEq, Inhabited

/-- One repository. -/
structure Repository where
  /-- Whether it has no work tree. -/
  bare : Bool
  /-- Its work tree; its own directory if it has none. -/
  home : Location
  /-- What is checked out. -/
  head : Head
  /-- The references under their full names, in order. -/
  refs : List (String × Reference)
  /-- What is staged. -/
  index : Snapshot
  /-- The paths of a merge that are not settled, with their state in two letters. -/
  unmerged : List (String × String)
  /-- The commit being merged. -/
  merging? : Option ObjectId
  /-- The configuration, in order. -/
  config : List (String × String)
  deriving DecidableEq, Inhabited

namespace Repository

/-- Where references to local branches stand. -/
def branchRef (name : String) : String :=
  "refs/heads/" ++ name

/-- Where references to branches of a remote stand. -/
def trackingRef (remote name : String) : String :=
  "refs/remotes/" ++ remote ++ "/" ++ name

/-- Where tags stand. -/
def tagRef (name : String) : String :=
  "refs/tags/" ++ name

/-- A repository without commits. -/
def empty (bare : Bool) (home : Location) (branch : String) : Repository :=
  ⟨bare, home, .branch branch, [], [], [], none, []⟩

/-! ### References -/

/-- What a reference holds. -/
def ref? (r : Repository) (name : String) : Option Reference :=
  Ordered.get? compare name r.refs

/-- The repository with a reference. -/
def setRef (r : Repository) (name : String) (value : Reference) : Repository :=
  { r with refs := Ordered.put compare name value r.refs }

/-- The repository without a reference. -/
def dropRef (r : Repository) (name : String) : Repository :=
  { r with refs := Ordered.erase compare name r.refs }

/-- A reference that was set is found. -/
theorem ref?_setRef_self (r : Repository) (name : String) (value : Reference) :
    (r.setRef name value).ref? name = some value :=
  Ordered.get?_put_self compare name value r.refs

/-- The commit that a reference leads to; one step past another reference. -/
def commitAt? (r : Repository) (name : String) : Option ObjectId :=
  match r.ref? name with
  | some (.commit id) => some id
  | some (.symbolic other) =>
    match r.ref? other with
    | some (.commit id) => some id
    | _ => none
  | none => none

/-- The commit checked out; none before the first commit of a branch. -/
def headCommit? (r : Repository) : Option ObjectId :=
  match r.head with
  | .branch name => r.commitAt? (branchRef name)
  | .detached id .. => some id

/-- The branch checked out. -/
def currentBranch? (r : Repository) : Option String :=
  match r.head with
  | .branch name => some name
  | .detached .. => none

/-- Moves what is checked out on to a commit. -/
def advance (r : Repository) (id : ObjectId) : Repository :=
  match r.head with
  | .branch name => r.setRef (branchRef name) (.commit id)
  | .detached _ label start => { r with head := .detached id label start }

/-- The full names that a short name may stand for, the first that is there in force. -/
def candidates (name : String) : List String :=
  [name, "refs/" ++ name, tagRef name, branchRef name, "refs/remotes/" ++ name,
    "refs/remotes/" ++ name ++ "/HEAD"]

/-- The references that a short name stands for, the one in force first. -/
def named (r : Repository) (name : String) : List String :=
  (candidates name).filter fun full => (r.commitAt? full).isSome

/-- The names of references that start with some text, without it. -/
def namesUnder (r : Repository) (start : String) : List String :=
  r.refs.filterMap fun (name, _) =>
    (Text.dropStart? start.toList name.toList).map String.ofList

/-- The local branches. -/
def branchNames (r : Repository) : List String :=
  r.namesUnder "refs/heads/"

/-- The tags. -/
def tagNames (r : Repository) : List String :=
  r.namesUnder "refs/tags/"

/-- The branches that a client sees. -/
def branches (r : Repository) : List Branch :=
  r.refs.filterMap fun (name, _) => Branch.ofRef? name

/-- The shortest name of a local branch or other reference that leads to it. With `strict` no other
place may hold the name, otherwise none that comes before. -/
def shortened (r : Repository) (strict : Bool) (full : String) : String :=
  let places := ["refs/", "refs/tags/", "refs/heads/", "refs/remotes/"]
  let found := places.reverse.findSome? fun start =>
    (Text.dropStart? start.toList full.toList).map fun rest => (start, String.ofList rest)
  match found with
  | none => full
  | some (start, name) =>
    let rivals := (r.named name).filter (· ≠ full)
    let before := (candidates name).takeWhile (· ≠ full)
    let taken := if strict then rivals else rivals.filter before.contains
    if taken = [] then name
    else String.ofList ((Text.dropStart? "refs/".toList (start ++ name).toList).getD full.toList)

/-! ### Configuration -/

/-- A value of the configuration. -/
def setting? (r : Repository) (key : String) : Option String :=
  Ordered.get? compare key r.config

/-- The repository with a value in its configuration. -/
def configure (r : Repository) (key value : String) : Repository :=
  { r with config := Ordered.put compare key value r.config }

/-- Where a remote lies. -/
def remoteUrl? (r : Repository) (remote : String) : Option String :=
  r.setting? ("remote." ++ remote ++ ".url")

/-- The remotes. -/
def remotes (r : Repository) : List String :=
  r.config.filterMap fun (key, _) => do
    let rest ← Text.dropStart? "remote.".toList key.toList
    let (name, last) ← Text.cutLast '.' rest
    if last = "url".toList then some (String.ofList name) else none

/-- The remote that a branch comes from, and the reference it has there. -/
def tracked? (r : Repository) (branch : String) : Option (String × String) := do
  let remote ← r.setting? ("branch." ++ branch ++ ".remote")
  let ref ← r.setting? ("branch." ++ branch ++ ".merge")
  return (remote, ref)

/-- Lets a branch come from a reference of a remote. -/
def track (r : Repository) (branch remote ref : String) : Repository :=
  (r.configure ("branch." ++ branch ++ ".remote") remote).configure
    ("branch." ++ branch ++ ".merge") ref

/-- The reference here that follows the one a branch comes from. -/
def trackedRef? (r : Repository) (branch : String) : Option String := do
  let (remote, ref) ← r.tracked? branch
  if remote = "." then some ref
  else
    let name ← Text.dropStart? "refs/heads/".toList ref.toList
    return trackingRef remote (String.ofList name)

/-- The repository without a branch and what is configured for it. -/
def dropBranch (r : Repository) (name : String) : Repository :=
  let start := ("branch." ++ name ++ ".").toList
  let r := r.dropRef (branchRef name)
  { r with config := r.config.filter fun (key, _) => !start.isPrefixOf key.toList }

end Repository

/-- All repositories of a machine with their commits. -/
structure Depot where
  /-- The commits. -/
  history : History
  /-- The repositories, by the location of their own directory. -/
  repositories : List (Location × Repository)
  deriving Inhabited

namespace Depot

/-- No repositories. -/
def empty : Depot :=
  ⟨[], []⟩

/-- The repository kept in a directory. -/
def repository? (d : Depot) (directory : Location) : Option Repository :=
  d.repositories.lookup directory

/-- The depot with a repository kept in a directory. -/
def put (d : Depot) (directory : Location) (r : Repository) : Depot :=
  { d with repositories :=
      (directory, r) :: d.repositories.filter fun (other, _) => other ≠ directory }

/-- A repository is found where it was put. -/
theorem repository?_put_self (d : Depot) (directory : Location) (r : Repository) :
    (d.put directory r).repository? directory = some r := by
  simp [put, repository?]

end Depot

end Grove.Git
