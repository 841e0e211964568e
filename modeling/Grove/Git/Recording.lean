import Grove.Git.Combine
import Grove.Git.Name
import Grove.Git.StatusText

/-!
# Recording work

The git operations that take place in one repository: staging, committing, switching branches,
merging, tagging and removing branches.
-/

namespace Grove.Git.Work

/-! ### Repositories -/

/-- Makes a repository in a directory, unless there is one. -/
def makeRepository (here : Location) (bare : Bool) (branch : String) : Work Unit := do
  let kept := if bare then here else here ++ [entryName]
  let x ← scene
  if (x.keptAt? kept).isSome then return
  let top := (x.files.top.put (kept ++ [headFile]) (.ofText ("ref: refs/heads/" ++ branch ++ "\n")))
  setTop (top.put (kept ++ ["refs"]) .emptyDirectory)
  save kept (.empty bare here branch)

/-! ### Staging -/

/-- What a path of a work tree is staged as. -/
def stagedItem? (x : Scene) (r : Repository) (path : String) : Work (Option Item) := do
  let staged? := r.index.item? path
  match x.workItem? r.home path staged? with
  | some item => return some item
  | none =>
    match x.repositoryOf? (r.home ++ Snapshot.names path) with
    | some (_, inner) =>
      match inner.headCommit? with
      | some id => return some (.submodule id)
      | none =>
        stop 128 ("error: '" ++ path ++ "/' does not have a commit checked out\n" ++
          "fatal: adding files failed")
    | none => return none

/-- Stages paths one by one as they are in the work tree. -/
def stageEach (x : Scene) (r : Repository) : List String → Work Repository
  | [] => return r
  | path :: rest => do
    let item? ← stagedItem? x r path
    let index := r.index.set path item?
    stageEach x
      { r with index, unmerged := r.unmerged.filter (·.1 ≠ path) } rest

/-- Stages the paths that are wanted: those tracked and those that are not. -/
def stage (s : Site) (tracked untracked : Bool) (wanted : String → Bool) : Work Site := do
  let x ← scene
  let old := if tracked then Scene.trackedPaths s.repo else []
  let new := if untracked then
      (x.untracked s.repo).map fun path => String.ofList (Text.dropEndWhile (· = '/') path.toList)
    else []
  let repo ← stageEach x s.repo ((old ++ new).filter wanted)
  save s.kept repo
  return { s with repo }

/-! ### Committing -/

/-- The text for a merge that has to be settled first. -/
def unsettled (operation : String) : String :=
  "error: " ++ operation ++ " is not possible because you have unmerged files.\n" ++
    "hint: Fix them up in the work tree, and then use 'git add/rm <file>'\n" ++
    "hint: as appropriate to mark resolution and make a commit.\n" ++
    "fatal: Exiting because of an unresolved conflict."

/-- Commits what is staged. -/
def commitStaged (s : Site) (message : String) (allowEmpty : Bool) : Work Unit := do
  let r := s.repo
  if r.unmerged ≠ [] then stop 128 (unsettled "Committing")
  let x ← scene
  let committed := x.committed r
  if r.index = committed && !allowEmpty && r.merging?.isNone then
    throw ⟨StatusText.text x.depot.history r (x.fullStatus r) true, "", 1⟩
  let message := tidy message
  if message = "" then stop 1 "Aborting commit due to empty commit message."
  let id ← commit r r.index (r.headCommit?.toList ++ r.merging?.toList) message
  save s.kept { r.advance id with merging? := none }

/-! ### Switching -/

/-- Moves the work tree from what is committed to a snapshot. -/
def move (s : Site) (target : Snapshot) (operation before warning : String) (code : Nat) :
    Work Repository := do
  let x ← scene
  let old := x.committed s.repo
  let o := x.obstacles s.repo old target
  if !o.isEmpty then stop code (warning ++ o.message operation before)
  let (files, index) := x.moved s.repo old target
  setTop files.top
  return { s.repo with index }

/-- Moves the work tree to a commit; the answer has the new staged files and the old head. -/
def moveTo (s : Site) (id? : Option ObjectId) (name : String) : Work Repository := do
  if s.repo.unmerged ≠ [] then stop 1 "error: you need to resolve your current index first"
  let target ←
    match id? with
    | some id => pure ((← get).depot.history.snapshotOf id)
    | none => pure ((← scene).committed s.repo)
  move s target "checkout" "switch branches" (warning s.repo name) 1

/-- Checks out a commit under a new head. -/
def checkOut (s : Site) (id? : Option ObjectId) (head : Head) (name : String) : Work Unit := do
  save s.kept { ← moveTo s id? name with head, merging? := none }

/-- Puts paths of the work tree back to what is staged. -/
def restore (s : Site) (wanted : String → Bool) : Work Unit := do
  let x ← scene
  let top := (s.repo.index.filter fun (path, _) => wanted path).foldl
    (fun top (path, item) => Scene.place top s.repo.home path (some item)) x.files.top
  setTop top

/-- Refuses a name that no branch can have. -/
def checkBranchName (name : String) : Work Unit := do
  if (nameFault? name.toList).isSome then fatal ("'" ++ name ++ "' is not a valid branch name")

/-- What is told of a start point that several references have the name of. -/
def ambiguous (r : Repository) (start : String) : String :=
  warning r start ++ "fatal: ambiguous object name: '" ++ start ++ "'"

/-- The commit at a start point; a branch goes before other references of its name. -/
def startPoint (s : Site) (name start : String) : Work ObjectId := do
  match s.repo.commitAt? (Repository.branchRef start) <|> (← resolve s start) with
  | some id => return id
  | none =>
    fatal ("'" ++ start ++ "' is not a commit and a branch '" ++ name ++
      "' cannot be created from it")

/-- The remote and the reference there that a branch made at a start point comes from. A local
branch counts only on request. -/
def source? (r : Repository) (start : String) (tracking : Bool) : Option (String × String) :=
  match (r.named start).head?.bind Branch.ofRef? with
  | some ⟨branch, some remote⟩ => some (remote, Repository.branchRef branch)
  | some ⟨branch, none⟩ => if tracking then some (".", Repository.branchRef branch) else none
  | none => none

/-- Makes a branch at a start point and checks it out; with `tracking` it comes from there. A start
point on a remote is tracked in any case. What is wrong with a start point shows after the move. -/
def createBranch (s : Site) (name : String) (start? : Option String) (tracking : Bool) :
    Work Unit := do
  let r := s.repo
  let id? ← start?.mapM (startPoint s name)
  checkBranchName name
  if (r.commitAt? (Repository.branchRef name)).isSome then
    fatal ("a branch named '" ++ name ++ "' already exists")
  match start?, id? with
  | some start, some id =>
    let origin? := source? r start tracking
    if 1 < (r.named start).length then
      save s.kept (← moveTo s (some id) start)
      stop 128 (warning r start ++ ambiguous r start)
    if tracking && origin?.isNone then
      save s.kept (← moveTo s (some id) start)
      fatal ("cannot set up tracking information; starting point '" ++ start ++ "' is not a branch")
    checkOut s (some id) (.branch name) start
    modify fun h =>
      match h.depot.repository? s.kept with
      | none => h
      | some r =>
        let r := r.setRef (Repository.branchRef name) (.commit id)
        let r := origin?.elim r fun (remote, ref) => r.track name remote ref
        { h with depot := h.depot.put s.kept r }
  | _, _ =>
    let r := r.headCommit?.elim r fun id => r.setRef (Repository.branchRef name) (.commit id)
    save s.kept { r with head := .branch name, merging? := none }

/-- Leaves any branch for a commit. One that is checked out apart from any branch already keeps the
name that it was first asked for by. -/
def detach (s : Site) (name : String) : Work Unit := do
  match ← resolve s name with
  | none => fatal ("invalid reference: " ++ name)
  | some id =>
    let label := if name = "HEAD" ∨ (s.repo.named name).isEmpty then short id else name
    let head : Head := match s.repo.head with
      | .detached current label start =>
        if current = id then .detached current label start else .detached id label id
      | .branch _ => .detached id label id
    checkOut s (some id) head name

/-- Checks out what a name stands for: a branch, another commit, a branch of the only remote that has
it, or else a path. -/
def switchTo (s : Site) (name : String) : Work Unit := do
  let r := s.repo
  match r.commitAt? (Repository.branchRef name) with
  | some id => checkOut s (some id) (.branch name) name
  | none =>
    if (← resolve s name).isSome then detach s name
    else
      let remotes := (r.branches.filter fun b => b.name = name && b.isRemote).filterMap (·.remote?)
      let isPath (path : String) : Bool := path = name || Snapshot.isBelow name path
      match remotes with
      | [remote] => createBranch s name (some (remote ++ "/" ++ name)) true
      | _ =>
        if r.index.paths.any isPath then restore s isPath
        else if 1 < remotes.length then
          fatal ("'" ++ name ++ "' matched multiple (" ++ toString remotes.length ++
            ") remote tracking branches")
        else stop 1 ("error: pathspec '" ++ name ++ "' did not match any file(s) known to git")

/-! ### Merging -/

/-- How a merge names what it merges. -/
def mergeTitle (r : Repository) (name : String) : String :=
  let what := match ((r.named name).head?).bind Branch.ofRef? with
    | some ⟨_, some _⟩ => "remote-tracking branch '"
    | some _ => "branch '"
    | none => if r.tagNames.contains name then "tag '" else "commit '"
  "Merge " ++ what ++ name ++ "'" ++
    match r.head with
    | .branch "master" => ""
    | .branch current => " into " ++ current
    | .detached .. => " into HEAD"

/-- Merges a commit into what is checked out, neither of which follows the other. -/
def mergeCommits (s : Site) (name : String) (ours theirs base : ObjectId) (message : String) :
    Work Unit := do
  let x ← scene
  let h := x.depot.history
  let r := s.repo
  let staged := Snapshot.changedPaths (x.committed r) r.index
  if staged ≠ [] then
    stop 2 ("error: Your local changes to the following files would be overwritten by merge:\n  " ++
      " ".intercalate staged ++ "\nMerge with strategy ort failed.")
  let c := combine "HEAD" name (h.snapshotOf base) (h.snapshotOf ours) (h.snapshotOf theirs)
  let o := x.obstacles r (h.snapshotOf ours) c.snapshot
  if !o.isEmpty then
    stop 2 (o.message "merge" "merge" ++ "\nMerge with strategy ort failed.")
  let (files, index) := x.moved r (h.snapshotOf ours) c.snapshot
  setTop files.top
  if c.unmerged = [] then
    let id ← commit r index [ours, theirs] (tidy message)
    save s.kept { r.advance id with index }
  else
    let index := index.filter fun (path, _) => (c.unmerged.lookup path).isNone
    save s.kept { r with index, unmerged := c.unmerged, merging? := some theirs }
    let told := String.join (c.messages.map (· ++ "\n"))
    throw ⟨told ++ "Automatic merge failed; fix conflicts and then commit the result.\n", "", 1⟩

/-- What a name that stands for nothing may be meant for: branches of remotes that end in it. -/
def suggestions (r : Repository) (name : String) : String :=
  let similar := r.refs.filterMap fun (ref, _) =>
    let isSimilar := (Text.cutLast '/' ref.toList).any fun (_, last) => String.ofList last = name
    if ref.startsWith "refs/remotes/" && isSimilar then some (r.shortened true ref) else none
  match similar with
  | [] => ""
  | [one] => "\n\nDid you mean this?\n\t" ++ one
  | more => "\n\nDid you mean one of these?" ++ String.join (more.map ("\n\t" ++ ·))

/-- Merges what a name stands for into what is checked out. -/
def merge (s : Site) (name : String) (forward : Bool) (message? : Option String) : Work Unit := do
  let r := s.repo
  if r.unmerged ≠ [] then stop 128 (unsettled "Merging")
  if r.merging?.isSome then
    fatal ("You have not concluded your merge (MERGE_HEAD exists).\n" ++
      "Please, commit your changes before you merge.")
  match ← resolve s name with
  | none => stop 1 ("merge: " ++ name ++ " - not something we can merge" ++ suggestions r name)
  | some theirs =>
    let h := (← get).depot.history
    let told := warning r name
    match r.headCommit? with
    | none =>
      let repo ← move s (h.snapshotOf theirs) "merge" "merge" told 128
      save s.kept (repo.advance theirs)
    | some ours =>
      if h.follows ours theirs then return
      if h.follows theirs ours && forward then
        let repo ← move s (h.snapshotOf theirs) "merge" "merge" told 1
        save s.kept (repo.advance theirs)
      else
        match h.mergeBase? ours theirs with
        | none => fatal "refusing to merge unrelated histories"
        | some base =>
          mergeCommits s name ours theirs base (message?.getD (mergeTitle r name))

/-- Gives a merge up that is not concluded. -/
def abortMerge (s : Site) : Work Unit := do
  let r := s.repo
  if r.merging?.isNone then fatal "There is no merge to abort (MERGE_HEAD missing)."
  let x ← scene
  let committed := x.committed r
  let paths := (Snapshot.allPaths [committed, r.index]).filter fun path =>
    committed.item? path ≠ r.index.item? path || (r.unmerged.lookup path).isSome
  let paths := paths ++ (r.unmerged.map (·.1)).filter fun path => !paths.contains path
  setTop (paths.foldl (fun top path => Scene.place top r.home path (committed.item? path))
    x.files.top)
  save s.kept { r with index := committed, unmerged := [], merging? := none }

/-- Moves the branch to a commit; `index` puts what is staged back too, and `tree` the work tree.
Before the first commit what was committed counts as empty. -/
def reset (s : Site) (commit? : Option ObjectId) (index tree : Bool) : Work Unit := do
  let r := s.repo
  let x ← scene
  let target := (commit?.map x.depot.history.snapshotOf).getD []
  if tree then
    setTop ((Snapshot.allPaths [target, r.index]).foldl
      (fun top path => Scene.place top r.home path (target.item? path)) x.files.top)
  let r := (commit?.map r.advance).getD r
  save s.kept (if index then { r with index := target, unmerged := [], merging? := none } else r)

/-! ### Branches and tags -/

/-- Makes a branch without checking it out. -/
def addBranch (s : Site) (name start : String) : Work Unit := do
  checkBranchName name
  if (s.repo.commitAt? (Repository.branchRef name)).isSome then
    fatal ("a branch named '" ++ name ++ "' already exists")
  match ← resolve s start with
  | none =>
    let shown := if start = "HEAD" then s.repo.currentBranch?.getD start else start
    fatal ("not a valid object name: '" ++ shown ++ "'")
  | some id =>
    if 1 < (s.repo.named start).length then
      stop 128 (ambiguous s.repo start)
    let r := s.repo.setRef (Repository.branchRef name) (.commit id)
    save s.kept (match ((s.repo.named start).head?).bind Branch.ofRef? with
      | some ⟨branch, some remote⟩ => r.track name remote (Repository.branchRef branch)
      | _ => r)

/-- Removes a branch; one that is not merged only when forced. -/
def deleteBranch (s : Site) (name : String) (force : Bool) : Work String := do
  let r := s.repo
  if r.currentBranch? = some name && !r.bare then
    stop 1 ("error: Cannot delete branch '" ++ name ++ "' checked out at '" ++
      (Files.pathOf r.home).text ++ "'")
  match r.commitAt? (Repository.branchRef name) with
  | none => stop 1 ("error: branch '" ++ name ++ "' not found.")
  | some id =>
    let h := (← get).depot.history
    let isMerged (into? : Option ObjectId) : Bool := into?.any fun other => h.follows other id
    let tracked? := (r.trackedRef? name).filter fun ref => (r.commitAt? ref).isSome
    let reference? := (tracked?.bind r.commitAt?) <|> r.headCommit?
    if !force && !isMerged reference? then
      let remark := match tracked? with
        | some ref =>
          if isMerged r.headCommit? then
            "warning: not deleting branch '" ++ name ++ "' that is not yet merged to\n         '" ++
              ref ++ "', even though it is merged to HEAD.\n"
          else ""
        | none => ""
      stop 1 (remark ++ "error: The branch '" ++ name ++ "' is not fully merged.\n" ++
        "If you are sure you want to delete it, run 'git branch -D " ++ name ++ "'.")
    save s.kept (r.dropBranch name)
    return "Deleted branch " ++ name ++ " (was " ++ short id ++ ").\n"

/-- Tags a commit; a tag that is there is replaced only when forced. -/
def addTag (s : Site) (name target : String) (force : Bool) : Work String := do
  let r := s.repo
  match ← resolve s target with
  | none =>
    fatal ("Failed to resolve '" ++ target ++ "' as a valid ref.")
  | some id =>
    if (nameFault? name.toList).isSome then fatal ("'" ++ name ++ "' is not a valid tag name.")
    let old? := r.commitAt? (Repository.tagRef name)
    if old?.isSome && !force then fatal ("tag '" ++ name ++ "' already exists")
    save s.kept (r.setRef (Repository.tagRef name) (.commit id))
    match old? with
    | some old =>
      return if old = id then "" else "Updated tag '" ++ name ++ "' (was " ++ short old ++ ")\n"
    | none => return ""

/-- Removes a tag. -/
def deleteTag (s : Site) (name : String) : Work String := do
  match s.repo.commitAt? (Repository.tagRef name) with
  | none => stop 1 ("error: tag '" ++ name ++ "' not found.")
  | some id =>
    save s.kept (s.repo.dropRef (Repository.tagRef name))
    return "Deleted tag '" ++ name ++ "' (was " ++ short id ++ ")\n"

end Grove.Git.Work
