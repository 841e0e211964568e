import Grove.Git.Recording

/-!
# Exchange between repositories

Cloning, fetching and pushing between the repositories of one host, and repositories that are
submodules of another.
-/

namespace Grove.Git.Work

/-- What is told when nothing answers at a remote. -/
def unreachable (url : String) : String :=
  "fatal: '" ++ url ++ "' does not appear to be a git repository\n" ++
    "fatal: Could not read from remote repository.\n\n" ++
    "Please make sure you have the correct access rights\nand the repository exists."

/-- The repository at a directory that a remote names, seen from a location. -/
def remoteAt? (x : Scene) (from_ : Location) (url : String) : Option (Location × Repository) :=
  let found (text : String) : Option (Location × Repository) :=
    (x.locate? from_ (.ofString text)).bind fun loc => x.repositoryOf? loc <|> x.keptAt? loc
  found url <|> found (url ++ ".git")

/-- The absolute path of a directory that a remote names. -/
def absoluteUrl (x : Scene) (from_ : Location) (url : String) : String :=
  let p := Path.ofString url
  if p.isAbsolute then url
  else
    match x.locate? from_ p with
    | some loc => (Files.pathOf loc).text
    | none => url

/-- The repository with the branches and tags that another one offers. -/
def fetched (r other : Repository) (remote : String) : Repository :=
  let branches := other.branchNames.filterMap fun name =>
    (other.commitAt? (Repository.branchRef name)).map fun id =>
      (Repository.trackingRef remote name, id)
  let tags := other.tagNames.filterMap fun name =>
    if (r.ref? (Repository.tagRef name)).isSome then none
    else (other.commitAt? (Repository.tagRef name)).map fun id => (Repository.tagRef name, id)
  (branches ++ tags).foldl (fun r (ref, id) => r.setRef ref (.commit id)) r

/-- Fetches from a remote. -/
def fetch (s : Site) (remote : String) : Work Unit := do
  let x ← scene
  let url := (s.repo.remoteUrl? remote).getD remote
  match remoteAt? x s.repo.home url with
  | none => stop 128 (unreachable url)
  | some (_, other) =>
    if (s.repo.remoteUrl? remote).isSome then save s.kept (fetched s.repo other remote)

/-- Clones a repository into a work tree, with its own directory at a location. -/
def cloneInto (x : Scene) (home kept : Location) (url : String) (other : Repository) (bare : Bool) :
    Work Unit := do
  let branch? := other.currentBranch?
  let name := branch?.getD "master"
  let r := Repository.empty bare home name
  let head? := other.headCommit?
  let head : Head := match branch?, head? with
    | none, some id => .detached id (short id) id
    | _, _ => .branch name
  let r := { (r.configure "remote.origin.url" url) with head }
  let r :=
    if bare then
      other.refs.foldl (fun r (ref, value) =>
        if ref.startsWith "refs/remotes/" then r else r.setRef ref value) r
    else
      let r := fetched r other Branch.defaultRemote
      let r := match branch?, head? with
        | some _, some id =>
          (r.setRef (Repository.trackingRef Branch.defaultRemote "HEAD")
            (.symbolic (Repository.trackingRef Branch.defaultRemote name))).setRef
              (Repository.branchRef name) (.commit id)
        | _, _ => r
      if branch?.isSome then r.track name Branch.defaultRemote (Repository.branchRef name) else r
  let snapshot := (head?.map x.depot.history.snapshotOf).getD []
  let top := if bare then x.files.top
    else snapshot.foldl (fun top (path, item) => Scene.place top home path (some item))
      x.files.top
  setTop (top.put (kept ++ [headFile]) (.ofText ("ref: refs/heads/" ++ name ++ "\n")))
  save kept (if bare then r else { r with index := snapshot })

/-- The name that a clone of a directory gets. -/
def cloneName (url : String) : String :=
  let last := ((Path.ofString url).fileName?).getD url
  if last.endsWith ".git" then String.ofList (last.toList.take (last.length - 4)) else last

/-- Clones a repository into a directory, the one of its own name unless another is given. -/
def clone (here : Location) (url : String) (dir? : Option String) (bare : Bool) : Work Unit := do
  let x ← scene
  match remoteAt? x here url with
  | none => fatal ("repository '" ++ url ++ "' does not exist")
  | some (_, other) =>
    let dir := dir?.getD (cloneName url ++ if bare then ".git" else "")
    let target := (Files.pathOf here).join (.ofString dir)
    let files := (x.files.createDirectories target).toOption.getD x.files
    let home ← match files.place target with
      | .ok place => pure place.location
      | .error e => stop 128 e.message
    let isFree := match files.top.get? home with
      | some (.directory []) => true
      | _ => false
    if !isFree then
      fatal ("destination path '" ++ dir ++ "' already exists and is not an empty directory.")
    let kept := if bare then home else home ++ [entryName]
    cloneInto { x with files } home kept (absoluteUrl x here url) other bare

/-! ### Pushing -/

/-- Why a push does not move a reference of the other repository. -/
inductive Refusal where
  /-- The branch is checked out there. -/
  | checkedOut
  /-- The branch has commits there that are not known here. -/
  | behind (known : Bool)
  /-- The tag stands for another commit there. -/
  | otherTag
  deriving DecidableEq

/-- The text for a refused push. -/
def Refusal.message (url branch : String) : Refusal → String
  | .checkedOut =>
    let told (line : String) : String :=
      "remote: " ++ line ++ (if line = "" then "" else "        ") ++ "\n"
    String.join (["error: refusing to update checked out branch: refs/heads/" ++ branch,
      "error: By default, updating the current branch in a non-bare repository",
      "is denied, because it will make the index and work tree inconsistent",
      "with what you pushed, and will require 'git reset --hard' to match",
      "the work tree to HEAD.", "",
      "You can set the 'receive.denyCurrentBranch' configuration variable",
      "to 'ignore' or 'warn' in the remote repository to allow pushing into",
      "its current branch; however, this is not recommended unless you",
      "arranged to update its work tree to match what you pushed in some",
      "other way.", "",
      "To squelch this message and still keep the default behaviour, set",
      "'receive.denyCurrentBranch' configuration variable to 'refuse'."].map told) ++
      "To " ++ url ++ "\n ! [remote rejected] " ++ branch ++ " -> " ++ branch ++
      " (branch is currently checked out)\nerror: failed to push some refs to '" ++ url ++ "'"
  | .otherTag =>
    "To " ++ url ++ "\n ! [rejected]        " ++ branch ++ " -> " ++ branch ++
      " (already exists)\nerror: failed to push some refs to '" ++ url ++
      "'\nhint: Updates were rejected because the tag already exists in the remote."
  | .behind known =>
    let reason := if known then "(non-fast-forward)" else "(fetch first)"
    "To " ++ url ++ "\n ! [rejected]        " ++ branch ++ " -> " ++ branch ++ " " ++ reason ++
      "\nerror: failed to push some refs to '" ++ url ++ "'\n" ++
      if known then
        "hint: Updates were rejected because the tip of your current branch is behind\n" ++
        "hint: its remote counterpart. Integrate the remote changes (e.g.\n" ++
        "hint: 'git pull ...') before pushing again.\n" ++
        "hint: See the 'Note about fast-forwards' in 'git push --help' for details."
      else
        "hint: Updates were rejected because the remote contains work that you do\n" ++
        "hint: not have locally. This is usually caused by another repository pushing\n" ++
        "hint: to the same ref. You may want to first integrate the remote changes\n" ++
        "hint: (e.g., 'git pull ...') before pushing again.\n" ++
        "hint: See the 'Note about fast-forwards' in 'git push --help' for details."

/-- What is told when a name to push matches a number of references other than one. -/
def badSource (name url reason : String) : String :=
  "error: src refspec " ++ name ++ " " ++ reason ++ "\nerror: failed to push some refs to '" ++ url ++
    "'"

/-- Why a reference of another repository is not moved to a commit, if it is not. -/
def refusal? (h : History) (r other : Repository) (ref : String) (id : ObjectId) : Option Refusal :=
  match other.commitAt? ref with
  | none => none
  | some old =>
    let known := r.refs.any fun (name, _) =>
      (r.commitAt? name).any fun tip => h.follows tip old
    if old = id then none
    else if ref.startsWith "refs/tags/" then some .otherTag
    else if !h.follows id old then some (.behind known)
    else if !other.bare && other.currentBranch?.map Repository.branchRef = some ref &&
        (other.setting? "receive.denycurrentbranch").all fun v => v = "refuse" then
      some .checkedOut
    else none

/-- Sends the commit of a branch to a branch of a remote; the branch comes from there from then on if
`tracking`. A name that only a tag has sends the tag. -/
def send (s : Site) (remote branch target : String) (tracking : Bool) : Work Unit := do
  let url := (s.repo.remoteUrl? remote).getD remote
  let matching := [Repository.tagRef branch, Repository.branchRef branch].filter fun ref =>
    (s.repo.commitAt? ref).isSome
  match matching with
  | [] => stop 1 (badSource branch url "does not match any")
  | [ref] =>
    let x ← scene
    match remoteAt? x s.repo.home url with
    | none => stop 128 (unreachable url)
    | some (kept, other) =>
      match s.repo.commitAt? ref with
      | none => return
      | some id =>
        let isTag := ref = Repository.tagRef branch
        let target := if isTag then ref else target
        match refusal? x.depot.history s.repo other target id with
        | some refusal => stop 1 (refusal.message url branch)
        | none =>
          save kept (other.setRef target (.commit id))
          let r := s.repo
          let r := if (r.remoteUrl? remote).isSome then
              match Branch.ofRef? target with
              | some b => r.setRef (Repository.trackingRef remote b.name) (.commit id)
              | none => r
            else r
          save s.kept (if tracking && !isTag then r.track branch remote target else r)
  | _ => stop 1 (badSource branch url "matches more than one")

/-- Pushes the branch checked out to where it comes from. -/
def push (s : Site) : Work Unit := do
  let r := s.repo
  let branch? := r.currentBranch?
  let remote? := (branch?.bind r.tracked?).map (·.1)
  let remote := remote?.getD (match r.remotes with
    | [one] => one
    | _ => Branch.defaultRemote)
  if (r.remoteUrl? remote).isNone && remote?.isNone then
    fatal ("No configured push destination.\n" ++
      "Either specify the URL from the command-line or configure a remote repository using\n\n" ++
      "    git remote add <name> <url>\n\nand then push using the remote name\n\n" ++
      "    git push <name>\n")
  match branch? with
  | none =>
    fatal ("You are not currently on a branch.\n" ++
      "To push the history leading to the current (detached HEAD)\nstate now, use\n\n" ++
      "    git push " ++ remote ++ " HEAD:<name-of-remote-branch>\n")
  | some branch =>
    match r.tracked? branch with
    | none =>
      fatal ("The current branch " ++ branch ++ " has no upstream branch.\n" ++
        "To push the current branch and set the remote as upstream, use\n\n" ++
        "    git push --set-upstream " ++ remote ++ " " ++ branch ++ "\n\n" ++
        "To have this happen automatically for branches without a tracking\n" ++
        "upstream, see 'push.autoSetupRemote' in 'git help config'.\n")
    | some (_, target) =>
      if target ≠ Repository.branchRef branch then
        let there := (Text.dropStart? "refs/heads/".toList target.toList).elim target String.ofList
        fatal ("The upstream branch of your current branch does not match\n" ++
          "the name of your current branch.  To push to the upstream branch\non the remote, use\n\n" ++
          "    git push " ++ remote ++ " HEAD:" ++ there ++ "\n\n" ++
          "To push to the branch of the same name on the remote, use\n\n" ++
          "    git push " ++ remote ++ " HEAD\n\n" ++
          "To choose either option permanently, see push.default in 'git help config'.\n\n" ++
          "To avoid automatically configuring an upstream branch when its name\n" ++
          "won't match the local branch, see option 'simple' of branch.autoSetupMerge\n" ++
          "in 'git help config'.\n")
      send s remote branch target false

/-- Adds a remote. -/
def addRemote (s : Site) (name url : String) : Work Unit := do
  if (s.repo.remoteUrl? name).isSome then stop 3 ("error: remote " ++ name ++ " already exists.")
  save s.kept (s.repo.configure ("remote." ++ name ++ ".url") url)

/-! ### Submodules -/

/-- The lines that list a submodule. -/
def submoduleText (path url : String) : String :=
  "[submodule \"" ++ path ++ "\"]\n\tpath = " ++ path ++ "\n\turl = " ++ url ++ "\n"

/-- Clones a repository into a work tree as a submodule of it and stages that. -/
def addSubmodule (s : Site) (url path : String) : Work Unit := do
  let x ← scene
  match remoteAt? x s.repo.home url with
  | none => fatal ("repository '" ++ url ++ "' does not exist")
  | some (_, other) =>
    let names := Snapshot.names path
    let home := s.repo.home ++ names
    let kept := s.kept ++ "modules" :: names
    let up := String.join (names.map fun _ => "../")
    let pointer := "gitdir: " ++ up ++ entryName ++ "/modules/" ++ path ++ "\n"
    let top := x.files.top.put (home ++ [entryName]) (.ofText pointer)
    let listing := s.repo.home ++ [".gitmodules"]
    let before := match top.get? listing with
      | some (.file content _) => (String.fromUTF8? content).getD ""
      | _ => ""
    let top := top.put listing (.ofText (before ++ submoduleText path url))
    cloneInto { x with files := { x.files with top } } home kept url other false
    let _ ← stage s true true fun p => p = path || p = ".gitmodules"

end Grove.Git.Work
