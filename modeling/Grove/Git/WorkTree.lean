import Grove.Files.Basic
import Grove.Git.Repository
import Grove.Walk.Basic

/-!
# Work trees

A work tree compared with what is staged and committed. What is neither staged nor left out by an
ignore file is untracked; a directory that is a repository of its own counts as one thing.
-/

namespace Grove.Git

/-- What work trees are looked up in. -/
structure Scene where
  /-- The files. -/
  files : Files
  /-- The repositories. -/
  depot : Depot

namespace Scene

/-- The path that the file in place of a repository names. -/
def pointedAt? (content : ByteArray) : Option Path := do
  let text ← String.fromUTF8? content
  let rest ← Text.dropStart? "gitdir: ".toList text.toList
  return .ofString (String.ofList (Text.dropEndWhile (fun c => c = '\n' || c = '\r') rest))

/-- The location that a path leads to from a directory. -/
def locate? (x : Scene) (from_ : Location) (p : Path) : Option Location :=
  let start := if p.isAbsolute then [] else from_
  match Files.follow x.files.top true Files.maxLinks start p.pieces with
  | .ok place => if place.present then some place.location else none
  | .error _ => none

/-- The repository kept at a location. -/
def keptAt? (x : Scene) (loc : Location) : Option (Location × Repository) :=
  if (x.files.top.get? (loc ++ [headFile])).isSome then
    (x.depot.repository? loc).map (loc, ·)
  else none

/-- The repository of a work tree with this top directory, with the location it is kept at. -/
def repositoryOf? (x : Scene) (dir : Location) : Option (Location × Repository) :=
  match x.files.top.get? (dir ++ [entryName]) with
  | some (.file content _) =>
    ((pointedAt? content).bind (x.locate? dir)).bind x.keptAt?
  | some _ => (x.locate? dir ⟨[entryName]⟩).bind x.keptAt?
  | none => none

/-- The item at a path of a work tree, where `staged?` tells what is expected there. -/
def workItem? (x : Scene) (home : Location) (path : String) (staged? : Option Item) :
    Option Item :=
  let loc := home ++ Snapshot.names path
  match x.files.top.get? loc with
  | none => none
  | some (.directory _) =>
    match staged? with
    | some (.submodule id) =>
      match x.repositoryOf? loc with
      | some (_, r) => some (.submodule (r.headCommit?.getD id))
      | none => some (.submodule id)
    | _ => none
  | some node => Item.ofNode? node

/-! ### Untracked files -/

/-- Whether ignore files leave a path out, given those of the directories on the way, innermost
first. -/
def isIgnored (levels : List Walk.Level) (names : List String) (isDirectory : Bool) : Bool :=
  let first (rules : Walk.Level → List Walk.Rule) : Walk.Verdict :=
    levels.foldl
      (fun v l => v.orElse
        (Walk.verdict (rules l) ("/".intercalate (names.drop l.depth)) isDirectory))
      .silent
  (first Walk.Level.gitRules).orElse (first Walk.Level.excludeRules) = .ignored

mutual

/-- The paths below a directory that are not tracked. A repository of its own is named with a slash
at its end. -/
def untrackedBelow (x : Scene) (home : Location) (tracked : List (String × Bool))
    (levels : List Walk.Level) (excluded : Bool) (names : List String) : Node → List String
  | .directory es => untrackedAmong x home tracked
      (Walk.Level.ofDirectory x.files.top (home ++ names) names.length :: levels) excluded names es
  | _ => []

/-- The paths among some entries that are not tracked. -/
def untrackedAmong (x : Scene) (home : Location) (tracked : List (String × Bool))
    (levels : List Walk.Level) (excluded : Bool) (names : List String) :
    List (String × Node) → List String
  | [] => []
  | (name, node) :: rest =>
    let here := names ++ [name]
    let path := "/".intercalate here
    let excluded' := excluded || isIgnored levels here node.isDirectory
    let found :=
      if name = entryName || (tracked.lookup path).isSome then []
      else if node.isDirectory then
        if tracked.any (Snapshot.isBelow path ·.1) then
          untrackedBelow x home tracked levels excluded' here node
        else if excluded' then []
        else if (x.repositoryOf? (home ++ here)).isSome then [path ++ "/"]
        else untrackedBelow x home tracked levels excluded' here node
      else if excluded' then []
      else [path]
    found ++ untrackedAmong x home tracked levels excluded names rest

end

/-- The paths that a repository tracks. -/
def trackedPaths (r : Repository) : List String :=
  r.index.paths ++ r.unmerged.map (·.1)

/-- The untracked paths of a repository. -/
def untracked (x : Scene) (r : Repository) : List String :=
  let top := (x.files.top.get? r.home).getD .emptyDirectory
  let found := x.untrackedBelow r.home ((trackedPaths r).map (·, true)) [] false [] top
  found.mergeSort fun a b => a ≤ b

/-- The outermost directory on the way to an untracked path that holds nothing tracked, or the path
itself. -/
def collapsed (tracked : List String) (path : String) : String :=
  let names := Snapshot.names path
  let directories := (List.range (names.length - 1)).map fun n => "/".intercalate (names.take (n + 1))
  match directories.find? fun d => !tracked.any (Snapshot.isBelow d) with
  | some d => d ++ "/"
  | none => path

end Scene

/-! ### Status -/

/-- How a path differs. -/
inductive Difference where
  /-- It is new. -/
  | added
  /-- It is gone. -/
  | deleted
  /-- Its content or mode differs. -/
  | modified
  /-- It is of another kind. -/
  | retyped
  deriving DecidableEq

namespace Difference

/-- Whether both are files, both links or both submodules. -/
def sameKind : Item → Item → Bool
  | .file .., .file .. => true
  | .link _, .link _ => true
  | .submodule _, .submodule _ => true
  | _, _ => false

/-- How an item differs from what was there before. -/
def between? (old? new? : Option Item) : Option Difference :=
  match old?, new? with
  | none, none => none
  | none, some _ => some added
  | some _, none => some deleted
  | some a, some b => if a = b then none else some (if sameKind a b then modified else retyped)

/-- The letter that stands for the difference. -/
def letter : Difference → String
  | added => "A"
  | deleted => "D"
  | modified => "M"
  | retyped => "T"

/-- The difference in words. -/
def label : Difference → String
  | added => "new file:   "
  | deleted => "deleted:    "
  | modified => "modified:   "
  | retyped => "typechange: "

end Difference

/-- How a work tree differs from what is staged and committed. -/
structure Status where
  /-- What is staged and not committed. -/
  staged : List (String × Difference)
  /-- What is in the work tree and not staged, with remarks on submodules. -/
  unstaged : List (String × Difference × List String)
  /-- What a merge left open. -/
  unmerged : List (String × String)
  /-- What is not tracked, directories as a whole. -/
  untracked : List String

namespace Status

/-- Whether nothing differs. -/
def isClean (s : Status) : Bool :=
  s.staged.isEmpty && s.unstaged.isEmpty && s.unmerged.isEmpty && s.untracked.isEmpty

/-- The remarks on a submodule with this status. -/
def remarks (moved : Bool) (s : Status) : List String :=
  (if moved then ["new commits"] else []) ++
    (if s.staged.isEmpty && s.unstaged.isEmpty && s.unmerged.isEmpty then []
      else ["modified content"]) ++
    if s.untracked.isEmpty then [] else ["untracked content"]

/-- The status in short lines. -/
def lines (s : Status) : List String :=
  let paths := Ordered.ofList compare
    (s.staged.map (·.1) ++ s.unstaged.map (·.1) ++ s.unmerged.map (·.1))
  paths.map (fun path =>
    match s.unmerged.lookup path with
    | some letters => letters ++ " " ++ path
    | none =>
      ((s.staged.lookup path).elim " " Difference.letter) ++
        ((s.unstaged.lookup path).elim " " fun d => d.1.letter) ++ " " ++ path) ++
    s.untracked.map ("?? " ++ ·)

end Status

namespace Scene

/-- What is committed. -/
def committed (x : Scene) (r : Repository) : Snapshot :=
  (r.headCommit?.map x.depot.history.snapshotOf).getD []

/-- The status of a repository, with submodules to a depth. -/
def status (x : Scene) (depth : Nat) (r : Repository) : Status :=
  let committed := x.committed r
  let settled (path : String) : Bool := (r.unmerged.lookup path).isNone
  let staged := (Snapshot.allPaths [committed, r.index]).filterMap fun path =>
    if settled path then
      (Difference.between? (committed.item? path) (r.index.item? path)).map (path, ·)
    else none
  let unstaged := r.index.filterMap fun (path, item) =>
    let now? := x.workItem? r.home path (some item)
    let notes : List String :=
      match depth, item, now? with
      | depth + 1, .submodule id, some (.submodule head) =>
        match x.repositoryOf? (r.home ++ Snapshot.names path) with
        | some (_, inner) => Status.remarks (head ≠ id) (x.status depth inner)
        | none => []
      | _, _, _ => []
    match Difference.between? (some item) now? with
    | some d => some (path, d, notes)
    | none => if notes = [] then none else some (path, .modified, notes)
  let tracked := trackedPaths r
  let untracked := ((x.untracked r).map (collapsed tracked)).eraseDups
  ⟨staged, unstaged, r.unmerged, untracked⟩

/-- The status of a repository with all its submodules. -/
def fullStatus (x : Scene) (r : Repository) : Status :=
  x.status (x.depot.repositories.length + 1) r

end Scene

end Grove.Git
