import Grove.Git.WorkTree

/-!
# Moving a work tree

A work tree is moved from one snapshot to another. Paths that the snapshots agree on keep what is
staged and what lies in the work tree; the others must be as the first snapshot has them, or nothing
is moved at all.

Main statement: between equal snapshots nothing moves (`changedPaths_self`).
-/

namespace Grove.Git

/-- Paths that stand in the way of a move. -/
structure Obstacles where
  /-- Paths that were staged. -/
  staged : List String
  /-- Paths that were changed and not staged. -/
  changed : List String
  /-- Paths that are not tracked and would be written. -/
  untracked : List String
  /-- Paths that are no longer tracked and would be removed. -/
  leftover : List String
  deriving DecidableEq

namespace Obstacles

/-- Whether nothing stands in the way. -/
def isEmpty (o : Obstacles) : Bool :=
  o.staged.isEmpty && o.changed.isEmpty && o.untracked.isEmpty && o.leftover.isEmpty

/-- Paths one a line. -/
def listed (paths : List String) : String :=
  String.join (paths.map fun p => "\t" ++ p ++ "\n")

/-- The paths that were changed, in words. -/
def lost (paths : List String) (operation before : String) : String :=
  if paths.isEmpty then ""
  else "error: Your local changes to the following files would be overwritten by " ++ operation ++
    ":\n" ++ listed paths ++ "Please commit your changes or stash them before you " ++ before ++ ".\n"

/-- The paths that are not tracked, in words. -/
def inTheWay (paths : List String) (fate operation before : String) : String :=
  if paths.isEmpty then ""
  else "error: The following untracked working tree files would be " ++ fate ++ " by " ++ operation ++
    ":\n" ++ listed paths ++ "Please move or remove them before you " ++ before ++ ".\n"

/-- The obstacles in words, given the name of the operation and what is to be done before it. -/
def message (o : Obstacles) (operation before : String) : String :=
  lost o.staged operation before ++ lost o.changed operation before ++
  inTheWay o.untracked "overwritten" operation before ++
  inTheWay o.leftover "removed" operation before ++ "Aborting"

end Obstacles

namespace Snapshot

/-- The paths that two snapshots disagree on. -/
def changedPaths (old new : Snapshot) : List String :=
  (allPaths [old, new]).filter fun path => old.item? path ≠ new.item? path

/-- A snapshot agrees with itself. -/
theorem changedPaths_self (s : Snapshot) : changedPaths s s = [] := by
  simp [changedPaths]

end Snapshot

namespace Scene

/-- The directories left empty on the way to a path are removed, innermost first. -/
def prune (top : Node) (home : Location) : List String → Node
  | [] => top
  | name :: rest =>
    let names := (name :: rest).reverse
    match top.get? (home ++ names) with
    | some (.directory []) => prune (top.erase (home ++ names)) home rest
    | _ => top

/-- The files with an item at a path of a work tree, or with nothing there. A submodule gets an empty
directory unless one is there. -/
def place (top : Node) (home : Location) (path : String) (item? : Option Item) : Node :=
  let names := Snapshot.names path
  match item? with
  | some (.submodule _) =>
    match top.get? (home ++ names) with
    | some (.directory _) => top
    | _ => top.put (home ++ names) .emptyDirectory
  | some item => top.put (home ++ names) item.node
  | none =>
    match top.get? (home ++ names) with
    | some (.directory []) => prune (top.erase (home ++ names)) home names.dropLast.reverse
    | some (.directory _) => top
    | some _ => prune (top.erase (home ++ names)) home names.dropLast.reverse
    | none => top

/-- Whether an ignore file leaves out a path of a work tree. -/
def ignoresPath (x : Scene) (home : Location) (path : String) : Bool :=
  let names := Snapshot.names path
  let levels := ((List.range names.length).map fun n =>
    Walk.Level.ofDirectory x.files.top (home ++ names.take n) n).reverse
  (List.range names.length).any fun n =>
    isIgnored (levels.drop (names.length - 1 - n)) (names.take (n + 1)) (n + 1 < names.length)

/-- What stands in the way of moving a work tree between two snapshots. -/
def obstacles (x : Scene) (r : Repository) (old new : Snapshot) : Obstacles :=
  let moving := (Snapshot.changedPaths old new).filter fun path =>
    r.index.item? path ≠ new.item? path
  let isStaged (path : String) : Bool := old.item? path ≠ r.index.item? path
  let isChanged (path : String) : Bool :=
    (r.index.item? path).any fun staged =>
      match x.workItem? r.home path (some staged) with
      | some present => present ≠ staged && !staged.isSubmodule
      | none => false
  let isUntracked (path : String) : Bool :=
    (r.index.item? path).isNone && (x.workItem? r.home path none).isSome &&
      !x.ignoresPath r.home path
  let isLeftover (path : String) : Bool := (new.item? path).isNone && isUntracked path
  ⟨moving.filter isStaged, moving.filter fun path => !isStaged path && isChanged path,
    moving.filter fun path => (old.item? path).isNone && isUntracked path,
    (Snapshot.changedPaths old new).filter isLeftover⟩

/-- The work tree and what is staged after a move between two snapshots. -/
def moved (x : Scene) (r : Repository) (old new : Snapshot) : Files × Snapshot :=
  let moving := (Snapshot.changedPaths old new).filter fun path =>
    r.index.item? path ≠ new.item? path
  let goes := moving.filter fun path => (new.item? path).isNone
  let comes := moving.filter fun path => (new.item? path).isSome
  let top := (goes ++ comes).foldl (fun top path => place top r.home path (new.item? path))
    x.files.top
  ({ x.files with top }, moving.foldl (fun s path => s.set path (new.item? path)) r.index)

end Scene

end Grove.Git
