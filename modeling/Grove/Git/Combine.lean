import Grove.Git.LineMerge
import Grove.Git.WorkTree

/-!
# Merging snapshots

Two snapshots are merged path by path against the one they both come from. A path that one side left
alone is as the other side has it; a file that both sides changed is merged line by line. What cannot
be settled is left to the user, with our version and, in files, theirs between marks.

Main statement: a side that changed nothing leaves the other (`settlePath_ours`).
-/

namespace Grove.Git

/-- What becomes of a path in a merge. -/
structure Settled where
  /-- The item in the merged snapshot. -/
  item? : Option Item
  /-- The state in two letters if it is not settled. -/
  open? : Option String
  /-- What the user is told. -/
  messages : List String
  deriving DecidableEq

namespace Settled

/-- A path without a conflict. -/
def clean (item? : Option Item) : Settled :=
  ⟨item?, none, []⟩

end Settled

/-- Whether bytes are no text. -/
def isBinary (content : ByteArray) : Bool :=
  content.data.toList.contains 0

/-- Merges two versions of a file against the one they come from, if there is one. -/
def settleFiles (ourName theirName path : String) (base? : Option ByteArray)
    (ours theirs : ByteArray) (executable : Bool) : Settled :=
  let auto := "Auto-merging " ++ path
  let (kind, letters) := if base?.isSome then ("content", "UU") else ("add/add", "AA")
  let conflict := "CONFLICT (" ++ kind ++ "): Merge conflict in " ++ path
  if isBinary ours || isBinary theirs then
    ⟨some (.file ours executable), some letters,
      ["warning: Cannot merge binary files: " ++ path ++ " (" ++ ourName ++ " vs. " ++ theirName ++ ")",
        auto, conflict]⟩
  else
    let m := LineMerge.merge ((base?.getD .empty).data.toList) ours.data.toList theirs.data.toList
      ourName theirName
    let item : Item := .file ⟨m.content.toArray⟩ executable
    if m.disagree then ⟨some item, some letters, [auto, conflict]⟩
    else ⟨some item, none, [auto]⟩

/-- What becomes of a path. -/
def settlePath (ourName theirName path : String) (base? ours? theirs? : Option Item) : Settled :=
  if ours? = theirs? then .clean ours?
  else if base? = ours? then .clean theirs?
  else if base? = theirs? then .clean ours?
  else
    match base?, ours?, theirs? with
    | some (.file b bx), some (.file o ox), some (.file t tx) =>
      settleFiles ourName theirName path (some b) o t (if bx = ox then tx else ox)
    | _, some (.file o ox), some (.file t tx) =>
      settleFiles ourName theirName path none o t (ox || tx)
    | _, none, some item =>
      ⟨some item, some "DU", ["CONFLICT (modify/delete): " ++ path ++ " deleted in " ++ ourName ++
        " and modified in " ++ theirName ++ ".  Version " ++ theirName ++ " of " ++ path ++
        " left in tree."]⟩
    | _, some item, none =>
      ⟨some item, some "UD", ["CONFLICT (modify/delete): " ++ path ++ " deleted in " ++ theirName ++
        " and modified in " ++ ourName ++ ".  Version " ++ ourName ++ " of " ++ path ++
        " left in tree."]⟩
    | _, _, _ => ⟨ours?, some "UU", ["CONFLICT (content): Merge conflict in " ++ path]⟩

/-- Where we changed nothing, theirs is taken. -/
theorem settlePath_ours (a b path : String) (base? theirs? : Option Item) :
    settlePath a b path base? base? theirs? = .clean theirs? := by
  by_cases h : base? = theirs? <;> simp [settlePath, h]

/-- Two snapshots merged. -/
structure Combined where
  /-- The merged snapshot, with what is left open as it goes to the work tree. -/
  snapshot : Snapshot
  /-- The paths left open, with their state in two letters. -/
  unmerged : List (String × String)
  /-- What the user is told. -/
  messages : List String
  deriving DecidableEq

/-- Merges two snapshots against the one they come from. -/
def combine (ourName theirName : String) (base ours theirs : Snapshot) : Combined :=
  (Snapshot.allPaths [base, ours, theirs]).foldl
    (fun c path =>
      let p := settlePath ourName theirName path (base.item? path) (ours.item? path)
        (theirs.item? path)
      ⟨c.snapshot.set path p.item?, c.unmerged ++ (p.open?.map (path, ·)).toList,
        c.messages ++ p.messages⟩)
    ⟨[], [], []⟩

end Grove.Git
