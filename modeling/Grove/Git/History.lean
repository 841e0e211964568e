import Grove.Git.Snapshot
import Grove.Text.Split

/-!
# Histories

Commits and how they follow each other. A commit holds a snapshot, the commits it follows, who made
it and a message; its identifier is a digest of all that, so whatever is committed twice is one
commit. The commits reached from one are listed breadth first, each once.

Main statement: a commit that was added is found under its identifier (`find?_add_self`).
-/

namespace Grove.Git

/-- A commit. -/
structure Commit where
  /-- What was committed. -/
  snapshot : Snapshot
  /-- The commits it follows, the main line first. -/
  parents : List ObjectId
  /-- Who wrote it and when. -/
  author : String
  /-- Who committed it and when. -/
  committer : String
  /-- The message, which ends in a line feed. -/
  message : String
  deriving DecidableEq, Inhabited

namespace Commit

/-- The text that stands for the commit. -/
def text (c : Commit) : String :=
  "tree " ++ c.snapshot.id ++ "\n" ++ String.join (c.parents.map fun p => "parent " ++ p ++ "\n") ++
    "author " ++ c.author ++ "\ncommitter " ++ c.committer ++ "\n\n" ++ c.message

/-- The identifier. -/
def id (c : Commit) : ObjectId :=
  Digest.hex (objectDigest "commit" c.text.toUTF8.data.toList)

/-- The first paragraph of the message in one line. -/
def subject (c : Commit) : String :=
  let first := (Text.lines c.message.toList).takeWhile (· ≠ [])
  " ".intercalate (first.map String.ofList)

end Commit

/-- All commits known, by identifier. -/
abbrev History := List (ObjectId × Commit)

namespace History

/-- The commit with an identifier. -/
def find? (h : History) (id : ObjectId) : Option Commit :=
  h.lookup id

/-- The history with a commit. -/
def add (h : History) (c : Commit) : History :=
  if (h.lookup c.id).isSome then h else (c.id, c) :: h

/-- A commit that was not known is found under its identifier once it is added. -/
theorem find?_add_self (h : History) (c : Commit) (hc : h.find? c.id = none) :
    (h.add c).find? c.id = some c := by
  have : h.lookup c.id = none := hc
  simp [add, find?, this]

/-- The snapshot of a commit; an empty one when it is not known. -/
def snapshotOf (h : History) (id : ObjectId) : Snapshot :=
  ((h.find? id).map Commit.snapshot).getD []

/-- The commits that a commit follows. -/
def parentsOf (h : History) (id : ObjectId) : List ObjectId :=
  ((h.find? id).map Commit.parents).getD []

/-- The commits reached from those in the queue, `seen` among them left out. -/
def reachedFrom (h : History) (fuel : Nat) (seen queue : List ObjectId) : List ObjectId :=
  match fuel, queue with
  | _, [] => []
  | 0, _ => []
  | fuel + 1, id :: queue =>
    let fresh := (h.parentsOf id).filter fun p => p ∉ seen
    id :: reachedFrom h fuel (seen ++ fresh) (queue ++ fresh.eraseDups)

/-- A commit and all it follows, the nearest first. -/
def ancestors (h : History) (id : ObjectId) : List ObjectId :=
  h.reachedFrom (h.length + 1) [id] [id]

/-- Whether a commit is another or follows it. -/
def follows (h : History) (later earlier : ObjectId) : Bool :=
  (h.ancestors later).contains earlier

/-- The last commit that two have in common, if they have one. -/
def mergeBase? (h : History) (a b : ObjectId) : Option ObjectId :=
  let shared := (h.ancestors a).filter fun c => h.follows b c
  shared.find? fun c => shared.all fun d => d = c || !h.follows d c

/-- How many commits lead to `a` and not to `b`. -/
def ahead (h : History) (a b : ObjectId) : Nat :=
  let known := h.ancestors b
  (h.ancestors a).countP fun c => !known.contains c

/-- The commits whose identifier starts with some digits. -/
def abbreviated (h : History) (digits : String) : List ObjectId :=
  (h.map (·.1)).filter fun id => digits.toList.isPrefixOf id.toList

end History

/-- The length that identifiers are shortened to. -/
def shortLength : Nat := 7

/-- The first digits of an identifier. -/
def short (id : ObjectId) : String :=
  String.ofList (id.toList.take shortLength)

end Grove.Git
