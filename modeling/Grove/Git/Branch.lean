import Grove.Ordered
import Grove.Text.Split

/-!
# Branches

A branch is local or tracks one of a remote. A snapshot holds the branches of one checkout in order,
each once, with the branch checked out. Looking a name up among the remote branches prefers the
remote `origin`, then the least remote.
-/

namespace Grove

/-- A local branch or a remote-tracking one. -/
structure Branch where
  /-- The name without the remote. -/
  name : String
  /-- The remote, unless the branch is local. -/
  remote? : Option String
  deriving DecidableEq, Inhabited

namespace Branch

/-- The remote that branches are pushed to for the first time. -/
def defaultRemote : String := "origin"

/-- A local branch. -/
def localNamed (name : String) : Branch :=
  ⟨name, none⟩

/-- A branch of a remote. -/
def remoteNamed (remote name : String) : Branch :=
  ⟨name, some remote⟩

/-- Whether the branch belongs to a remote. -/
def isRemote (b : Branch) : Bool :=
  b.remote?.isSome

/-- The name that git takes for a start point: `remote/name`, or the bare name of a local branch. -/
def trackingName (b : Branch) : String :=
  match b.remote? with
  | some remote => remote ++ "/" ++ b.name
  | none => b.name

/-- Branches are ordered by name; of one name the local one comes first, then by remote. -/
def order (a b : Branch) : Ordering :=
  (compare a.name b.name).then (compare a.remote? b.remote?)

instance : Std.TransCmp order :=
  inferInstanceAs (Std.TransCmp
    (compareLex (compareOn fun b : Branch => b.name) (compareOn fun b => b.remote?)))

instance : Std.LawfulEqCmp order where
  eq_of_compare := by
    rintro ⟨name, remote?⟩ ⟨name', remote?'⟩ h
    rw [order, Ordering.then_eq_eq] at h
    obtain rfl := Std.LawfulEqOrd.eq_of_compare h.1
    obtain rfl := Std.LawfulEqOrd.eq_of_compare h.2
    rfl

/-- Reads a full reference name. References outside the two branch name spaces and the symbolic
`HEAD` of a remote are no branches. -/
def ofRef? (ref : String) : Option Branch :=
  match Text.dropStart? "refs/heads/".toList ref.toList with
  | some [] => none
  | some name => some (localNamed (String.ofList name))
  | none =>
    match Text.dropStart? "refs/remotes/".toList ref.toList with
    | none => none
    | some rest =>
      match Text.cut ['/'] rest with
      | none => none
      | some (remote, name) =>
        if name = [] ∨ name = "HEAD".toList then none
        else some (remoteNamed (String.ofList remote) (String.ofList name))

end Branch

/-- The branches of one checkout at one moment. -/
structure Branches where
  /-- The branch checked out; none when no branch is. -/
  current? : Option Branch
  /-- All branches, in order. -/
  all : List Branch
  deriving DecidableEq, Inhabited

namespace Branches

/-- The snapshot of a current branch and a list of branches in any order. -/
def of (current? : Option String) (branches : List Branch) : Branches :=
  ⟨current?.map Branch.localNamed, Ordered.ofList Branch.order branches⟩

/-- The local branches. -/
def locals (bs : Branches) : List Branch :=
  bs.all.filter fun b => !b.isRemote

/-- The remote branches. -/
def remotes (bs : Branches) : List Branch :=
  bs.all.filter Branch.isRemote

/-- The local branch of a name. -/
def findLocal? (bs : Branches) (name : String) : Option Branch :=
  bs.locals.find? (·.name = name)

/-- The remote branch of a name, that of `origin` if there is one. -/
def findRemote? (bs : Branches) (name : String) : Option Branch :=
  let candidates := bs.remotes.filter (·.name = name)
  candidates.find? (·.remote? = some Branch.defaultRemote) <|> candidates.head?

/-- The local branch of a name, else the remote one. -/
def find? (bs : Branches) (name : String) : Option Branch :=
  bs.findLocal? name <|> bs.findRemote? name

end Branches

end Grove
