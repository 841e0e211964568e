import Grove.Failure
import Grove.Git.Branch
import Grove.Path

/-!
# Access to repositories

What the workflows need of git: three questions and one kind of change. A client answers for the
repositories that live in a host state; every operation names the root of the checkout it acts on
and may fail, keeping the state that was reached.
-/

namespace Grove.Git

/-- A change of a repository. -/
inductive Mutation where
  /-- Checks out a local branch. -/
  | switchTo (branch : String)
  /-- Makes a branch and checks it out; with a start point it starts there and tracks it. -/
  | create (branch : String) (start? : Option String)
  /-- Merges a branch into the one checked out. -/
  | merge (branch : String)
  /-- Tags what is checked out, replacing a tag of the name when forced. -/
  | tag (name : String) (force : Bool)
  /-- Removes a local branch, even an unmerged one when forced. -/
  | delete (branch : String) (force : Bool)
  /-- Pushes the branch checked out to where it came from. -/
  | push
  /-- Pushes a branch to a remote that may not have it, and tracks it from then on. -/
  | pushNew (remote branch : String)
  /-- Stages every change. -/
  | addAll
  /-- Commits what is staged. -/
  | commit (message : String)
  deriving DecidableEq

/-- Whether the change only sends branches elsewhere and leaves the work tree as it is. -/
def Mutation.isPush : Mutation → Bool
  | push => true
  | pushNew .. => true
  | _ => false

/-- Access to the repositories in a host state. -/
structure Client (σ : Type) where
  /-- Whether the work tree differs from what is committed, untracked files included. -/
  isDirty : Path → EStateM Failure σ Bool
  /-- The branch checked out, if one is. -/
  currentBranch : Path → EStateM Failure σ (Option String)
  /-- All local and remote branches, in any order. -/
  listBranches : Path → EStateM Failure σ (List Branch)
  /-- Changes a repository. -/
  mutate : Path → Mutation → EStateM Failure σ Unit

/-- The branches of a checkout at this moment. -/
def Client.branches {σ : Type} (git : Client σ) (root : Path) : EStateM Failure σ Branches := do
  let current? ← git.currentBranch root
  let all ← git.listBranches root
  return Branches.of current? all

end Grove.Git
