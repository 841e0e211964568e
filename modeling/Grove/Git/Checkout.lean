import Grove.Session
import Grove.Ordered

/-!
# Checkouts

A checkout is a git work tree with its root directory. The outermost checkout of a workspace is
named after its directory, the others after their path below it, by what is shown of these. Whether
a checkout is dirty is asked once and remembered until something changes it through this module.
-/

namespace Grove

/-- A git work tree. -/
structure Checkout where
  /-- Its top directory. -/
  root : Path
  /-- The name shown to users. -/
  name : String
  /-- The root of the outermost checkout it belongs to; none for that one itself. -/
  home? : Option Path
  deriving DecidableEq, Inhabited

namespace Checkout

/-- The outermost checkout of a workspace. -/
def outermost (root : Path) : Checkout :=
  ⟨root, Text.shown (root.fileName?.getD root.text), none⟩

/-- What is shown of a path, with every backslash written as a slash. -/
def slashed (s : String) : String :=
  String.ofList ((Text.shown s).toList.map fun c => if c = '\\' then '/' else c)

/-- A checkout inside the outermost one. -/
def nested (root outer : Path) : Checkout :=
  ⟨root, ((root.stripStart? outer).map fun rest => slashed rest.text).getD (Text.shown root.text),
    some outer⟩

/-- Whether the checkout is the outermost one. -/
def isOutermost (c : Checkout) : Bool :=
  c.home?.isNone

/-- How many steps lead to the root directory. -/
def depth (c : Checkout) : Nat :=
  c.root.depth

/-- Checkouts are ordered by root directory. -/
def order (a b : Checkout) : Ordering :=
  a.root.order b.root

/-- Checkouts are the same when their roots are alike. -/
def same (a b : Checkout) : Bool :=
  a.root.alike b.root

/-- Whether the list holds the checkout. -/
def isIn (c : Checkout) (cs : List Checkout) : Bool :=
  cs.any (same c)

/-! ### What is remembered -/

section

variable {σ : Type}

/-- Forgets whether the checkout is dirty. -/
def forget (c : Checkout) : Action σ Unit :=
  modify fun s => { s with dirtyFlags := Ordered.erase Path.order c.root s.dirtyFlags }

/-- Whether the checkout is dirty, asked only if it is not remembered. -/
def isDirty (git : Git.Client σ) (c : Checkout) : Action σ Bool := do
  match Ordered.get? Path.order c.root (← get).dirtyFlags with
  | some dirty => return dirty
  | none =>
    let dirty ← Action.onHost (git.isDirty c.root)
    modify fun s => { s with dirtyFlags := Ordered.put Path.order c.root dirty s.dirtyFlags }
    return dirty

/-- The branches of the checkout now. -/
def branches (git : Git.Client σ) (c : Checkout) : Action σ Branches :=
  Action.onHost (git.branches c.root)

/-- The branches of the checkout when they were first asked for. -/
def snapshot (git : Git.Client σ) (c : Checkout) : Action σ Branches := do
  match Ordered.get? Path.order c.root (← get).snapshots with
  | some branches => return branches
  | none =>
    let branches ← c.branches git
    modify fun s => { s with snapshots := Ordered.put Path.order c.root branches s.snapshots }
    return branches

/-- Changes the repository and, whatever comes of it, forgets whether the checkout is dirty. A push
leaves the work tree as it is, so nothing is forgotten. -/
def change (git : Git.Client σ) (c : Checkout) (m : Git.Mutation) : Action σ Unit := do
  let result ← Action.attempt (Action.onHost (git.mutate c.root m))
  if !m.isPush then c.forget
  Action.ofExcept result

end

/-! ### Operations -/

/-- What can be done to a checkout. -/
inductive Operation where
  /-- Changes its repository. -/
  | change (m : Git.Mutation)
  /-- Removes a branch; if it is checked out, `fallback` is checked out first. -/
  | deleteLeaving (branch fallback : String) (force : Bool)
  /-- Pushes the branch checked out to the default remote for the first time. -/
  | pushCreating
  deriving DecidableEq

variable {σ : Type}

/-- Carries out an operation. -/
def perform (git : Git.Client σ) (c : Checkout) : Operation → Action σ Unit
  | .change m => c.change git m
  | .deleteLeaving branch fallback force => do
    let current? ← Action.onHost (git.currentBranch c.root)
    if current? = some branch then c.change git (.switchTo fallback)
    c.change git (.delete branch force)
  | .pushCreating => do
    match ← Action.onHost (git.currentBranch c.root) with
    | none => throw (Failure.git (.branchNotFound "HEAD"))
    | some branch => c.change git (.pushNew Branch.defaultRemote branch)

end Checkout

end Grove
