import Grove.Git.Name
import Grove.Project.Scope

/-!
# Merging across checkouts

One branch is merged into another in each of a list of checkouts. First every checkout is planned
from a snapshot of its branches; those with nothing to merge are passed over with a reason. Then the
plans are carried out one by one, each as a list of steps; where one fails, the rest of its steps are
left out and the next checkout is taken. Pretending announces every step and carries out none.
-/

namespace Grove

/-- The optional steps of a merge. -/
structure MergeFlags where
  /-- Tag the merge with the name of the merged branch. -/
  tag : Bool
  /-- Remove the merged branch. -/
  deleteMerged : Bool
  /-- Push every branch that was merged into. -/
  push : Bool
  /-- Only announce the steps. -/
  pretend : Bool
  deriving DecidableEq, Inhabited

namespace MergeFlags

/-- The flags as the bits of a number. -/
def bits (f : MergeFlags) : Nat :=
  f.tag.toNat + 2 * f.deleteMerged.toNat + 4 * f.push.toNat + 8 * f.pretend.toNat

end MergeFlags

/-- What to merge into what. -/
structure MergeRequest where
  /-- The branch to merge; each checkout's own when not given. -/
  source? : Option String
  /-- The branch to merge into. -/
  target : String
  /-- A branch to merge into before that. -/
  also? : Option String
  /-- The optional steps. -/
  flags : MergeFlags
  deriving DecidableEq, Inhabited

namespace MergeRequest

/-- Accepts the branch names, or tells the first that breaks a rule. -/
def validate (r : MergeRequest) : Except SettingsError Unit := do
  (r.source?.map (Git.checkName "from")).getD (.ok ())
  Git.checkName "into" r.target
  (r.also?.map (Git.checkName "also-into")).getD (.ok ())

end MergeRequest

/-- Why a checkout has nothing to merge. -/
inductive MergeObstacle where
  /-- Its branches could not be listed. -/
  | unlisted (message : String)
  /-- It has no local branch of the name to merge. -/
  | noSource (name : String)
  /-- No branch is checked out. -/
  | detached
  /-- It has no branch of the name to merge into. -/
  | noTarget (name : String)
  /-- The two branches are one. -/
  | sameBranch (name : String)
  deriving DecidableEq

/-- The wording of an obstacle. -/
def MergeObstacle.message : MergeObstacle → String
  | unlisted m => "cannot list branches: " ++ m
  | noSource name => "no local branch '" ++ name ++ "'"
  | detached => "detached HEAD"
  | noTarget name => "no branch '" ++ name ++ "'"
  | sameBranch name => "'" ++ name ++ "' would be merged into itself"

/-- A branch to merge into. -/
structure MergeTarget where
  /-- The branch. -/
  branch : Branch
  /-- Whether a remote has a branch of the name. -/
  onRemote : Bool
  deriving DecidableEq, Inhabited

namespace MergeTarget

/-- The name of the branch. -/
def name (t : MergeTarget) : String :=
  t.branch.name

/-- Whether a local branch has to be made first. -/
def needsLocalBranch (t : MergeTarget) : Bool :=
  t.branch.isRemote

/-- A branch of a snapshot as a target. -/
def of (branches : Branches) (branch : Branch) : MergeTarget :=
  ⟨branch, (branches.findRemote? branch.name).isSome⟩

end MergeTarget

/-- What to do in one checkout. -/
structure MergePlan where
  /-- The checkout. -/
  checkout : Checkout
  /-- The branch to merge. -/
  source : Branch
  /-- The branch to merge into. -/
  target : MergeTarget
  /-- The branch to merge into before that. -/
  also? : Option MergeTarget
  deriving DecidableEq, Inhabited

namespace MergePlan

/-- The branch that a request merges, in a checkout with these branches. -/
def source? (request : MergeRequest) (branches : Branches) : Except MergeObstacle Branch :=
  match request.source? with
  | some name =>
    match branches.findLocal? name with
    | some b => .ok b
    | none => .error (.noSource name)
  | none =>
    match branches.current? with
    | some b => .ok b
    | none => .error .detached

/-- The second target that a request names, when there is one apart from the two other branches. -/
def secondTarget? (request : MergeRequest) (branches : Branches) (source target : Branch) :
    Option MergeTarget :=
  ((request.also?.bind branches.find?).filter fun b =>
    b.name != source.name && b.name != target.name).map (MergeTarget.of branches)

/-- The plan for a checkout with these branches. -/
def of (request : MergeRequest) (branches : Branches) (checkout : Checkout) :
    Except MergeObstacle MergePlan :=
  match source? request branches with
  | .error o => .error o
  | .ok source =>
    match branches.find? request.target with
    | none => .error (.noTarget request.target)
    | some target =>
      if source.name = target.name then .error (.sameBranch source.name)
      else
        .ok ⟨checkout, source, MergeTarget.of branches target,
          secondTarget? request branches source target⟩

end MergePlan

/-- A step of a merge: a message or an operation on the checkout. -/
inductive MergeStep where
  /-- Tells what comes next. -/
  | announce (message : String)
  /-- Changes the checkout. -/
  | perform (operation : Checkout.Operation)
  deriving DecidableEq

namespace MergePlan

/-- The steps that check a target out, making it first where it is not local. -/
def checkOut (p : MergePlan) (t : MergeTarget) : List MergeStep :=
  if t.needsLocalBranch then
    [.announce ("Branch " ++ t.branch.trackingName ++ " does not exist locally in " ++
        p.checkout.name ++ ", creating it"),
      .perform (.change (.create t.name (some t.branch.trackingName)))]
  else [.perform (.change (.switchTo t.name))]

/-- The steps that push a target. -/
def pushing (p : MergePlan) (t : MergeTarget) : List MergeStep :=
  [.announce ("Push " ++ t.name ++ " in " ++ p.checkout.name),
    .perform (if t.onRemote then .change .push else .pushCreating)]

/-- The steps of a merge into the second target. -/
def secondSteps (p : MergePlan) (flags : MergeFlags) (t : MergeTarget) : List MergeStep :=
  .announce ("First merge " ++ p.source.name ++ " into " ++ t.name ++ " in " ++ p.checkout.name) ::
    p.checkOut t ++ [.perform (.change (.merge p.source.name))] ++
    if flags.push then p.pushing t else []

/-- The steps of the merge into the target itself. -/
def mainSteps (p : MergePlan) (flags : MergeFlags) : List MergeStep :=
  .announce ("Merge " ++ p.source.name ++ " into " ++ p.target.name ++ " in " ++ p.checkout.name) ::
    p.checkOut p.target ++ [.perform (.change (.merge p.source.name))] ++
    (if flags.tag then
      [.announce ("Tag " ++ p.checkout.name ++ " with " ++ Git.tagName p.source.name),
        .perform (.change (.tag (Git.tagName p.source.name) true))]
    else []) ++
    (if flags.deleteMerged then
      [.announce ("Delete branch " ++ p.source.name ++ " in " ++ p.checkout.name),
        .perform (.deleteLeaving p.source.name p.target.name false)]
    else []) ++
    if flags.push then p.pushing p.target else []

/-- All steps. The second target comes first, so that the checkout ends up on the target itself. -/
def steps (p : MergePlan) (flags : MergeFlags) : List MergeStep :=
  (match p.also? with
    | some t => p.secondSteps flags t
    | none => []) ++ p.mainSteps flags

end MergePlan

/-- What became of each checkout. -/
structure MergeReport where
  /-- Merged, in order. -/
  merged : List Checkout
  /-- Passed over while planning, with the reason. -/
  skipped : List (Checkout × MergeObstacle)
  /-- Failed on the way, with the message. -/
  failed : List (Checkout × String)
  deriving DecidableEq, Inhabited

namespace MergeReport

/-- Whether nothing failed. -/
def isSuccess (r : MergeReport) : Bool :=
  r.failed.isEmpty

end MergeReport

namespace MergeRequest

variable {σ : Type}

/-- Plans one checkout from the snapshot of its branches. -/
def planOne (git : Git.Client σ) (r : MergeRequest) (c : Checkout) :
    Action σ (Except MergeObstacle MergePlan) := do
  match ← Action.attempt (c.snapshot git) with
  | .error e => return .error (.unlisted e.message)
  | .ok branches => return MergePlan.of r branches c

/-- Plans all checkouts: the plans and the checkouts passed over, each in order. -/
def planAll (git : Git.Client σ) (r : MergeRequest) :
    List Checkout → Action σ (List MergePlan × List (Checkout × MergeObstacle))
  | [] => pure ([], [])
  | c :: cs => do
    let planned ← r.planOne git c
    let (plans, skipped) ← r.planAll git cs
    match planned with
    | .ok plan => return (plan :: plans, skipped)
    | .error obstacle => return (plans, (c, obstacle) :: skipped)

/-- Carries out steps on a checkout until one fails; pretending only announces them. -/
def runSteps (git : Git.Client σ) (pretend : Bool) (c : Checkout) : List MergeStep → Action σ Unit
  | [] => pure ()
  | .announce message :: rest => do
    Action.note .info message
    runSteps git pretend c rest
  | .perform operation :: rest => do
    if !pretend then c.perform git operation
    runSteps git pretend c rest

/-- Carries out a plan. -/
def execute (git : Git.Client σ) (r : MergeRequest) (p : MergePlan) : Action σ Unit :=
  runSteps git r.flags.pretend p.checkout (p.steps r.flags)

/-- Carries out all plans: the checkouts merged and those that failed, each in order. -/
def executeAll (git : Git.Client σ) (r : MergeRequest) :
    List MergePlan → Action σ (List Checkout × List (Checkout × String))
  | [] => pure ([], [])
  | p :: ps => do
    match ← Action.attempt (r.execute git p) with
    | .ok () =>
      let (merged, failed) ← r.executeAll git ps
      return (p.checkout :: merged, failed)
    | .error e =>
      Action.note .error "merge failed"
      let (merged, failed) ← r.executeAll git ps
      return (merged, (p.checkout, e.message) :: failed)

/-- Plans the merge in every checkout and carries the plans out. -/
def run (git : Git.Client σ) (r : MergeRequest) (checkouts : List Checkout) :
    Action σ MergeReport := do
  let (plans, skipped) ← r.planAll git checkouts
  if plans = [] then
    Action.note .warn "No checkouts found to merge"
    return ⟨[], skipped, []⟩
  Action.note .info ("Have " ++ toString plans.length ++ " checkouts to merge")
  let (merged, failed) ← r.executeAll git plans
  Action.forgetAll
  return ⟨merged, skipped, failed⟩

end MergeRequest

/-- The checkouts of some families in place of those of the scope. Only the family scope takes
families; the project's own family alone changes nothing. -/
def applyFamilies (w : Workspace) (scope : Scope) (includeRoot : Bool) (own : Family)
    (families : List Family) (checkouts : List Checkout) : Except SettingsError (List Checkout) :=
  if families = [] then .ok checkouts
  else if scope ≠ .family then
    .error (.conflictingOptions
      ("families can only be used with scope 'family', not '" ++ scope.name ++ "'"))
  else if families = [own] then .ok checkouts
  else
    let found := w.inFamilies families
    .ok (if includeRoot then w.appendRoot found else found)

end Grove
