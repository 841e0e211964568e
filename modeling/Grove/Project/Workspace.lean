import Grove.Git.Discovery
import Grove.Project.Pom
import Grove.Walk.Basic

/-!
# Workspaces

All checkouts below an outermost one, each with the projects that lie in it and in no checkout
further in. Checkouts and the projects of each are in path order, so a workspace does not depend on
the order in which directories and files were come across.
-/

namespace Grove

/-- The checkouts of a workspace with their projects. -/
structure Workspace where
  /-- The outermost checkout. -/
  root : Checkout
  /-- Every checkout, in path order, with its projects, in order. -/
  members : List (Checkout × List Pom)
  deriving DecidableEq, Inhabited

namespace Workspace

/-- The checkout with a root directory, in the workspace of an outermost one. -/
def checkoutAt (root dir : Path) : Checkout :=
  if dir.alike root then Checkout.outermost root else Checkout.nested dir root

/-- The innermost of some checkouts that encloses a directory. -/
def enclosing? (checkouts : List Checkout) (dir : Path) : Option Checkout :=
  dir.ancestors.findSome? fun up => checkouts.find? (·.root.alike up)

/-- The workspace of an outermost root, the checkout roots below it and the projects found, each
list in any order. -/
def ofFinds (root : Path) (checkoutRoots : List Path) (poms : List Pom) : Workspace :=
  let outer := Checkout.outermost root
  let checkouts := (Ordered.ofList Path.order (checkoutRoots ++ [root])).map (checkoutAt root)
  let owner (pom : Pom) : Checkout := (enclosing? checkouts pom.directory).getD outer
  ⟨outer, checkouts.map fun c => (c, (poms.filter fun p => (owner p).same c).mergeSort Pom.le)⟩

/-! ### Questions -/

/-- All checkouts, in path order. -/
def checkouts (w : Workspace) : List Checkout :=
  w.members.map (·.1)

/-- The innermost checkout that encloses a directory. -/
def containing? (w : Workspace) (dir : Path) : Option Checkout :=
  enclosing? w.checkouts dir

/-- The checkouts that hold a project which satisfies `p`. -/
def checkoutsWhere (w : Workspace) (p : Pom → Bool) : List Checkout :=
  (w.members.filter fun (_, poms) => poms.any p).map (·.1)

/-- The checkouts that hold projects. -/
def withProjects (w : Workspace) : List Checkout :=
  (w.members.filter fun (_, poms) => !poms.isEmpty).map (·.1)

/-- The checkouts without projects, the outermost one aside. -/
def withoutProjects (w : Workspace) : List Checkout :=
  (w.members.filter fun (c, poms) => poms.isEmpty && !c.isOutermost).map (·.1)

/-- The projects of a checkout. -/
def projectsOf (w : Workspace) (c : Checkout) : List Pom :=
  ((w.members.find? fun (c', _) => c.same c').map (·.2)).getD []

/-- All projects, checkout by checkout. -/
def projects (w : Workspace) : List Pom :=
  w.members.flatMap (·.2)

/-- The project whose file lies in a directory. -/
def projectIn? (w : Workspace) (dir : Path) : Option Pom :=
  w.projects.find? (·.directory.alike dir)

/-- The checkouts that hold a project of a family. -/
def inFamily (w : Workspace) (family : Family) : List Checkout :=
  w.checkoutsWhere (·.family = family)

/-- The checkouts that hold a project of a family or of one whose parent it is. -/
def inFamilyOrChild (w : Workspace) (family : Family) : List Checkout :=
  w.checkoutsWhere fun pom =>
    pom.family = family || Family.parentOfGroup? pom.coordinates.group = some family

/-- The checkouts that hold a project of a group id. -/
def withGroup (w : Workspace) (group : String) : List Checkout :=
  w.checkoutsWhere (·.coordinates.group = group)

/-- The checkouts of several families, family by family, each once. -/
def inFamilies (w : Workspace) (families : List Family) : List Checkout :=
  families.foldl
    (fun found family => (w.inFamily family).foldl
      (fun found c => if c.isIn found then found else found ++ [c]) found)
    []

/-- The list with the outermost checkout at its end, unless the list has it. -/
def appendRoot (w : Workspace) (checkouts : List Checkout) : List Checkout :=
  if w.root.isIn checkouts then checkouts else checkouts ++ [w.root]

/-! ### Scanning -/

/-- What scanning a directory yields. -/
structure Scan where
  /-- The workspace. -/
  workspace : Workspace
  /-- How many project files could not be read. -/
  unreadable : Nat
  /-- How many entries could not be walked. -/
  broken : Nat

/-- The project files among the files walked. -/
def projectFiles (sights : List Walk.Sight) : List Path :=
  (Walk.filesOf sights).filter fun p => p.fileName? = some Pom.fileName

/-- Walks a directory and takes it for the root of the outermost checkout. Project files that cannot
be read are passed over. -/
def scan (files : Files) (root : Path) : Except Failure Scan := do
  let sights ← (Walk.sights files WalkOptions.workspace root).mapError
    (Failure.within ("failed to scan " ++ root.shown))
  let read := (projectFiles sights).map (Pom.ofFile files)
  let poms := read.filterMap fun
    | .ok pom => some pom
    | .error _ => none
  return {
    workspace :=
      ofFinds root ((Walk.directoriesOf sights).filter (Git.isCheckoutRoot files)) poms
    unreadable := read.length - poms.length
    broken := Walk.brokenCount sights }

/-- Scans the workspace around a project's directory. -/
def scanAround (files : Files) (projectDir : Path) : Except Failure Scan := do
  let dir ← (files.canonical projectDir).mapError fun e =>
    (Failure.bare (.os e)).within ("no such directory: " ++ projectDir.shown)
  match Git.outermostRoot? files dir with
  | none => .error (Failure.git (.notACheckout dir.shown))
  | some root => scan files root

/-- Notes in the log what a scan passed over. -/
def Scan.report {σ : Type} (s : Scan) : Action σ Workspace := do
  if 0 < s.broken then Action.note .warn "unreadable entries skipped"
  (List.range s.unreadable).forM fun _ => Action.note .warn "skipping unreadable pom"
  return s.workspace

end Workspace

end Grove
