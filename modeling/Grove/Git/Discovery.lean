import Grove.Files.Basic
import Grove.Git.Checkout
import Grove.Git.Repository

/-!
# Finding checkouts

A directory that holds an entry `.git` is the root of a checkout. A checkout belongs to the one that
encloses it when its `.git` is a file or when the enclosing one lists it among its submodules; the
outermost checkout is reached by climbing such steps. An independent clone inside another checkout
is its own outermost one.

The climb ends because each enclosing checkout is a shorter path (`depth_checkoutRoot?`).
-/

namespace Grove

namespace Path

/-- No ancestor is longer than the path. -/
theorem depth_le_of_mem_ancestors {p q : Path} (h : q ∈ p.ancestors) : q.depth ≤ p.depth := by
  rw [ancestors] at h
  rcases List.mem_cons.1 h with rfl | h
  · exact Nat.le_refl _
  · split at h
    · simp at h
    · next parent hparent =>
      have hlt := depth_parent? hparent
      have := depth_le_of_mem_ancestors h
      omega
termination_by p.depth

end Path

namespace Git

/-- Whether the directory is the root of a checkout. -/
def isCheckoutRoot (files : Files) (dir : Path) : Bool :=
  files.holds (dir.child entryName)

/-- The nearest checkout root that encloses the directory or is it. -/
def checkoutRoot? (files : Files) (dir : Path) : Option Path :=
  dir.ancestors.find? (isCheckoutRoot files)

/-- A checkout root is no longer than the directory it encloses. -/
theorem depth_checkoutRoot? {files : Files} {dir root : Path} (h : checkoutRoot? files dir = some root) :
    root.depth ≤ dir.depth :=
  Path.depth_le_of_mem_ancestors (List.mem_of_find?_eq_some h)

/-- The value of a line `path = value`. -/
def submoduleLine? (line : List Char) : Option (List Char) :=
  match Text.cut ['='] line with
  | none => none
  | some (key, value) =>
    if Text.strip key = "path".toList then
      some (Text.dropEndWhile (· == '/') (Text.strip value))
    else none

/-- The paths that a list of submodules names. -/
def submodulePaths (modules : String) : List String :=
  ((Text.lines modules.toList).filterMap submoduleLine?).map String.ofList

/-- Whether a checkout belongs to the one that encloses it. -/
def isSubmoduleOf (files : Files) (checkout enclosing : Path) : Bool :=
  files.isFile (checkout.child entryName) ||
    match checkout.stripStart? enclosing with
    | none => false
    | some relative =>
      match files.readText (enclosing.child ".gitmodules") with
      | .ok modules => Checkout.slashed relative.text ∈ submodulePaths modules
      | .error _ => false

/-- Climbs from a checkout root to the outermost checkout it belongs to. -/
def climb (files : Files) (checkout : Path) : Path :=
  match _hparent : checkout.parent? with
  | none => checkout
  | some parent =>
    match _henclosing : checkoutRoot? files parent with
    | none => checkout
    | some enclosing =>
      if isSubmoduleOf files checkout enclosing then climb files enclosing else checkout
termination_by checkout.depth
decreasing_by
  have h₁ := Path.depth_parent? _hparent
  have h₂ := depth_checkoutRoot? _henclosing
  omega

/-- The outermost checkout around the directory. -/
def outermostRoot? (files : Files) (dir : Path) : Option Path :=
  (checkoutRoot? files dir).map (climb files)

/-- The nearest checkout root, which has to be there. -/
def requireCheckoutRoot (files : Files) (dir : Path) : Except GitError Path :=
  match checkoutRoot? files dir with
  | some root => .ok root
  | none => .error (.notACheckout dir.shown)

end Git

end Grove
