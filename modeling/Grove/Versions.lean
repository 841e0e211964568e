import Grove.Ordered
import Grove.Project.Pom

/-!
# Pending version changes

The versions that projects and their parents are to move to, collected project by project, and a
flag that tells whether a pass over the projects changed anything. Reading the flag clears it.
-/

namespace Grove

/-- A version moving to another. -/
structure VersionChange where
  /-- The version before. -/
  old : String
  /-- The version after. -/
  new : String
  deriving DecidableEq, Inhabited

namespace VersionChange

/-- Whether the version moves at all. -/
def isChange (c : VersionChange) : Bool :=
  c.old != c.new

/-- The written form. -/
def text (c : VersionChange) : String :=
  c.old ++ " -> " ++ c.new

end VersionChange

/-- A flag that is cleared by reading it. -/
structure ChangeFlag where
  /-- Whether anything changed since the last reading. -/
  raised : Bool
  deriving DecidableEq, Inhabited

namespace ChangeFlag

/-- A flag that is not raised. -/
def lowered : ChangeFlag := ⟨false⟩

/-- The flag after something changed. -/
def mark (_ : ChangeFlag) : ChangeFlag := ⟨true⟩

/-- The flag after something that may have changed. -/
def or (f : ChangeFlag) (changed : Bool) : ChangeFlag := ⟨f.raised || changed⟩

/-- Reads the flag. -/
def take (f : ChangeFlag) : Bool × ChangeFlag := (f.raised, lowered)

end ChangeFlag

/-- Version changes by project, in project order. -/
abbrev VersionChanges := List (Pom × VersionChange)

/-- Whose version changes. -/
inductive VersionOwner where
  /-- The project itself. -/
  | project
  /-- The parent that the project names. -/
  | parent
  deriving DecidableEq

/-- The pending changes of projects and of their parents. -/
structure PendingVersions where
  /-- The changes of projects. -/
  projects : VersionChanges
  /-- The changes of parents. -/
  parents : VersionChanges
  /-- Whether anything changed since it was last asked. -/
  flag : ChangeFlag
  deriving DecidableEq, Inhabited

namespace PendingVersions

/-- Nothing is pending. -/
def none : PendingVersions :=
  ⟨[], [], .lowered⟩

/-- The changes of one kind of owner. -/
def of (v : PendingVersions) : VersionOwner → VersionChanges
  | .project => v.projects
  | .parent => v.parents

/-- Replaces the changes of one kind of owner. -/
def set (v : PendingVersions) (owner : VersionOwner) (changes : VersionChanges) : PendingVersions :=
  match owner with
  | .project => { v with projects := changes }
  | .parent => { v with parents := changes }

/-- Raises the flag if something changed. -/
def or (v : PendingVersions) (changed : Bool) : PendingVersions :=
  { v with flag := v.flag.or changed }

/-- Raises the flag. -/
def mark (v : PendingVersions) : PendingVersions :=
  { v with flag := v.flag.mark }

/-- Whether anything changed since this was last asked. -/
def hasChanges (v : PendingVersions) : Bool × PendingVersions :=
  let (raised, flag) := v.flag.take
  (raised, { v with flag })

/-- The pending change of a project. -/
def get? (v : PendingVersions) (owner : VersionOwner) (pom : Pom) : Option VersionChange :=
  Ordered.get? Pom.order pom (v.of owner)

/-- Records a change and tells whether it was not there yet. -/
def change (v : PendingVersions) (owner : VersionOwner) (pom : Pom) (c : VersionChange) :
    Bool × PendingVersions :=
  let changed := v.get? owner pom != some c
  (changed, (v.set owner (Ordered.put Pom.order pom c (v.of owner))).or changed)

/-- Takes a change back and tells whether it was there. -/
def remove (v : PendingVersions) (owner : VersionOwner) (pom : Pom) : Bool × PendingVersions :=
  let removed := (v.get? owner pom).isSome
  (removed, (v.set owner (Ordered.erase Pom.order pom (v.of owner))).or removed)

/-- A call on the pending changes. -/
inductive Call where
  /-- Records a change. -/
  | change (owner : VersionOwner) (pom : Pom) (c : VersionChange)
  /-- Takes a change back. -/
  | remove (owner : VersionOwner) (pom : Pom)
  /-- Asks whether anything changed since this was last asked. -/
  | hasChanges
  /-- Raises the flag. -/
  | mark
  /-- Raises the flag if something changed. -/
  | or (changed : Bool)
  deriving DecidableEq

/-- The answer to a call, if it has one, and what is pending after it. -/
def call (v : PendingVersions) : Call → Option Bool × PendingVersions
  | .change owner pom c => (v.change owner pom c).map some id
  | .remove owner pom => (v.remove owner pom).map some id
  | .hasChanges => v.hasChanges.map some id
  | .mark => (Option.none, v.mark)
  | .or changed => (Option.none, v.or changed)

end PendingVersions

end Grove
