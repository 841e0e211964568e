import Grove.Project.Workspace

/-!
# Skip properties

The properties that make a build pass over every project outside the families asked for.
-/

namespace Grove

/-- The families asked for: those listed, else those of the single option. -/
def requestedFamilies (family? families? : Option String) : List Family :=
  let listed := (families?.map Family.parseList).getD []
  if listed ≠ [] then listed else (family?.map Family.parseList).getD []

/-- The properties of a project, one line each. -/
def skipLines (properties : List String) (pom : Pom) : List String :=
  properties.map fun property =>
    pom.coordinates.group ++ ":" ++ pom.coordinates.artifact ++ " " ++ property ++ "=true"

/-- A line for each project outside the families and each property. -/
def skipProperties (w : Workspace) (families : List Family) (properties : List String) :
    List String :=
  if families = [] ∨ properties = [] then []
  else (w.projects.filter fun pom => pom.family ∉ families).flatMap (skipLines properties)

end Grove
