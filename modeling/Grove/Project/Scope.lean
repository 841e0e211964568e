import Grove.Project.Workspace

/-!
# Scopes

Which checkouts an operation touches, seen from one project: its own checkout alone, those of its
group id, of its family, of its family and the families below, or all.
-/

namespace Grove

/-- A rule that selects checkouts. -/
inductive Scope where
  /-- The project's own checkout. -/
  | justThis
  /-- Checkouts with projects of the same group id. -/
  | sameGroupId
  /-- Checkouts with projects of the family. -/
  | family
  /-- Checkouts with projects of the family or a family whose parent it is. -/
  | familyOrChildFamily
  /-- Every checkout with projects. -/
  | all
  deriving DecidableEq, Inhabited

namespace Scope

/-- All scopes, narrowest first. -/
def values : List Scope :=
  [justThis, sameGroupId, family, familyOrChildFamily, all]

/-- The name of a scope. -/
def name : Scope → String
  | justThis => "just-this"
  | sameGroupId => "same-group-id"
  | family => "family"
  | familyOrChildFamily => "family-or-child-family"
  | all => "all"

/-- Whether the scope depends on the family. -/
def appliesFamily : Scope → Bool
  | family => true
  | familyOrChildFamily => true
  | _ => false

/-- A character in lower case, with a hyphen for an underscore. -/
def normalChar (c : Char) : Char :=
  if c = '_' then '-' else c.toLower

/-- Reads the name of a scope in either case; the narrowest scope has a second name. -/
def ofString? (s : String) : Option Scope :=
  let normal := String.ofList ((Text.strip s.toList).map normalChar)
  if normal = "same-repository" then some justThis else values.find? (·.name = normal)

/-- Reads the name of a scope, or tells which names there are. -/
def ofString (s : String) : Except SettingsError Scope :=
  match ofString? s with
  | some scope => .ok scope
  | none =>
    .error (.invalidValue "scope" "scope"
      ("unknown scope '" ++ s ++ "', expected one of: " ++ ", ".intercalate (values.map name)))

/-- The checkouts that a scope selects for a checkout that asks. The outermost checkout is added at
the end on request, except to the narrowest scope. -/
def select (scope : Scope) (w : Workspace) (asking : Checkout) (includeRoot : Bool)
    (own : Family) (group : String) : List Checkout :=
  let withRoot (checkouts : List Checkout) : List Checkout :=
    if includeRoot then w.appendRoot checkouts else checkouts
  match scope with
  | justThis => [asking]
  | sameGroupId => withRoot (w.withGroup group)
  | family => withRoot (w.inFamily own)
  | familyOrChildFamily => withRoot (w.inFamilyOrChild own)
  | all => withRoot w.withProjects

end Scope

/-- How checkouts are selected for a run. -/
structure ScopeOptions where
  /-- The rule. -/
  scope : Scope
  /-- Whether the outermost checkout takes part. -/
  includeRoot : Bool
  /-- The family to use in place of the project's own. -/
  family? : Option String
  /-- Whether nothing is to be changed. -/
  pretend : Bool
  deriving DecidableEq, Inhabited

/-- A project and the workspace around it. -/
structure Standpoint where
  /-- The workspace. -/
  workspace : Workspace
  /-- The project. -/
  project : Pom
  /-- The checkout that the project lies in. -/
  checkout : Checkout
  /-- The family in force. -/
  family : Family

namespace Standpoint

/-- The family that the options name, if they name one. -/
def namedFamily? (options : ScopeOptions) : Option Family :=
  match options.family?.map Text.stripped with
  | some name => if name = "" then none else some ⟨name⟩
  | none => none

/-- Finds the project in a directory and scans the workspace around it. -/
def load {σ : Type} (files : Files) (projectDir : Path) (options : ScopeOptions) :
    Action σ Standpoint := do
  let workspace ← (← Action.ofExcept (Workspace.scanAround files projectDir)).report
  let dir ← Action.ofExcept ((files.canonical projectDir).mapError fun e => Failure.bare (.os e))
  match workspace.projectIn? dir with
  | none => throw (.bare (.project (.noProject dir.shown)))
  | some project =>
    let checkout := (workspace.containing? dir).getD workspace.root
    match namedFamily? options with
    | none => return ⟨workspace, project, checkout, project.family⟩
    | some family =>
      if !options.scope.appliesFamily then
        Action.note .warn "useless assignment of family: scope does not use families"
      return ⟨workspace, project, checkout, family⟩

/-- The checkouts that the options select. -/
def resolve (s : Standpoint) (options : ScopeOptions) : List Checkout :=
  options.scope.select s.workspace s.checkout options.includeRoot s.family
    s.project.coordinates.group

end Standpoint

end Grove
