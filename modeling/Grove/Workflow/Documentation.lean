import Grove.Program.Basic
import Grove.Workflow.Changes

/-!
# Generating documentation

An external generator is run for one project. On request the checkouts that it changed, and that
were clean before, are committed together. Skipping and pretending start nothing.
-/

namespace Grove

/-- How documentation is generated. -/
structure DocumentationRequest where
  /-- The generator, a name on the search path or a path. -/
  command : String
  /-- Arguments placed before the project's directory. -/
  arguments : List String
  /-- Whether the generator updates read-me files. -/
  updateReadme : Bool
  /-- Whether the generator replaces resources. -/
  overwriteResources : Bool
  /-- Where the output goes, if that is given. -/
  outputFolder? : Option Path
  /-- Whether what the generator changed is committed. -/
  commitChanges : Bool
  /-- Whether nothing is to be done at all. -/
  skip : Bool
  /-- Whether the generator is only shown. -/
  pretend : Bool
  deriving DecidableEq, Inhabited

namespace DocumentationRequest

/-- The generator when none is named. -/
def defaultCommand : String := "lexakai"

/-- Where the output for a project goes: the folder given, else the family's assets, else a folder
of the project. -/
def folder (r : DocumentationRequest) (pom : Pom) (root : Path) (lookup : String → Option String)
    (files : Files) : Path :=
  r.outputFolder?.getD
    ((pom.family.assets? lookup files (some root)).getD
      ((pom.directory.child "target").child "lexakai"))

/-- The arguments of the generator. -/
def argumentsFor (r : DocumentationRequest) (folder projectDir : Path) : List String :=
  ["-update-readme=" ++ toString r.updateReadme,
    "-overwrite-resources=" ++ toString r.overwriteResources,
    "-output-folder=" ++ folder.shown] ++ r.arguments ++ [projectDir.shown]

end DocumentationRequest

/-- What came of generating documentation. -/
structure DocumentationReport where
  /-- Whether the generator was run. -/
  ran : Bool
  /-- The checkouts that it changed, in path order. -/
  changed : List Checkout
  /-- What became of the commits. -/
  commits : CommitReport
  deriving DecidableEq, Inhabited

namespace DocumentationReport

/-- Nothing changed. -/
def unchanged (ran : Bool) : DocumentationReport :=
  ⟨ran, [], .empty⟩

end DocumentationReport

namespace DocumentationRequest

variable {σ : Type}

/-- Runs the generator and, on request, commits what it changed under the message for it. -/
def generate (r : DocumentationRequest) (git : Git.Client σ) (programs : Programs σ) (w : Workspace)
    (i : Invocation) (message : List Checkout → σ → String) : Action σ DocumentationReport := do
  let work : Action σ Unit := do
    let _ ← Action.onHost (programs.run i)
    return ()
  if r.commitChanges then
    let (_, changed) ← detectChanges git w work
    if changed = [] then
      Action.note .info "Documentation changed no checkouts"
      return .unchanged true
    else
      let text := message changed (← get).host
      return ⟨true, changed, ← Grove.commitChanges git w changed text false⟩
  else
    work
    return .unchanged true

/-- Generates the documentation of a project into a folder. -/
def run (r : DocumentationRequest) (git : Git.Client σ) (programs : Programs σ) (w : Workspace)
    (pom : Pom) (folder : Path) (message : List Checkout → σ → String) :
    Action σ DocumentationReport := do
  if r.skip then
    Action.note .info "Skipping documentation"
    return .unchanged false
  let program ← Action.ofExcept (programs.require r.command (← get).host)
  let i : Invocation :=
    { Invocation.of program (r.argumentsFor folder pom.directory) with
      directory? := some pom.directory }
  Action.note .info "Documentation args:"
  Action.note .info i.line
  if r.pretend then
    Action.note .info ("Pretend mode, not running " ++ r.command)
    return .unchanged false
  r.generate git programs w i message

end DocumentationRequest

end Grove
