import Grove.CommandLine.Arguments
import Grove.Commands.Context
import Grove.Metadata.Write
import Grove.Statistics.Family
import Grove.Workflow.CommitMessage
import Grove.Workflow.Documentation

/-!
# Commands that generate

The commands that write files: documentation, source statistics and build metadata. Statistics are
planned for every family before the first file is written, so a family that is refused leaves nothing
behind.
-/

namespace Grove.CommandContext

open CommandLine

/-! ### Documentation -/

/-- The documentation that the arguments and the settings ask for. -/
def documentationRequest (x : CommandContext Host) (a : DocumentationArguments) :
    DocumentationRequest where
  command := x.settings.docs.command
  arguments := x.settings.docs.arguments
  updateReadme := x.settings.docs.updateReadme
  overwriteResources := x.settings.docs.overwriteResources
  outputFolder? := a.outputFolder?
  commitChanges := x.settings.docs.commitChanges
  skip := a.skip
  pretend := x.settings.global.pretend

/-- Generates the documentation of the project and reports commits that failed. -/
def documentation (x : CommandContext Host) (a : DocumentationArguments) : Action Host Unit := do
  let standpoint ← x.standpoint
  let request := x.documentationRequest a
  let host := (← get).host
  let folder :=
    request.folder standpoint.project standpoint.workspace.root.root host.lookup host.files
  let report ← request.run x.git x.programs standpoint.workspace standpoint.project folder
    (CommitMessage.onHost standpoint.project)
  if report.changed ≠ [] then
    Action.note .info
      ("Documentation modified " ++ toString report.changed.length ++ " checkouts")
  report.commits.failed.forM fun (_, message) =>
    Action.note .warn ("Commit failed: " ++ message)

/-! ### Statistics -/

/-- The statistics of one family to write. -/
structure StatisticsJob where
  /-- How and where they are written. -/
  writer : StatisticsWriter
  /-- The projects of the family. -/
  projects : List Pom
  deriving DecidableEq

/-- The families that may carry several versions. -/
def tolerated (x : CommandContext Host) : List Family :=
  x.settings.statistics.tolerated.flatMap Family.parseList

/-- How the statistics of a version are written below some assets. -/
def statisticsWriter (x : CommandContext Host) (assets : Path) (version : String) :
    StatisticsWriter :=
  ⟨dataDirectory assets version, x.settings.statistics.indent, x.settings.global.pretend⟩

/-- The jobs for the projects of each family in order. A family without assets is passed over; one
whose version cannot be told fails the whole plan. -/
def statisticsJobs (x : CommandContext Host) (root : Path) :
    List (Family × List Pom) → Action Host (List StatisticsJob)
  | [] => pure []
  | (family, projects) :: rest => do
    let version? ← Action.ofExcept
      ((family.version? projects (family ∈ x.tolerated)).mapError fun e => .bare (.project e))
    match version? with
    | none => x.statisticsJobs root rest
    | some version =>
      let host := (← get).host
      match family.assets? host.lookup host.files (some root) with
      | none =>
        Action.note .warn ("No assets checkout for family; set " ++ family.assetsVariable ++
          " to write codeflowers")
        x.statisticsJobs root rest
      | some assets =>
        let jobs ← x.statisticsJobs root rest
        return ⟨x.statisticsWriter assets version, projects⟩ :: jobs

/-- The checkouts to make statistics of: those of the families listed, else those of the scope. -/
def statisticsCheckouts (x : CommandContext Host) (a : StatisticsArguments) (s : Standpoint) :
    Except ProjectError (List Checkout) :=
  if listed a.families? = [] then .ok (s.resolve x.options)
  else s.workspace.requireInFamilies (listed a.families?)

/-- Everything that comes before the first file is written: the jobs for every family that has
projects in the checkouts. -/
def planStatistics (x : CommandContext Host) (a : StatisticsArguments) :
    Action Host (List StatisticsJob) := do
  let standpoint ← x.standpoint
  let checkouts ←
    Action.ofExcept ((x.statisticsCheckouts a standpoint).mapError fun e => .bare (.project e))
  let families := standpoint.workspace.projectsByFamily checkouts
  if families = [] then
    Action.note .warn "No projects to scan, nothing to do"
    return []
  else x.statisticsJobs standpoint.workspace.root.root families

/-- The pattern of the source files that count, if one is set. -/
def sourceGlob? (x : CommandContext Host) : Option String :=
  if Text.stripped x.settings.statistics.sources = "" then none
  else some x.settings.statistics.sources

/-- Writes the statistics of one family. -/
def runJob (x : CommandContext Host) (job : StatisticsJob) : Action Host Unit := do
  Action.note .info ("Write codeflowers into " ++ job.writer.directory.shown)
  let _ ← Action.onHost (job.writer.run x.sourceGlob? job.projects)
  Action.note .info ("Codeflowers done for " ++ job.writer.directory.shown)

/-- Writes the statistics of every family that has projects in the checkouts. -/
def statistics (x : CommandContext Host) (a : StatisticsArguments) : Action Host Unit := do
  if a.skip then
    Action.note .info "Skipping codeflowers"
  else
    let jobs ← x.planStatistics a
    jobs.forM x.runJob

/-! ### Metadata -/

/-- Where the metadata of a project goes unless another directory is named. -/
def classesDirectory (pom : Pom) : Path :=
  (pom.directory.child "target").child "classes"

/-- Writes the metadata of a build of the project on this day. -/
def metadata (x : CommandContext Host) (a : MetadataArguments) : Action Host Unit := do
  let host := (← get).host
  let pom ← Action.ofExcept ((Pom.ofFile host.files (x.directory.child Pom.fileName)).mapError
    (Failure.within ("no usable project in " ++ x.directory.shown)))
  let _ ← writeMetadata pom ⟨host.now.date⟩ (a.output?.getD (classesDirectory pom))
    x.settings.global.pretend
  return ()

end Grove.CommandContext
