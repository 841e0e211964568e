import Grove.Git.Recorded
import Grove.Main
import Grove.Versions
import Grove.Proofs.Action
import Grove.Proofs.MergeSteps
import Grove.Proofs.Branches
import Grove.Proofs.MergePlanning
import Grove.Proofs.MergeOutcome
import Grove.Proofs.MergeContainment
import Grove.Proofs.MergePretend
import Grove.Proofs.Workspaces
import Grove.Proofs.ChangeDetection
import Grove.Proofs.Separate
import Grove.Proofs.Trace
import Grove.Proofs.Commits
import Grove.Proofs.CommitRun
import Grove.Proofs.CommitScope
import Grove.Proofs.Memory
import Grove.Proofs.StepsKeep
import Grove.Proofs.Deeds
import Grove.Proofs.Failures
import Grove.Proofs.Paths
import Grove.Proofs.Walks
import Grove.Proofs.Assignment
import Grove.Proofs.Scans
import Grove.Proofs.Canonical
import Grove.Proofs.Discovery
import Grove.Proofs.Standpoints
import Grove.Proofs.Selections
import Grove.Statistics.Workers
import Grove.Proofs.Scores
import Grove.Proofs.FailFast
import Grove.Proofs.StatisticsPlans
import Grove.Proofs.Workers
import Grove.Proofs.PoolRuns
import Grove.Proofs.Placement
import Grove.Proofs.FileWrites
import Grove.Proofs.PlainDirectories
import Grove.Proofs.StatisticsFiles
import Grove.Proofs.Resolution
import Grove.Proofs.ProjectFiles
import Grove.Proofs.StatisticsPlaces
import Grove.Proofs.DocumentationRuns
import Grove.Proofs.Encoding
import Grove.Proofs.SectionTables
import Grove.Proofs.SettingReaders
import Grove.Proofs.SettingLayers
import Grove.Proofs.SettingVariables
import Grove.Proofs.Markup
import Grove.Proofs.ProjectSheets
import Grove.Proofs.NestedSections
import Grove.Proofs.PropertyFiles
import Grove.Proofs.JsonReading
import Grove.Proofs.Charts
import Grove.Proofs.PendingVersions
import Grove.Proofs.BranchNames
import Grove.Proofs.MergeTraces
import Grove.Proofs.MergePlans
import Grove.Proofs.MergePushes
import Grove.Proofs.TagNames
import Grove.Proofs.References
import Grove.Proofs.Scopes
import Grove.Proofs.FamilyLists
import Grove.Proofs.SharedVersions
import Grove.Proofs.ProjectKeys
import Grove.Proofs.Climbs
import Grove.Proofs.ProjectValues
import Grove.Proofs.Families
import Grove.Proofs.PassedProjects
import Grove.Proofs.PrintedLines
