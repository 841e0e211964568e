import Grove.CommandLine.Arguments
import Grove.Settings.Load
import Grove.Workflow.Merge

/-!
# Settings from the command line

Options are the highest layer of settings: an option that is given sets its key, one that is not
given leaves the lower layers in force. Below it come the environment, the files named on the command
line, and the file in the current directory.
-/

namespace Grove

open Settings (Layers Source KeyPath Value)

/-- The file of settings in the current directory, which may be missing. -/
def Settings.localFile : Path := .ofString "cactus.toml"

/-- The word that names of environment variables start with. -/
def Settings.variableWord : String := "CACTUS"

/-- The merge flags under the settings. -/
def Settings.mergeFlags (s : Settings) : MergeFlags :=
  ⟨s.merge.tag, s.merge.deleteMerged, s.merge.push, s.global.pretend⟩

namespace CommandLine

/-- A value for an option that is given. -/
def whenGiven (given : Bool) (v : Value) : Option Value :=
  if given then some v else none

/-- Adds the files and values of the options that concern every command. The level of the log file
is that of the console unless it is given. -/
def GlobalArguments.onto (a : GlobalArguments) (l : Layers) : Layers :=
  (a.settingsFiles.foldl (fun l p => l.addSource (.file p)) l)
    |>.setIf (.ofSection "global" "output_log_level") (a.logLevel?.map fun n => .integer n)
    |>.setIf (.ofSection "global" "file_log_level")
      ((a.fileLogLevel?.or a.logLevel?).map fun n => .integer n)
    |>.setIf (.ofSection "global" "log_file") (a.logFile?.map fun p => .text p.shown)
    |>.setIf (.ofSection "global" "pretend") (whenGiven a.pretend (.flag true))

/-- Adds the values of the options that select checkouts. -/
def ScopeArguments.onto (a : ScopeArguments) (l : Layers) : Layers :=
  l.setIf (.ofSection "scope" "scope") (a.scope?.map .text)
    |>.setIf (.ofSection "scope" "family") (a.family?.map .text)
    |>.setIf (.ofSection "scope" "include_root") (a.includeRoot?.map .flag)

/-- Adds the values of the options for merging. -/
def MergeArguments.onto (a : MergeArguments) (l : Layers) : Layers :=
  a.scope.onto l
    |>.setIf (.ofSection "merge" "into") (a.into?.map .text)
    |>.setIf (.ofSection "merge" "tag") (whenGiven a.noTag (.flag false))
    |>.setIf (.ofSection "merge" "delete_merged") (whenGiven a.deleteMerged (.flag true))
    |>.setIf (.ofSection "merge" "push") (whenGiven a.push (.flag true))
    |>.setIf (.ofSection "merge" "require_clean") (whenGiven a.requireClean (.flag true))

/-- Adds the values of the options for making documentation. -/
def DocumentationArguments.onto (a : DocumentationArguments) (l : Layers) : Layers :=
  l.setIf (.ofSection "docs" "update_readme") (a.updateReadme?.map .flag)
    |>.setIf (.ofSection "docs" "overwrite_resources") (a.overwriteResources?.map .flag)
    |>.setIf (.ofSection "docs" "commit_changes") (whenGiven a.commitChanges (.flag true))

/-- Adds the values of the options for making source statistics. -/
def StatisticsArguments.onto (a : StatisticsArguments) (l : Layers) : Layers :=
  a.scope.onto l
    |>.setIf (.ofSection "codeflowers" "indent") (whenGiven a.indent (.flag true))
    |>.setIf (.ofSection "codeflowers" "tolerate_version_inconsistencies")
      (a.tolerated?.map fun s => .list ((Text.entries s).map .text))
    |>.setIf (.ofSection "scan" "threads") (a.threads?.map fun n => .integer n)

/-- Adds the values of a command's options. -/
def Command.onto (c : Command) (l : Layers) : Layers :=
  match c with
  | .checkouts a => a.scope.onto l
  | .merge a => a.onto l
  | .docs a => a.onto l
  | .codeflowers a => a.onto l
  | _ => l

/-- Adds what a command line says. -/
def Arguments.onto (a : Arguments) (l : Layers) : Layers :=
  a.command?.elim (a.global.onto l) fun c => c.onto (a.global.onto l)

/-- All layers of a run: the file in the current directory, the files named, the environment and the
options. -/
def Arguments.layers (a : Arguments) : Layers :=
  a.onto ⟨[.optional Settings.localFile], some Settings.variableWord, []⟩

end CommandLine

end Grove
