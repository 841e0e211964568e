import Grove.Log.Level
import Grove.Project.Scope
import Grove.Settings.KeyPath
import Grove.Workflow.Documentation

/-!
# Settings

What a run can be told, in sections, with the values that hold when nothing is said. Settings are
read from a table of tables: a key that no section has is refused, and so is a value that cannot be
taken for what its key needs. A section may also be given as a list of its values in order.
-/

namespace Grove

/-- Why sources do not yield settings. -/
inductive SettingsFault where
  /-- A file that is needed is not there. -/
  | missing (path : String)
  /-- A source is not well-formed. -/
  | malformed (source : String)
  /-- No section has the key. -/
  | unknownKey (key : String)
  /-- The value cannot be taken for what the key needs. -/
  | unfit (key : String)
  /-- The value breaks the rule of its key. -/
  | refused (error : SettingsError)
  deriving DecidableEq

/-- The wording of a fault. -/
def SettingsFault.message : SettingsFault → String
  | missing path => "configuration file \"" ++ path ++ "\" not found"
  | malformed source => "TOML parse error in " ++ source
  | unknownKey key => "unknown field: " ++ key
  | unfit key => "invalid value for key " ++ key
  | refused error => error.message

/-- What concerns every command. -/
structure GlobalSettings where
  /-- How much the console shows. -/
  consoleLevel : LogLevel
  /-- How much the log file shows. -/
  fileLevel : LogLevel
  /-- The log file, if any. -/
  logFile? : Option String
  /-- Whether nothing is to be changed. -/
  pretend : Bool
  deriving DecidableEq

/-- Which checkouts a command touches. -/
structure ScopeSettings where
  /-- The rule. -/
  scope : Scope
  /-- Whether the outermost checkout takes part. -/
  includeRoot : Bool
  /-- The family to use in place of the project's own. -/
  family? : Option String
  deriving DecidableEq

/-- How branches are merged. -/
structure MergeSettings where
  /-- The branch merged into. -/
  into : String
  /-- Whether the merge is tagged. -/
  tag : Bool
  /-- Whether branches that received a merge are pushed. -/
  push : Bool
  /-- Whether the merged branch is deleted. -/
  deleteMerged : Bool
  /-- Whether local changes keep the merge from starting. -/
  requireClean : Bool
  deriving DecidableEq

/-- How documentation is made. -/
structure DocumentationSettings where
  /-- The program that makes it. -/
  command : String
  /-- What the program is told first. -/
  arguments : List String
  /-- Whether readme files are made anew. -/
  updateReadme : Bool
  /-- Whether resources are overwritten. -/
  overwriteResources : Bool
  /-- Whether the changes are committed. -/
  commitChanges : Bool
  deriving DecidableEq

/-- How source statistics are made. -/
structure StatisticsSettings where
  /-- Whether the charts are indented. -/
  indent : Bool
  /-- The pattern of the files that count. -/
  sources : String
  /-- The families that may carry several versions. -/
  tolerated : List String
  deriving DecidableEq

/-- How sources are scanned. -/
structure ScanSettings where
  /-- The number of workers; the machine decides when it is not said. -/
  threads? : Option Nat
  deriving DecidableEq

/-- Everything a run can be told. -/
structure Settings where
  /-- What concerns every command. -/
  global : GlobalSettings
  /-- Which checkouts a command touches. -/
  scope : ScopeSettings
  /-- How branches are merged. -/
  merge : MergeSettings
  /-- How documentation is made. -/
  docs : DocumentationSettings
  /-- How source statistics are made. -/
  statistics : StatisticsSettings
  /-- How sources are scanned. -/
  scan : ScanSettings
  deriving DecidableEq

namespace Settings

/-- What holds when nothing is said. -/
def standard : Settings where
  global := ⟨.info, .debug, none, false⟩
  scope := ⟨.family, true, none⟩
  merge := ⟨"develop", true, false, false, false⟩
  docs := ⟨DocumentationRequest.defaultCommand, [], true, true, false⟩
  statistics := ⟨false, "**/*.java", []⟩
  scan := ⟨none⟩

instance : Inhabited Settings := ⟨standard⟩

/-! ### Reading -/

/-- A value taken for what its key needs. -/
def taken {α : Type} (as? : Value → Option α) (key : String) (v : Value) :
    Except SettingsFault α :=
  match as? v with
  | some a => .ok a
  | none => .error (.unfit key)

/-- A value that may be absent. -/
def optional {α : Type} (as? : Value → Option α) (key : String) (v : Value) :
    Except SettingsFault (Option α) :=
  match v with
  | .absent => .ok none
  | v => some <$> taken as? key v

/-- A value taken for a log level. Of a number only the lowest eight bits count. -/
def logLevel (key : String) (v : Value) : Except SettingsFault LogLevel := do
  let n ← taken Value.asNat? key v
  (LogLevel.ofNat (n % 256)).mapError .refused

/-- A value taken for a number of workers, which is at least one. -/
def workers? (v : Value) : Option Nat :=
  v.asNat?.filter (0 < ·)

/-- How a section is read. -/
structure Reader (σ : Type) where
  /-- The keys of the section in order. -/
  keys : List String
  /-- Changes the setting of a key. -/
  put : σ → String → Value → Except SettingsFault σ

/-- Reads a section over what holds so far. -/
def Reader.read {σ : Type} (r : Reader σ) (key : String) (initial : σ) :
    Value → Except SettingsFault σ
  | .table es => es.foldlM (fun s (k, v) => r.put s k v) initial
  | .list items => (r.keys.zip items).foldlM (fun s (k, v) => r.put s k v) initial
  | _ => .error (.unfit key)

/-- Reads the global section. -/
def globalReader : Reader GlobalSettings where
  keys := ["output_log_level", "file_log_level", "log_file", "pretend"]
  put s key v :=
    match key with
    | "output_log_level" => return { s with consoleLevel := ← logLevel key v }
    | "file_log_level" => return { s with fileLevel := ← logLevel key v }
    | "log_file" => return { s with logFile? := ← optional Value.asText? key v }
    | "pretend" => return { s with pretend := ← taken Value.asFlag? key v }
    | key => .error (.unknownKey key)

/-- Reads the scope section. -/
def scopeReader : Reader ScopeSettings where
  keys := ["scope", "include_root", "family"]
  put s key v :=
    match key with
    | "scope" => do
      let name ← taken Value.asText? key v
      return { s with scope := ← (Scope.ofString name).mapError .refused }
    | "include_root" => return { s with includeRoot := ← taken Value.asFlag? key v }
    | "family" => return { s with family? := ← optional Value.asText? key v }
    | key => .error (.unknownKey key)

/-- Reads the merge section. -/
def mergeReader : Reader MergeSettings where
  keys := ["into", "tag", "push", "delete_merged", "require_clean"]
  put s key v :=
    match key with
    | "into" => return { s with into := ← taken Value.asText? key v }
    | "tag" => return { s with tag := ← taken Value.asFlag? key v }
    | "push" => return { s with push := ← taken Value.asFlag? key v }
    | "delete_merged" => return { s with deleteMerged := ← taken Value.asFlag? key v }
    | "require_clean" => return { s with requireClean := ← taken Value.asFlag? key v }
    | key => .error (.unknownKey key)

/-- Reads the documentation section. -/
def docsReader : Reader DocumentationSettings where
  keys := ["command", "args", "update_readme", "overwrite_resources", "commit_changes"]
  put s key v :=
    match key with
    | "command" => return { s with command := ← taken Value.asText? key v }
    | "args" => return { s with arguments := ← taken Value.asTexts? key v }
    | "update_readme" => return { s with updateReadme := ← taken Value.asFlag? key v }
    | "overwrite_resources" => return { s with overwriteResources := ← taken Value.asFlag? key v }
    | "commit_changes" => return { s with commitChanges := ← taken Value.asFlag? key v }
    | key => .error (.unknownKey key)

/-- Reads the statistics section. -/
def statisticsReader : Reader StatisticsSettings where
  keys := ["indent", "source_glob", "tolerate_version_inconsistencies"]
  put s key v :=
    match key with
    | "indent" => return { s with indent := ← taken Value.asFlag? key v }
    | "source_glob" => return { s with sources := ← taken Value.asText? key v }
    | "tolerate_version_inconsistencies" =>
      return { s with tolerated := ← taken Value.asTexts? key v }
    | key => .error (.unknownKey key)

/-- Reads the scan section. -/
def scanReader : Reader ScanSettings where
  keys := ["threads"]
  put s key v :=
    match key with
    | "threads" => return { s with threads? := ← optional workers? key v }
    | key => .error (.unknownKey key)

/-- Reads all sections. -/
def reader : Reader Settings where
  keys := ["global", "scope", "merge", "docs", "codeflowers", "scan"]
  put s key v :=
    match key with
    | "global" => return { s with global := ← globalReader.read key standard.global v }
    | "scope" => return { s with scope := ← scopeReader.read key standard.scope v }
    | "merge" => return { s with merge := ← mergeReader.read key standard.merge v }
    | "docs" => return { s with docs := ← docsReader.read key standard.docs v }
    | "codeflowers" =>
      return { s with statistics := ← statisticsReader.read key standard.statistics v }
    | "scan" => return { s with scan := ← scanReader.read key standard.scan v }
    | key => .error (.unknownKey key)

/-- Reads settings from a table of sections. -/
def ofValue (v : Value) : Except SettingsFault Settings :=
  reader.read "" standard v

/-! ### Showing -/

/-- The setting of a key that may be unset. -/
def shownIf (key : String) (v : Option Value) : List (String × Value) :=
  v.toList.map (key, ·)

/-- The sections with their settings; what is unset is left out. -/
def sections (s : Settings) : List (String × List (String × Value)) :=
  [("global", [("output_log_level", .integer s.global.consoleLevel.level),
      ("file_log_level", .integer s.global.fileLevel.level)] ++
      shownIf "log_file" (s.global.logFile?.map .text) ++ [("pretend", .flag s.global.pretend)]),
    ("scope", [("scope", .text s.scope.scope.name), ("include_root", .flag s.scope.includeRoot)] ++
      shownIf "family" (s.scope.family?.map .text)),
    ("merge", [("into", .text s.merge.into), ("tag", .flag s.merge.tag),
      ("push", .flag s.merge.push), ("delete_merged", .flag s.merge.deleteMerged),
      ("require_clean", .flag s.merge.requireClean)]),
    ("docs", [("command", .text s.docs.command), ("args", .list (s.docs.arguments.map .text)),
      ("update_readme", .flag s.docs.updateReadme),
      ("overwrite_resources", .flag s.docs.overwriteResources),
      ("commit_changes", .flag s.docs.commitChanges)]),
    ("codeflowers", [("indent", .flag s.statistics.indent),
      ("source_glob", .text s.statistics.sources),
      ("tolerate_version_inconsistencies", .list (s.statistics.tolerated.map .text))]),
    ("scan", shownIf "threads" (s.scan.threads?.map fun n => .integer n))]

/-- The text of a list of words in one line; none for an empty list. -/
def joined? (separator : String) (words : List String) : Option String :=
  if words.isEmpty then none else some (separator.intercalate words)

/-- The text of a truth value. -/
def flagText (b : Bool) : String :=
  if b then "true" else "false"

/-- Every option with its value in words, by key. A list without items and a family that is unset
are left out. -/
def options (s : Settings) : List (String × String) :=
  let always := [("global.output_log_level", toString s.global.consoleLevel.level),
    ("global.file_log_level", toString s.global.fileLevel.level),
    ("global.log_file", s.global.logFile?.getD ""), ("global.pretend", flagText s.global.pretend),
    ("scope.scope", s.scope.scope.name), ("scope.include_root", flagText s.scope.includeRoot),
    ("merge.into", s.merge.into), ("merge.tag", flagText s.merge.tag),
    ("merge.push", flagText s.merge.push), ("merge.delete_merged", flagText s.merge.deleteMerged),
    ("merge.require_clean", flagText s.merge.requireClean), ("docs.command", s.docs.command),
    ("docs.update_readme", flagText s.docs.updateReadme),
    ("docs.overwrite_resources", flagText s.docs.overwriteResources),
    ("docs.commit_changes", flagText s.docs.commitChanges),
    ("codeflowers.indent", flagText s.statistics.indent),
    ("codeflowers.source_glob", s.statistics.sources),
    ("scan.threads", s.scan.threads?.elim "auto" toString)]
  let sometimes := [("scope.family", s.scope.family?), ("docs.args", joined? " " s.docs.arguments),
    ("codeflowers.tolerate_version_inconsistencies", joined? "," s.statistics.tolerated)]
  (always ++ sometimes.filterMap fun (k, v) => v.map (k, ·)).mergeSort fun a b => a.1 ≤ b.1

/-- The options one a line, with the equals signs below each other. -/
def optionLines (s : Settings) : List String :=
  let width := (s.options.map (·.1.length)).foldl max 0
  s.options.map fun (k, v) =>
    k ++ String.ofList (List.replicate (width - k.length) ' ') ++ " = " ++ v

/-- How checkouts are selected under the settings. -/
def scopeOptions (s : Settings) : ScopeOptions :=
  ⟨s.scope.scope, s.scope.includeRoot, s.scope.family?, s.global.pretend⟩

/-- Where log lines go under the settings. -/
def logSinks (s : GlobalSettings) : LogSinks :=
  ⟨s.consoleLevel, s.fileLevel, s.logFile?⟩

end Settings

end Grove
