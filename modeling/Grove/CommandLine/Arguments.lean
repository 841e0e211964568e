import Grove.CommandLine.Option
import Grove.Path

/-!
# The command line

The commands with their options, and a command line read as one of them. Options that concern every
command may stand before the command and after it; when one stands on both sides, the later counts.
-/

namespace Grove.CommandLine

/-! ### What a command line says -/

/-- The options that concern every command. -/
structure GlobalArguments where
  /-- Files of settings, lowest first. -/
  settingsFiles : List Path
  /-- Whether nothing is to be changed. -/
  pretend : Bool
  /-- How much the console shows. -/
  logLevel? : Option Nat
  /-- How much the log file shows. -/
  fileLogLevel? : Option Nat
  /-- The log file. -/
  logFile? : Option Path
  /-- The directory of the project to start from. -/
  project? : Option Path
  deriving DecidableEq

/-- The directory of the project, which is the current directory unless another is named. -/
def GlobalArguments.projectDirectory (a : GlobalArguments) : Path :=
  a.project?.getD (.ofString ".")

/-- The options that select checkouts. -/
structure ScopeArguments where
  /-- The name of the rule. -/
  scope? : Option String
  /-- The family to use in place of the project's own. -/
  family? : Option String
  /-- Whether the outermost checkout takes part. -/
  includeRoot? : Option Bool
  deriving DecidableEq

/-- The options for listing checkouts. -/
structure CheckoutsArguments where
  /-- Which checkouts. -/
  scope : ScopeArguments
  /-- Whether local changes are an error. -/
  requireClean : Bool
  deriving DecidableEq

/-- The options for merging. -/
structure MergeArguments where
  /-- Which checkouts. -/
  scope : ScopeArguments
  /-- The branch to merge. -/
  source? : Option String
  /-- The branch to merge into. -/
  into? : Option String
  /-- A branch to merge into before that. -/
  also? : Option String
  /-- The families whose checkouts are taken. -/
  families? : Option String
  /-- Whether the tag is left out. -/
  noTag : Bool
  /-- Whether the merged branch is deleted. -/
  deleteMerged : Bool
  /-- Whether the branches merged into are pushed. -/
  push : Bool
  /-- Whether local changes are an error. -/
  requireClean : Bool
  deriving DecidableEq

/-- The options for making documentation. -/
structure DocumentationArguments where
  /-- Where the documentation goes. -/
  outputFolder? : Option Path
  /-- Whether readme files are made anew. -/
  updateReadme? : Option Bool
  /-- Whether resources are overwritten. -/
  overwriteResources? : Option Bool
  /-- Whether the changes are committed. -/
  commitChanges : Bool
  /-- Whether nothing is done at all. -/
  skip : Bool
  deriving DecidableEq

/-- The options for making source statistics. -/
structure StatisticsArguments where
  /-- Which checkouts. -/
  scope : ScopeArguments
  /-- The families whose checkouts are taken. -/
  families? : Option String
  /-- The families that may carry several versions. -/
  tolerated? : Option String
  /-- Whether the charts are indented. -/
  indent : Bool
  /-- The number of workers. -/
  threads? : Option Nat
  /-- Whether nothing is done at all. -/
  skip : Bool
  deriving DecidableEq

/-- The options for listing skip properties. -/
structure FilterArguments where
  /-- The family to keep when no families are listed. -/
  family? : Option String
  /-- The families to keep. -/
  families? : Option String
  /-- The properties to set on all other projects. -/
  properties? : Option String
  deriving DecidableEq

/-- The options for writing build metadata. -/
structure MetadataArguments where
  /-- The directory for the files. -/
  output? : Option Path
  deriving DecidableEq

/-- A command with its options. -/
inductive Command where
  /-- Shows the version. -/
  | version
  /-- Shows the settings in force. -/
  | options
  /-- Lists checkouts. -/
  | checkouts (a : CheckoutsArguments)
  /-- Merges branches. -/
  | merge (a : MergeArguments)
  /-- Makes documentation. -/
  | docs (a : DocumentationArguments)
  /-- Makes source statistics. -/
  | codeflowers (a : StatisticsArguments)
  /-- Lists skip properties. -/
  | filterFamilies (a : FilterArguments)
  /-- Writes build metadata. -/
  | metadata (a : MetadataArguments)
  deriving DecidableEq

/-- A command line. -/
structure Arguments where
  /-- The options that concern every command. -/
  global : GlobalArguments
  /-- The command, if one is given. -/
  command? : Option Command
  deriving DecidableEq

/-! ### The options of each command -/

/-- The option that asks for help. -/
def helpOption : OptionSpec :=
  ⟨"help", some 'h', .help, false, none⟩

/-- The option that asks for the version. -/
def versionOption : OptionSpec :=
  ⟨"version", some 'V', .version, false, none⟩

/-- The options that concern every command. -/
def globalOptions : List OptionSpec :=
  [{ OptionSpec.valued "config" .path (some 'c') with repeats := true }, .flag "pretend",
    .valued "log-level" .level (some 'l'), .valued "file-log-level" .level none,
    .valued "log-file" .path none, .valued "project" .path (some 'p')]

/-- The options that select checkouts. -/
def scopeOptions : List OptionSpec :=
  [.valued "scope" .anyText (some 's'), .valued "family" .anyText none,
    { OptionSpec.flag "include-root" with opposite? := some "no-include-root" },
    { OptionSpec.flag "no-include-root" with opposite? := some "include-root" }]

/-- The commands with their own options. -/
def commandOptions : List (String × List OptionSpec) :=
  [("version", []), ("options", []), ("checkouts", scopeOptions ++ [.flag "require-clean"]),
    ("merge", scopeOptions ++ [.valued "from" .anyText none, .valued "into" .anyText none,
      .valued "also-into" .anyText none, .valued "families" .anyText none, .flag "no-tag",
      .flag "delete-merged", .flag "push", .flag "require-clean"]),
    ("docs", [.valued "output-folder" .path none, .valued "update-readme" .truth none,
      .valued "overwrite-resources" .truth none, .flag "commit-changes", .flag "skip"]),
    ("codeflowers", scopeOptions ++ [.valued "families" .anyText none,
      .valued "tolerate-version-inconsistencies" .anyText none, .flag "indent",
      .valued "threads" .count none, .flag "skip"]),
    ("filter-families", [.valued "family" .anyText none, .valued "families" .anyText none,
      .valued "properties" .anyText none]),
    ("metadata", [.valued "output" .path (some 'o')])]

/-- The command that shows help. -/
def helpCommand : String := "help"

/-- What may stand before a command. -/
def topLevel : Level :=
  ⟨globalOptions ++ [helpOption, versionOption], commandOptions.map (·.1) ++ [helpCommand]⟩

/-- What may stand behind a command with options of its own. -/
def commandLevel (own : List OptionSpec) : Level :=
  ⟨own ++ globalOptions ++ [helpOption], []⟩

/-! ### Reading -/

/-- A number that was given. -/
def Given.nat? (g : Given) (name : String) : Option Nat :=
  (g.value? name).bind fun s => (Decimal.int? s.toList).map Int.toNat

/-- A truth value that was given. -/
def Given.truth? (g : Given) (name : String) : Option Bool :=
  (g.value? name).map (· = "true")

/-- A path that was given. -/
def Given.path? (g : Given) (name : String) : Option Path :=
  (g.value? name).map .ofString

/-- The options that concern every command, as given. -/
def GlobalArguments.ofGiven (g : Given) : GlobalArguments :=
  ⟨(g.values "config").map .ofString, g.has "pretend", g.nat? "log-level", g.nat? "file-log-level",
    g.path? "log-file", g.path? "project"⟩

/-- The options that select checkouts, as given. -/
def ScopeArguments.ofGiven (g : Given) : ScopeArguments :=
  ⟨g.value? "scope", g.value? "family",
    if g.has "include-root" then some true
    else if g.has "no-include-root" then some false
    else none⟩

/-- A command with its options, as given. -/
def Command.ofGiven? (name : String) (g : Given) : Option Command :=
  match name with
  | "version" => some .version
  | "options" => some .options
  | "checkouts" => some (.checkouts ⟨.ofGiven g, g.has "require-clean"⟩)
  | "merge" =>
    some (.merge ⟨.ofGiven g, g.value? "from", g.value? "into", g.value? "also-into",
      g.value? "families", g.has "no-tag", g.has "delete-merged", g.has "push",
      g.has "require-clean"⟩)
  | "docs" =>
    some (.docs ⟨g.path? "output-folder", g.truth? "update-readme", g.truth? "overwrite-resources",
      g.has "commit-changes", g.has "skip"⟩)
  | "codeflowers" =>
    some (.codeflowers ⟨.ofGiven g, g.value? "families",
      g.value? "tolerate-version-inconsistencies", g.has "indent", g.nat? "threads", g.has "skip"⟩)
  | "filter-families" =>
    some (.filterFamilies ⟨g.value? "family", g.value? "families", g.value? "properties"⟩)
  | "metadata" => some (.metadata ⟨g.path? "output"⟩)
  | _ => none

/-- What asking for help on the words of a command comes to: at most one command can be named. -/
def helpOn : List String → UsageError
  | [] => .displayHelp
  | [name] => if name ∈ topLevel.commands then .displayHelp else .invalidCommand
  | _ => .invalidCommand

/-- Reads the words after the program's name. -/
def Arguments.parse (words : List String) : Except UsageError Arguments := do
  let (before, found?) ← Reading.words topLevel words .start
  match found? with
  | none =>
    let before ← before.settle
    return ⟨.ofGiven before.given, none⟩
  | some (name, rest) =>
    if name = helpCommand then throw (helpOn rest)
    let own := (commandOptions.lookup name).getD []
    let (after, _) ← Reading.words (commandLevel own) rest .start
    let after ← after.settle
    let before ← before.settle
    return ⟨.ofGiven (after.given.onto before.given), Command.ofGiven? name after.given⟩

end Grove.CommandLine
