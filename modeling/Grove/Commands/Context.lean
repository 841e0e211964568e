import Grove.Host
import Grove.Program.Basic
import Grove.Project.Scope
import Grove.Settings.Basic

/-!
# What commands work with

A command works with access to git and to programs, the directory of the project it starts from, and
the settings in force. Commands that only look at files run in any state that has files.
-/

namespace Grove

/-- A state in which there are files. -/
class HasFiles (σ : Type) where
  /-- The files of a state. -/
  files : σ → Files

instance : HasFiles Host :=
  ⟨Host.files⟩

/-- What a command works with. -/
structure CommandContext (σ : Type) where
  /-- Access to git. -/
  git : Git.Client σ
  /-- Access to programs. -/
  programs : Programs σ
  /-- The directory of the project. -/
  directory : Path
  /-- The settings in force. -/
  settings : Settings

namespace CommandContext

variable {σ : Type}

/-- How checkouts are selected. -/
def options (x : CommandContext σ) : ScopeOptions :=
  x.settings.scopeOptions

/-- The project and the workspace around it. -/
def standpoint [HasFiles σ] (x : CommandContext σ) : Action σ Standpoint := do
  Standpoint.load (HasFiles.files (← get).host) x.directory x.options

/-- The families of an option that lists them. -/
def listed (families? : Option String) : List Family :=
  (families?.map Family.parseList).getD []

end CommandContext

end Grove
