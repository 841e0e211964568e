import Grove.Commands.Generation
import Grove.Commands.Merging
import Grove.Commands.Selection

/-!
# Carrying out a command line

A command line is carried out on a host: the settings are loaded from all layers, then the command
runs under them.
-/

namespace Grove.CommandLine

/-- Carries out a command. -/
def Command.run (x : CommandContext Host) : Command → Action Host Unit
  | .version => Action.print programVersion
  | .options => x.settings.optionLines.forM Action.print
  | .checkouts a => x.listCheckouts a
  | .merge a => x.merge a
  | .docs a => x.documentation a
  | .codeflowers a => x.statistics a
  | .filterFamilies a => x.filterFamilies a
  | .metadata a => x.metadata a

/-- The settings in force for a command line. -/
def Arguments.settings (a : Arguments) : Action Host Settings := do
  Action.ofExcept ((a.layers.load (← get).host).mapError fun e => .bare (.settings e))

/-- Carries out a command line; one without a command fails once its settings are loaded. -/
def Arguments.run (git : Git.Client Host) (programs : Programs Host) (a : Arguments) :
    Action Host Unit := do
  let settings ← a.settings
  match a.command? with
  | some c => c.run ⟨git, programs, a.global.projectDirectory, settings⟩
  | none => throw (.bare (.plain "No command specified"))

end Grove.CommandLine
