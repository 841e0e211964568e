import Grove.CommandLine.Arguments
import Grove.Commands.Context
import Grove.Workflow.Clean
import Grove.Workflow.Skip

/-!
# Commands that list

The commands that only look: they print the checkouts of a scope, or the properties that make a build
skip projects.
-/

namespace Grove.CommandContext

open CommandLine

variable {σ : Type}

/-- A checkout with its directory. -/
def checkoutLine (c : Checkout) : String :=
  c.name ++ "\t" ++ c.root.shown

/-- Prints the checkouts of the scope; on request all of them have to be clean. -/
def listCheckouts [HasFiles σ] (x : CommandContext σ) (a : CheckoutsArguments) :
    Action σ Unit := do
  let standpoint ← x.standpoint
  let checkouts := standpoint.resolve x.options
  Action.note .info ("Have " ++ toString checkouts.length ++ " checkouts")
  if checkouts = [] then
    Action.note .warn "No checkouts matched, nothing to do"
  else
    if a.requireClean then ensureClean x.git checkouts
    checkouts.forM fun c => Action.print (checkoutLine c)

/-- The families asked for: those of the options, else the one of the settings. -/
def wantedFamilies (x : CommandContext σ) (a : FilterArguments) : List Family :=
  requestedFamilies (a.family? <|> x.settings.scope.family?) a.families?

/-- Prints the properties that make a build skip every project outside the families. Without families
or properties the workspace is not looked at. -/
def filterFamilies [HasFiles σ] (x : CommandContext σ) (a : FilterArguments) :
    Action σ Unit := do
  let families := x.wantedFamilies a
  let properties := (a.properties?.map Text.entries).getD []
  if families = [] ∨ properties = [] then
    Action.note .info "No families or no properties given, nothing to filter"
  else
    let found ← Action.ofExcept (Workspace.scanAround (HasFiles.files (← get).host) x.directory)
    let workspace ← found.report
    (skipProperties workspace families properties).forM Action.print

end Grove.CommandContext
