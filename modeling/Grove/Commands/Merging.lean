import Grove.CommandLine.Layers
import Grove.Commands.Context
import Grove.Workflow.Clean

/-!
# The command that merges

Everything that can be wrong with a request is found before the first change: the names of the
branches, the families, and, where that is asked for, local changes. From then on a checkout that
fails is reported and the command goes on.
-/

namespace Grove.CommandContext

open CommandLine

variable {σ : Type}

/-- The merge that the arguments and the settings ask for. -/
def mergeRequest (x : CommandContext σ) (a : MergeArguments) : MergeRequest :=
  ⟨a.source?, x.settings.merge.into, a.also?, x.settings.mergeFlags⟩

/-- The checkouts to merge in. -/
def mergeCheckouts (x : CommandContext σ) (a : MergeArguments) (s : Standpoint) :
    Except SettingsError (List Checkout) :=
  applyFamilies s.workspace x.options.scope x.options.includeRoot s.family (listed a.families?)
    (s.resolve x.options)

/-- Everything that comes before the merge itself: the checkouts, once nothing is wrong with them or
with the request. -/
def prepareMerge [HasFiles σ] (x : CommandContext σ) (a : MergeArguments) :
    Action σ (List Checkout) := do
  Action.ofExcept ((x.mergeRequest a).validate.mapError fun e => .bare (.settings e))
  let standpoint ← x.standpoint
  let checkouts ←
    Action.ofExcept ((x.mergeCheckouts a standpoint).mapError fun e => .bare (.settings e))
  if x.settings.merge.requireClean then ensureClean x.git checkouts
  return checkouts

/-- Merges in every checkout and reports those that fail. -/
def mergeIn (x : CommandContext σ) (a : MergeArguments) (checkouts : List Checkout) :
    Action σ Unit := do
  let report ← (x.mergeRequest a).run x.git checkouts
  Action.note .info "Merge finished"
  report.failed.forM fun (_, message) => Action.note .error message

/-- Merges branches across checkouts. -/
def merge [HasFiles σ] (x : CommandContext σ) (a : MergeArguments) : Action σ Unit := do
  let checkouts ← x.prepareMerge a
  x.mergeIn a checkouts

end Grove.CommandContext
