import Grove.Git.Checkout

/-!
# Requiring clean checkouts

A check that names every dirty checkout of a list, in the order of the list.
-/

namespace Grove

variable {σ : Type}

/-- The names of the dirty checkouts among some. -/
def dirtyNames (git : Git.Client σ) : List Checkout → Action σ (List String)
  | [] => pure []
  | c :: cs => do
    let dirty ← c.isDirty git
    let names ← dirtyNames git cs
    return if dirty then c.name :: names else names

/-- Fails when a checkout is dirty, naming all that are. -/
def ensureClean (git : Git.Client σ) (checkouts : List Checkout) : Action σ Unit := do
  let names ← dirtyNames git checkouts
  if names ≠ [] then throw (Failure.git (.uncommittedChanges names))

end Grove
