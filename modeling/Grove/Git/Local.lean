import Grove.Git.Command

/-!
# Repositories on a host

Two ways to the repositories of a host. One runs git commands for everything; the other reads
repositories itself to answer questions and runs commands only to change them. A command that fails
tells what it printed about errors, or what it printed at all if it said nothing about errors.
-/

namespace Grove.Git

/-- Runs a git command for what it prints. -/
def outputOf (dir : Path) (words : List String) : EStateM Failure Host String := fun h =>
  match command dir words h with
  | (.error e, h) =>
    .error (.under (.os (.worded ("failed to execute git: " ++ e.message)))) h
  | (.ok reply, h) =>
    if reply.code = 0 then .ok (Text.stripped reply.output) h
    else
      let errors := Text.stripped reply.errors
      let told := if errors = "" then Text.stripped reply.output else errors
      .error (Failure.git (.commandFailed ("git " ++ " ".intercalate words) told)) h

/-- The words of the command for a change. -/
def Mutation.words : Mutation → List String
  | switchTo branch => ["checkout", "-q", branch]
  | create branch none => ["checkout", "-q", "-b", branch]
  | create branch (some start) => ["checkout", "-q", "--track", "-b", branch, start]
  | merge branch => ["merge", "--no-edit", "-q", branch]
  | tag name force => if force then ["tag", "-f", name] else ["tag", name]
  | delete branch force => ["branch", if force then "-D" else "-d", branch]
  | push => ["push", "-q"]
  | pushNew remote branch => ["push", "-q", "-u", remote, branch]
  | addAll => ["add", "-A"]
  | commit message => ["commit", "-q", "-m", message]

/-- Changes a repository by a command. -/
def mutate (dir : Path) (m : Mutation) : EStateM Failure Host Unit := do
  let _ ← outputOf dir m.words

/-- Access by commands alone. -/
def commands : Client Host where
  isDirty dir := do return (← outputOf dir ["status", "--porcelain"]) ≠ ""
  currentBranch dir := do
    try return some (← outputOf dir ["symbolic-ref", "--short", "-q", "HEAD"])
    catch _ => return none
  listBranches dir := do
    let listed ← outputOf dir
      ["for-each-ref", "--format=%(refname)", "refs/heads", "refs/remotes"]
    return (Text.lines listed.toList).filterMap fun line => Branch.ofRef? (String.ofList line)
  mutate := mutate

/-- The repository around a directory, read without a command. -/
def readRepository (dir : Path) : EStateM Failure Host (Scene × Repository) := fun h =>
  let missing (reason : String) : Failure := Failure.git (.unreadable (.discovery reason))
  match h.files.enter dir with
  | .error _ =>
    .error (missing ("Failed to access a directory, or path is not a directory: '" ++ dir.shown ++
      "'")) h
  | .ok files =>
    let x : Scene := ⟨h.files, h.depot⟩
    match x.discover true files.here with
    | .found _ r => .ok (x, r) h
    | _ =>
      .error (missing ("Could not find a git repository in '" ++ dir.shown ++
        "' or in any of its parents")) h

/-- Access that reads repositories to answer questions. -/
def direct : Client Host where
  isDirty dir := do
    let (x, r) ← readRepository dir
    if r.bare then
      throw (Failure.git (.unreadable (.status "A work tree is required to perform a status")))
    return !(x.fullStatus r).isClean
  currentBranch dir := do
    let (_, r) ← readRepository dir
    return r.currentBranch?
  listBranches dir := do
    let (_, r) ← readRepository dir
    return r.branches
  mutate := mutate

end Grove.Git
