import Grove.Git.Switch
import Grove.Host

/-!
# Git at work

A git command runs in a directory of a host. It may end early with its reply, keeping what it did so
far. The repository it works on is the nearest one around its directory.
-/

namespace Grove.Git

/-- What a git command answers. -/
structure Reply where
  /-- What it prints. -/
  output : String
  /-- What it prints about errors. -/
  errors : String
  /-- The exit code. -/
  code : Nat
  deriving DecidableEq, Inhabited

namespace Reply

/-- Success with some output. -/
def ok (output : String) : Reply :=
  ⟨output, "", 0⟩

end Reply

/-- The steps of a git command on a host; it may end early with its reply. -/
abbrev Work (α : Type) := EStateM Reply Host α

/-- Where the search for a repository ends. -/
inductive Discovery where
  /-- At a repository. -/
  | found (kept : Location) (r : Repository)
  /-- At a file that names no repository. -/
  | broken (message : String)
  /-- Nowhere. -/
  | nothing

namespace Scene

/-- What there is of a repository at a directory itself. -/
def discoverAt (x : Scene) (dir : Location) : Discovery :=
  match x.repositoryOf? dir with
  | some (kept, r) => .found kept r
  | none =>
    match x.keptAt? dir with
    | some (kept, r) => .found kept r
    | none =>
      match x.files.top.get? (dir ++ [entryName]) with
      | some (.file content _) =>
        match pointedAt? content with
        | none => .broken ("invalid gitfile format: " ++ (Files.pathOf (dir ++ [entryName])).text)
        | some p => .broken ("not a git repository: " ++ ((Files.pathOf dir).join p).text)
      | _ => .nothing

/-- The repository around a directory; `lenient` passes over files that name none. -/
def discover (x : Scene) (lenient : Bool) (dir : Location) : Discovery :=
  let ups := (List.range (dir.length + 1)).reverse.map fun n => x.discoverAt (dir.take n)
  (ups.find? fun
    | .found .. => true
    | .broken _ => !lenient
    | .nothing => false).getD .nothing

end Scene

/-- Where a command works. -/
structure Site where
  /-- The directory that it runs in. -/
  here : Location
  /-- The location that the repository is kept at. -/
  kept : Location
  /-- The repository. -/
  repo : Repository
  deriving Inhabited

namespace Work

variable {α : Type}

/-- Ends with a code and a message. -/
def stop (code : Nat) (errors : String) : Work α :=
  throw ⟨"", errors, code⟩

/-- Ends because the command cannot be carried out at all. -/
def fatal (message : String) : Work α :=
  stop 128 ("fatal: " ++ message)

/-- Files and repositories as they are. -/
def scene : Work Scene := do
  let h ← get
  return ⟨h.files, h.depot⟩

/-- Replaces the files. -/
def setTop (top : Node) : Work Unit :=
  modify fun h => { h with files := { h.files with top } }

/-- Keeps a repository. -/
def save (kept : Location) (r : Repository) : Work Unit :=
  modify fun h => { h with depot := h.depot.put kept r }

/-- The location of a directory. -/
def locate (dir : Path) : Work Location := do
  match (← get).files.place dir with
  | .ok place => return place.location
  | .error e => stop 1 e.message

/-- The repository around a directory. -/
def site (here : Location) : Work Site := do
  match (← scene).discover false here with
  | .found kept repo => return ⟨here, kept, repo⟩
  | .broken message => fatal message
  | .nothing => fatal ("not a git repository (or any of the parent directories): " ++ entryName)

/-- The repository around a directory, which needs a work tree. -/
def workSite (here : Location) : Work Site := do
  let s ← site here
  if s.repo.bare then fatal "this operation must be run in a work tree"
  return s

/-! ### Commits -/

/-- A value of the environment that is not empty. -/
def environmentValue? (name : String) : Work (Option String) := do
  return ((← get).lookup name).filter (· ≠ "")

/-- Who does something and when; `role` is the part that the person plays. -/
def signature (r : Repository) (role : String) : Work String := do
  let name? ← environmentValue? ("GIT_" ++ role ++ "_NAME")
  let email? ← environmentValue? ("GIT_" ++ role ++ "_EMAIL")
  let date? ← environmentValue? ("GIT_" ++ role ++ "_DATE")
  let name := (name? <|> r.setting? "user.name").getD "unknown"
  let email := (email? <|> r.setting? "user.email").getD "unknown"
  let time := (date?.bind Instant.ofText?).getD (← get).now
  return name ++ " <" ++ email ++ "> " ++ toString time.seconds ++ " +0000"

/-- A message without blanks at the ends of its lines and without blank lines at its ends and in a
row. -/
def tidy (message : String) : String :=
  let lines := (Text.lines message.toList).map (Text.dropEndWhile Text.isBlank)
  let started := lines.dropWhile (· = [])
  let runs := started.foldr
    (fun line rest => if line = [] ∧ (rest = [] ∨ rest.head? = some []) then rest else line :: rest)
    []
  String.join (runs.map fun line => String.ofList line ++ "\n")

/-- Commits a snapshot. -/
def commit (r : Repository) (snapshot : Snapshot) (parents : List ObjectId) (message : String) :
    Work ObjectId := do
  let author ← signature r "AUTHOR"
  let committer ← signature r "COMMITTER"
  let c : Commit := ⟨snapshot, parents, author, committer, message⟩
  modify fun h => { h with depot := { h.depot with history := h.depot.history.add c } }
  return c.id

/-! ### Names of commits -/

/-- Takes steps back from a commit as `~` and `^` say. -/
def stepBack (h : History) (fuel : Nat) (id : ObjectId) (cs : List Char) : Option ObjectId :=
  match fuel, cs with
  | _, [] => some id
  | 0, _ => none
  | fuel + 1, '^' :: '\x7b' :: rest => stepBack h fuel id (rest.dropWhile (· ≠ '\x7d')).tail
  | fuel + 1, c :: rest =>
    let (digits, rest) := rest.span Char.isDigit
    let n := (Instant.number? digits).getD 1
    if c = '^' then
      if n = 0 then stepBack h fuel id rest
      else ((h.parentsOf id)[n - 1]?).bind fun p => stepBack h fuel p rest
    else if c = '~' then
      ((List.range n).foldlM (fun id _ => (h.parentsOf id).head?) id).bind fun p =>
        stepBack h fuel p rest
    else none

/-- The branch that a name such as `main@{u}` asks the tracked branch of. -/
def trackingBranch? (r : Repository) (name : String) : Option String :=
  let asked := ["@\x7bupstream\x7d", "@\x7bu\x7d"].findSome? fun ending =>
    if name.endsWith ending then
      some (String.ofList (name.toList.take (name.length - ending.length)))
    else none
  asked.bind fun branch => if branch = "" ∨ branch = "HEAD" then r.currentBranch? else some branch

/-- The commit that a plain name stands for. -/
def named? (h : History) (r : Repository) (name : String) : Option ObjectId :=
  if name = "HEAD" ∨ name = "@" then r.headCommit?
  else if name = "MERGE_HEAD" then r.merging?
  else
    match trackingBranch? r name with
    | some branch => (r.trackedRef? branch).bind r.commitAt?
    | none =>
      match (r.named name).head? with
      | some full => r.commitAt? full
      | none =>
        let isDigits := 4 ≤ name.length ∧
          name.toList.all fun c => c.isDigit || ('a' ≤ c && c ≤ 'f')
        if isDigits then
          match h.abbreviated name with
          | [id] => some id
          | _ => none
        else none

/-- The commit that a name stands for, steps back included. -/
def resolve? (h : History) (r : Repository) (name : String) : Option ObjectId :=
  let (base, steps) := name.toList.span fun c => c ≠ '~' && c ≠ '^'
  (named? h r (String.ofList base)).bind fun id => stepBack h (steps.length + 1) id steps

/-- The commit that a name stands for. -/
def resolve (s : Site) (name : String) : Work (Option ObjectId) := do
  return resolve? (← get).depot.history s.repo name

/-- What is told of a name that stands for several references. -/
def warning (r : Repository) (name : String) : String :=
  if 1 < (r.named name).length then "warning: refname '" ++ name ++ "' is ambiguous.\n" else ""

end Work

end Grove.Git
