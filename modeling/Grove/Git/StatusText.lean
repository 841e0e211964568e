import Grove.Git.Work

/-!
# The status in words

What git tells when it is asked how a work tree stands, or when there is nothing to commit: the
branch and how it relates to the one it comes from, what is staged, what is not, what is untracked,
and a closing line when nothing is staged.
-/

namespace Grove.Git

namespace StatusText

/-- A count with a noun in the right number. -/
def counted (n : Nat) (noun : String) : String :=
  toString n ++ " " ++ noun ++ if n = 1 then "" else "s"

/-- What is checked out. -/
def headLine : Head → String
  | .branch name => "On branch " ++ name
  | .detached id label start =>
    (if id = start then "HEAD detached at " else "HEAD detached from ") ++ label

/-- How the branch relates to the one it comes from. -/
def trackingLines (h : History) (r : Repository) : List String :=
  match r.currentBranch?.bind r.trackedRef?, r.headCommit? with
  | some ref, some head =>
    let name := r.shortened false ref
    match r.commitAt? ref with
    | none =>
      ["Your branch is based on '" ++ name ++ "', but the upstream is gone.",
        "  (use \"git branch --unset-upstream\" to fixup)", ""]
    | some other =>
      let ours := h.ahead head other
      let theirs := h.ahead other head
      if ours = 0 ∧ theirs = 0 then ["Your branch is up to date with '" ++ name ++ "'.", ""]
      else if theirs = 0 then
        ["Your branch is ahead of '" ++ name ++ "' by " ++ counted ours "commit" ++ ".",
          "  (use \"git push\" to publish your local commits)", ""]
      else if ours = 0 then
        ["Your branch is behind '" ++ name ++ "' by " ++ counted theirs "commit" ++
            ", and can be fast-forwarded.",
          "  (use \"git pull\" to update your local branch)", ""]
      else
        ["Your branch and '" ++ name ++ "' have diverged,",
          "and have " ++ toString ours ++ " and " ++ toString theirs ++
            " different commits each, respectively.",
          "  (use \"git pull\" to merge the remote branch into yours)", ""]
  | _, _ => []

/-- What is told of a merge that is not concluded. -/
def mergeLines (r : Repository) (s : Status) : List String :=
  if r.merging?.isNone then []
  else if s.unmerged.isEmpty then
    ["All conflicts fixed but you are still merging.", "  (use \"git commit\" to conclude merge)", ""]
  else
    ["You have unmerged paths.", "  (fix conflicts and run \"git commit\")",
      "  (use \"git merge --abort\" to abort the merge)", ""]

/-- A section with a heading, hints and indented entries; nothing without entries. -/
def section_ (heading : String) (hints entries : List String) : List String :=
  if entries.isEmpty then []
  else heading :: hints.map ("  " ++ ·) ++ entries.map ("\t" ++ ·) ++ [""]

/-- What is staged. -/
def stagedLines (initial : Bool) (s : Status) : List String :=
  let hint := if initial then "(use \"git rm --cached <file>...\" to unstage)"
    else "(use \"git restore --staged <file>...\" to unstage)"
  section_ "Changes to be committed:" [hint] (s.staged.map fun (path, d) => d.label ++ path)

/-- The state of a path that is not settled, in words. -/
def openLabel (letters : String) : String :=
  match letters with
  | "AA" => "both added:      "
  | "DU" => "deleted by us:   "
  | "UD" => "deleted by them: "
  | _ => "both modified:   "

/-- What a merge left open. -/
def unmergedLines (s : Status) : List String :=
  let hint := if s.unmerged.any fun (_, letters) => letters = "DU" || letters = "UD" then
      "(use \"git add/rm <file>...\" as appropriate to mark resolution)"
    else "(use \"git add <file>...\" to mark resolution)"
  section_ "Unmerged paths:" [hint] (s.unmerged.map fun (path, letters) => openLabel letters ++ path)

/-- What is not staged. -/
def unstagedLines (s : Status) : List String :=
  let command := if s.unstaged.any fun (_, d, _) => d = .deleted then "git add/rm" else "git add"
  let isDirtyInside (notes : List String) : Bool :=
    notes.contains "modified content" || notes.contains "untracked content"
  let hints := ["(use \"" ++ command ++ " <file>...\" to update what will be committed)",
    "(use \"git restore <file>...\" to discard changes in working directory)"] ++
    if s.unstaged.any fun (_, _, notes) => isDirtyInside notes then
      ["(commit or discard the untracked or modified content in submodules)"] else []
  section_ "Changes not staged for commit:" hints (s.unstaged.map fun (path, d, notes) =>
    d.label ++ path ++ if notes = [] then "" else " (" ++ ", ".intercalate notes ++ ")")

/-- What is not tracked. -/
def untrackedLines (s : Status) : List String :=
  section_ "Untracked files:"
    ["(use \"git add <file>...\" to include in what will be committed)"] s.untracked

/-- The last line, when nothing is staged. -/
def closingLines (initial : Bool) (s : Status) : List String :=
  if !s.staged.isEmpty then []
  else if !s.unstaged.isEmpty || !s.unmerged.isEmpty then
    ["no changes added to commit (use \"git add\" and/or \"git commit -a\")"]
  else if !s.untracked.isEmpty then
    ["nothing added to commit but untracked files present (use \"git add\" to track)"]
  else if initial then ["nothing to commit (create/copy files and use \"git add\" to track)"]
  else ["nothing to commit, working tree clean"]

/-- The whole text. A repository without commits says so, in other words when a commit was tried. -/
def text (h : History) (r : Repository) (s : Status) (committing : Bool) : String :=
  let initial := r.headCommit?.isNone
  let tracking := if initial then [] else trackingLines h r
  let first := if initial then ["", if committing then "Initial commit" else "No commits yet", ""]
    else []
  "\n".intercalate ([headLine r.head] ++ tracking ++ mergeLines r s ++ first ++
    stagedLines initial s ++ unmergedLines s ++ unstagedLines s ++ untrackedLines s ++
    closingLines initial s) ++ "\n"

end StatusText

end Grove.Git
