import Grove.Files.Basic
import Grove.Pattern.Glob
import Grove.Walk.Rules

/-!
# Walking directories

The files and directories below a root. Hidden entries, entries that ignore files leave out and
directories of certain names can be passed over; links are followed on request, where one that leads
nowhere or back into a directory being walked is an error. The root itself is always walked.
-/

namespace Grove

/-- How to walk. -/
structure WalkOptions where
  /-- How deep below the root entries may lie. -/
  maxDepth? : Option Nat
  /-- Whether links are followed. -/
  followLinks : Bool
  /-- Whether hidden entries count. -/
  includeHidden : Bool
  /-- Whether ignore files are obeyed. -/
  respectIgnore : Bool
  /-- Names of directories that are passed over. -/
  skip : List String
  deriving DecidableEq, Inhabited

namespace WalkOptions

/-- How a workspace is walked: nested checkouts are often ignored by the one around them, so ignore
files are not obeyed; what git and builds write is passed over by name. -/
def workspace : WalkOptions :=
  ⟨none, false, false, false, [".git", "target", "node_modules", ".idea"]⟩

/-- How sources are walked. -/
def sources : WalkOptions :=
  ⟨none, false, false, false, []⟩

end WalkOptions

namespace Walk

/-- What a walk comes across. -/
inductive Sight where
  /-- A file. -/
  | file (path : Path)
  /-- A directory. -/
  | directory (path : Path)
  /-- Something that is neither. -/
  | other (path : Path)
  /-- A link that cannot be followed. -/
  | broken (path : Path)
  deriving DecidableEq

/-- The ignore files of one directory on the way. -/
structure Level where
  /-- How many names lead to the directory from the top. -/
  depth : Nat
  /-- The rules of `.ignore`. -/
  ignoreRules : List Rule
  /-- The rules of `.gitignore`. -/
  gitRules : List Rule
  /-- The rules kept beside the repository. -/
  excludeRules : List Rule
  /-- Whether the directory is a checkout root. -/
  isCheckout : Bool

namespace Level

/-- The rules of a file in a directory; a file that cannot be read holds none. -/
def rulesAt (top : Node) (dir : Location) (names : List String) : List Rule :=
  match top.get? (dir ++ names) with
  | some (.file content _) => rulesOf content
  | _ => []

/-- The ignore files of a directory. -/
def ofDirectory (top : Node) (dir : Location) (depth : Nat) : Level :=
  ⟨depth, rulesAt top dir [".ignore"], rulesAt top dir [".gitignore"],
    rulesAt top dir [".git", "info", "exclude"], (top.get? (dir ++ [".git"])).isSome⟩

/-- The ignore files of a directory and of all that enclose it, innermost first. -/
def ofAncestors (top : Node) (dir : Location) : List Level :=
  ((List.range (dir.length + 1)).map fun n => ofDirectory top (dir.take n) n).reverse

end Level

/-- What the levels say about a path, innermost first. Rules for git count only inside a checkout
and no further out than the nearest one. -/
def judge (levels : List Level) (names : List String) (isDirectory : Bool) : Verdict :=
  let inCheckout := levels.any (·.isCheckout)
  let verdictOf (rules : List Rule) (level : Level) : Verdict :=
    verdict rules ("/".intercalate (names.drop level.depth)) isDirectory
  let upToCheckout : List Level :=
    let (inner, outer) := levels.span fun l => !l.isCheckout
    inner ++ outer.take 1
  let first (rules : Level → List Rule) (levels : List Level) : Verdict :=
    levels.foldl (fun v l => v.orElse (verdictOf (rules l) l)) .silent
  (first Level.ignoreRules levels).orElse
    (if inCheckout then
      (first Level.gitRules upToCheckout).orElse (first Level.excludeRules upToCheckout)
    else .silent)

/-- Whether an entry is passed over. -/
def passedOver (options : WalkOptions) (levels : List Level) (names : List String) (name : String)
    (isDirectory : Bool) : Bool :=
  let verdict := if options.respectIgnore then judge levels names isDirectory else .silent
  let hidden := name.toList.head? = some '.'
  verdict = .ignored || (verdict = .silent && !options.includeHidden && hidden) ||
    (isDirectory && name ∈ options.skip)

/-- What an entry is once links are followed as far as they should be: its location and node, unless
it is a link that leads nowhere or back. -/
def resolve (files : Files) (options : WalkOptions) (chain : List Location) (dir : Location)
    (name : String) (node : Node) : Option (Location × Node) :=
  match node with
  | .link _ =>
    if options.followLinks then
      match Files.follow files.top true Files.maxLinks dir [name] with
      | .error _ => none
      | .ok place =>
        match files.top.get? place.location with
        | none => none
        | some n => if n.isDirectory && chain.contains place.location then none else some (place.location, n)
    else some (dir ++ [name], node)
  | _ => some (dir ++ [name], node)

/-- Walks the entries of a directory, at most `reach` directories deep. `chain` holds the locations
of the directories being walked, innermost first, and `names` the names that lead to this one. -/
def below (files : Files) (options : WalkOptions) (reach depth : Nat) (chain : List Location)
    (levels : List Level) (names : List String) (path : Path) : List Sight :=
  match reach, chain with
  | 0, _ => []
  | _, [] => []
  | reach + 1, dir :: outer =>
    if options.maxDepth?.any (· ≤ depth) then []
    else
      let entries := ((files.top.get? dir).map Node.entries).getD []
      entries.flatMap fun (name, node) =>
        let path := path.child name
        let names := names ++ [name]
        match resolve files options (dir :: outer) dir name node with
        | none => [.broken path]
        | some (loc, node) =>
          if passedOver options levels names name node.isDirectory then []
          else
            match node with
            | .file .. => [.file path]
            | .link _ => [.other path]
            | .directory _ =>
              let levels :=
                if options.respectIgnore then
                  Level.ofDirectory files.top loc names.length :: levels
                else levels
              .directory path ::
                below files options reach (depth + 1) (loc :: dir :: outer) levels names path

/-- Everything a walk comes across, the root first. -/
def sights (files : Files) (options : WalkOptions) (root : Path) : Except Failure (List Sight) :=
  match files.place root with
  | .error _ => .error missing
  | .ok place =>
    match files.top.get? place.location with
    | none => .error missing
    | some (.directory _) =>
      let levels :=
        if options.respectIgnore then Level.ofAncestors files.top place.location else []
      .ok (.directory root ::
        below files options (files.top.descendants.length + 1) 0 [place.location] levels
          place.location root)
    | some _ => .ok [.file root]
where
  /-- There is nothing to walk. -/
  missing : Failure :=
    .bare (.plain ("root directory does not exist: " ++ root.shown))

/-- The files among the sights. -/
def filesOf (sights : List Sight) : List Path :=
  sights.filterMap fun
    | .file p => some p
    | _ => none

/-- The directories among the sights. -/
def directoriesOf (sights : List Sight) : List Path :=
  sights.filterMap fun
    | .directory p => some p
    | _ => none

/-- How many links could not be followed. -/
def brokenCount (sights : List Sight) : Nat :=
  sights.countP fun
    | .broken _ => true
    | _ => false

/-- The files below a root in path order, those whose path below the root matches the glob if one is
given. -/
def sortedFiles (files : Files) (options : WalkOptions) (root : Path) (glob? : Option String) :
    Except Failure (List Path) := do
  let sights ← sights files options root
  let found := filesOf sights
  let kept ←
    match glob? with
    | none => Except.ok found
    | some glob =>
      match Pattern.Glob.compile? glob with
      | none => .error (.bare (.pattern ("invalid glob pattern '" ++ glob ++ "'")))
      | some pattern =>
        .ok (found.filter fun p =>
          match p.stripStart? root with
          | some relative => pattern.accepts relative.shown.toList
          | none => false)
  return kept.mergeSort Path.le

end Walk

end Grove
