import Grove.Git.Transfer

/-!
# Git commands

A git command is a list of words, read and carried out in a directory of a host. What it prints, what
it prints about errors and its code are its reply.
-/

namespace Grove.Git

/-- The words of a command sorted into flags, options with a value and other words. -/
structure Words where
  /-- The flags. -/
  flags : List String
  /-- The options with their values. -/
  options : List (String × String)
  /-- The other words. -/
  plain : List String

namespace Words

/-- No words. -/
def none : Words :=
  ⟨[], [], []⟩

/-- Reads the words; those in `valued` take the next word for their value. -/
def read (valued : List String) : List String → Words
  | [] => none
  | "--" :: rest => { none with flags := ["--"], plain := rest }
  | [w] => if w.startsWith "-" then { none with flags := [w] } else { none with plain := [w] }
  | w :: v :: rest =>
    if valued.contains w then
      let x := read valued rest
      { x with options := (w, v) :: x.options }
    else
      let x := read valued (v :: rest)
      if w.startsWith "-" ∧ w ≠ "-" then { x with flags := w :: x.flags }
      else { x with plain := w :: x.plain }

/-- Whether one of some flags is given. -/
def has (x : Words) (names : List String) : Bool :=
  names.any x.flags.contains

/-- The value of an option, the first one given under one of some names. -/
def value? (x : Words) (names : List String) : Option String :=
  (x.options.find? fun (name, _) => names.contains name).map (·.2)

/-- The values of an option. -/
def values (x : Words) (name : String) : List String :=
  (x.options.filter (·.1 = name)).map (·.2)

/-- What follows the start of a flag. -/
def after? (x : Words) (start : String) : Option String :=
  x.flags.findSome? fun flag => (Text.dropStart? start.toList flag.toList).map String.ofList

end Words

namespace Work

/-- Lines as output. -/
def linesOut (lines : List String) : String :=
  String.join (lines.map (· ++ "\n"))

/-- The text that a format stands for; `value?` tells what a field in round brackets and what a
single letter stands for. -/
def formatted (field letter : String → Option String) : List Char → String
  | [] => ""
  | '%' :: '(' :: rest =>
    let name := String.ofList (rest.takeWhile (· ≠ ')'))
    (field name).getD "" ++ formatted field letter (rest.dropWhile (· ≠ ')')).tail
  | '%' :: c :: d :: rest =>
    match letter (String.ofList [c, d]) with
    | some text => text ++ formatted field letter rest
    | none =>
      match letter (String.ofList [c]) with
      | some text => text ++ formatted field letter (d :: rest)
      | none => "%" ++ formatted field letter (c :: d :: rest)
  | ['%', c] => (letter (String.ofList [c])).getD (String.ofList ['%', c])
  | c :: rest => String.ofList [c] ++ formatted field letter rest
termination_by cs => cs.length
decreasing_by
  · have h : (rest.dropWhile (· ≠ ')')).length ≤ rest.length := (List.dropWhile_sublist _).length_le
    rw [List.length_tail]
    simp only [List.length_cons]
    omega
  all_goals
    simp only [List.length_cons]
    omega

/-- A reference under a format. -/
def formatRef (r : Repository) (format name : String) : String :=
  let field (key : String) : Option String :=
    match key with
    | "refname" => some name
    | "refname:short" => some (r.shortened true name)
    | "objectname" => r.commitAt? name
    | "objectname:short" => (r.commitAt? name).map short
    | "upstream" => (Text.dropStart? "refs/heads/".toList name.toList).bind fun b =>
        r.trackedRef? (String.ofList b)
    | "upstream:short" => (Text.dropStart? "refs/heads/".toList name.toList).bind fun b =>
        (r.trackedRef? (String.ofList b)).map (r.shortened true)
    | _ => none
  formatted field (fun _ => none) format.toList

/-- A commit under a format. -/
def formatCommit (id : ObjectId) (c : Commit) (format : String) : String :=
  let person (signature : String) (mail : Bool) : String :=
    let (name, rest) := signature.toList.span (· ≠ '<')
    if mail then String.ofList (rest.tail.takeWhile (· ≠ '>'))
    else Text.stripped (String.ofList name)
  let letter (key : String) : Option String :=
    match key with
    | "H" => some id
    | "h" => some (short id)
    | "T" => some c.snapshot.id
    | "P" => some (" ".intercalate c.parents)
    | "p" => some (" ".intercalate (c.parents.map short))
    | "s" => some c.subject
    | "B" => some c.message
    | "b" => some (String.ofList ((Text.cut "\n\n".toList c.message.toList).elim [] (·.2)))
    | "an" => some (person c.author false)
    | "ae" => some (person c.author true)
    | "cn" => some (person c.committer false)
    | "ce" => some (person c.committer true)
    | "n" => some "\n"
    | "%" => some "%"
    | _ => none
  formatted (fun _ => none) letter format.toList

/-- Whether a name fits a pattern in which a star stands for anything. -/
def fits : List Char → List Char → Bool
  | [], name => name.isEmpty
  | '*' :: pattern, name => fits pattern name || match name with
    | [] => false
    | _ :: rest => fits ('*' :: pattern) rest
  | c :: pattern, name => match name with
    | [] => false
    | d :: rest => (c = d || c = '?') && fits pattern rest
termination_by pattern name => pattern.length + name.length

/-- The names that fit one of some patterns, all if there is no pattern. -/
def fitting (patterns names : List String) : List String :=
  if patterns = [] then names
  else names.filter fun name => patterns.any fun p => fits p.toList name.toList

/-! ### Commands by name -/

/-- Makes a repository. -/
def runInit (here : Location) (words : List String) : Work String := do
  let x := Words.read ["-b", "--initial-branch"] words
  let branch := ((x.value? ["-b", "--initial-branch"]) <|> x.after? "--initial-branch=").getD "master"
  match x.plain with
  | [] => makeRepository here (x.has ["--bare"]) branch
  | dir :: _ =>
    let target := (Files.pathOf here).join (.ofString dir)
    match (← get).files.createDirectories target with
    | .error e => fatal e.message
    | .ok files =>
      setTop files.top
      makeRepository (← locate target) (x.has ["--bare"]) branch
  return ""

/-- The path of a word below the top of the work tree. -/
def pathBelow (s : Site) (word : String) : String :=
  let inner := s.here.drop s.repo.home.length
  let names := (inner ++ word.splitOn "/").filter fun n => n ≠ "." ∧ n ≠ ""
  "/".intercalate (names.foldl (fun done n => if n = ".." then done.dropLast else done ++ [n]) [])

/-- The paths that some words stand for: themselves and all below them. -/
def wantedBy (s : Site) (words : List String) (path : String) : Bool :=
  words.any fun w =>
    let p := pathBelow s w
    p = "" || p = path || Snapshot.isBelow p path

/-- Stages changes. -/
def runAdd (s : Site) (words : List String) : Work String := do
  let x := Words.read [] words
  if x.plain = [] then
    if x.has ["-A", "--all"] then let _ ← stage s true true fun _ => true
    else if x.has ["-u", "--update"] then let _ ← stage s true false fun _ => true
  else
    let found ← stage s true (!x.has ["-u", "--update"]) (wantedBy s x.plain)
    let _ := found
  return ""

/-- Commits. -/
def runCommit (s : Site) (words : List String) : Work String := do
  let x := Words.read ["-m", "--message", "-am"] words
  let messages := x.values "-m" ++ x.values "--message" ++ x.values "-am" ++
    (x.after? "--message=").toList
  let s ← if x.has ["-a", "--all"] || (x.value? ["-am"]).isSome then stage s true false fun _ => true
    else pure s
  let h := (← get).depot.history
  if x.has ["--amend"] then
    match s.repo.headCommit?.bind fun id => h.find? id with
    | none => fatal "You have nothing to amend."
    | some old =>
      let message := if messages = [] then old.message else "\n\n".intercalate messages
      let id ← commit s.repo s.repo.index old.parents (tidy message)
      save s.kept (s.repo.advance id)
  else
    let message :=
      if messages = [] ∧ s.repo.merging?.isSome then
        match s.repo.merging? with
        | some id => mergeTitle s.repo ((s.repo.branchNames.find? fun b =>
            s.repo.commitAt? (Repository.branchRef b) = some id).getD id)
        | none => ""
      else "\n\n".intercalate messages
    commitStaged s message (x.has ["--allow-empty"])
  return ""

/-- Checks out. -/
def runCheckout (s : Site) (words : List String) : Work String := do
  let x := Words.read ["-b", "-c", "-B", "--create"] words
  match x.value? ["-b", "-c", "--create"] with
  | some name => createBranch s name x.plain.head? (x.has ["--track", "-t"])
  | none =>
    if x.has ["--detach", "-d"] then detach s (x.plain.headD "HEAD")
    else if x.has ["--"] then restore s (wantedBy s x.plain)
    else
      match x.plain with
      | [] => pure ()
      | [name] =>
        if x.has ["--track", "-t"] then
          match (Text.cut ['/'] name.toList).map fun (_, rest) => String.ofList rest with
          | some branch => createBranch s branch (some name) true
          | none => fatal ("missing branch name; try -b")
        else switchTo s name
      | _ :: paths => restore s (wantedBy s paths)
  return ""

/-- Merges. -/
def runMerge (s : Site) (words : List String) : Work String := do
  let x := Words.read ["-m"] words
  if x.has ["--abort"] then abortMerge s
  else
    match x.plain with
    | [name] => merge s name (!x.has ["--no-ff"]) (x.value? ["-m"])
    | _ => fatal "No remote for the current branch."
  return ""

/-- Shows, makes or removes tags. -/
def runTag (s : Site) (words : List String) : Work String := do
  let x := Words.read ["-m"] words
  if x.has ["-d", "--delete"] then
    match x.plain with
    | [name] => deleteTag s name
    | _ => return ""
  else
    match x.plain, x.has ["-l", "--list"] with
    | name :: rest, false => addTag s name (rest.headD "HEAD") (x.has ["-f", "--force"])
    | patterns, _ => return linesOut (fitting patterns s.repo.tagNames)

/-- Shows, makes or removes branches. -/
def runBranch (s : Site) (words : List String) : Work String := do
  let x := Words.read ["--format", "-u"] words
  let r := s.repo
  let force := x.has ["-D"] || x.has ["-f", "--force"]
  if x.has ["--show-current"] then return linesOut r.currentBranch?.toList
  else if x.has ["-d", "-D", "--delete"] then
    match x.plain with
    | name :: _ =>
      let told ← deleteBranch s name force
      return if x.has ["-q", "--quiet"] then "" else told
    | [] => fatal "branch name required"
  else
    match x.plain, x.has ["-l", "--list", "-a", "-r"] || (x.after? "--format=").isSome with
    | name :: rest, false =>
      addBranch s name (rest.headD "HEAD")
      return ""
    | patterns, _ =>
      let locals := (fitting patterns r.branchNames).map Repository.branchRef
      let remotes := (fitting patterns (r.namesUnder "refs/remotes/")).map ("refs/remotes/" ++ ·)
      let format? := (x.after? "--format=") <|> x.value? ["--format"]
      let apart := match r.head with
        | .branch _ => []
        | .detached .. =>
          if x.has ["-r"] then [] else ["(" ++ StatusText.headLine r.head ++ ")"]
      match format? with
      | some format =>
        let refs := if x.has ["-r"] then remotes else if x.has ["-a"] then locals ++ remotes
          else locals
        return linesOut ((apart ++ refs).map (formatRef r format))
      | none =>
        let shown (ref start : String) : String :=
          let name := String.ofList ((Text.dropStart? start.toList ref.toList).getD ref.toList)
          let mark := if r.currentBranch?.map Repository.branchRef = some ref then "* " else "  "
          mark ++ name ++ match r.ref? ref with
            | some (.symbolic other) => " -> " ++
                String.ofList ((Text.dropStart? "refs/remotes/".toList other.toList).getD [])
            | _ => ""
        return linesOut (apart.map ("* " ++ ·) ++
          (if x.has ["-r"] then [] else locals.map fun ref => shown ref "refs/heads/") ++
            if x.has ["-r"] then remotes.map fun ref => shown ref "refs/remotes/"
            else if x.has ["-a"] then remotes.map fun ref => shown ref "refs/"
            else [])

/-- Pushes. -/
def runPush (s : Site) (words : List String) : Work String := do
  let x := Words.read [] words
  match x.plain with
  | [] => push s
  | [remote] =>
    match s.repo.currentBranch? with
    | some branch => send s remote branch (Repository.branchRef branch) (x.has ["-u", "--set-upstream"])
    | none => push s
  | remote :: specs =>
    for spec in specs do
      let (source, target) := match Text.cut [':'] spec.toList with
        | some (a, b) => (String.ofList a, String.ofList b)
        | none => (spec, spec)
      let source := if source = "HEAD" then s.repo.currentBranch?.getD source else source
      let target := if target = "HEAD" then source else target
      match (← scene).depot.repository? s.kept with
      | some repo =>
        send { s with repo } remote source (Repository.branchRef target)
          (x.has ["-u", "--set-upstream"])
      | none => pure ()
  return ""

/-- Shows the status. -/
def runStatus (s : Site) (words : List String) : Work String := do
  let x := Words.read [] words
  let scene ← scene
  let status := scene.fullStatus s.repo
  if x.has ["--porcelain", "-s", "--short"] then return linesOut status.lines
  else return StatusText.text scene.depot.history s.repo status false

/-- Shows or sets what is checked out by name. -/
def runSymbolicRef (s : Site) (words : List String) : Work String := do
  let x := Words.read [] words
  let shown (ref : String) : String :=
    if x.has ["--short"] then s.repo.shortened false ref else ref
  match x.plain with
  | [name] =>
    if name = "HEAD" then
      match s.repo.currentBranch? with
      | some branch => return linesOut [shown (Repository.branchRef branch)]
      | none =>
        if x.has ["-q", "--quiet"] then stop 1 "" else fatal "ref HEAD is not a symbolic ref"
    else
      match s.repo.ref? name with
      | some (.symbolic other) => return linesOut [shown other]
      | _ =>
        if x.has ["-q", "--quiet"] then stop 1 ""
        else fatal ("ref " ++ name ++ " is not a symbolic ref")
  | [name, target] =>
    if name = "HEAD" then
      match Text.dropStart? "refs/heads/".toList target.toList with
      | some branch => save s.kept { s.repo with head := .branch (String.ofList branch) }
      | none => pure ()
    else save s.kept (s.repo.setRef name (.symbolic target))
    return ""
  | _ => return ""

/-- Lists references. -/
def runForEachRef (s : Site) (words : List String) : Work String := do
  let x := Words.read ["--format"] words
  let format := ((x.after? "--format=") <|> x.value? ["--format"]).getD
    "%(objectname) commit\t%(refname)"
  let refs := s.repo.refs.filterMap fun (name, _) =>
    let isWanted := x.plain = [] || x.plain.any fun p =>
      p = name || Snapshot.isBelow (String.ofList (Text.dropEndWhile (· = '/') p.toList)) name ||
        fits p.toList name.toList
    if isWanted && (s.repo.commitAt? name).isSome then some name else none
  return linesOut (refs.map (formatRef s.repo format))

/-- Sets or removes a reference. -/
def runUpdateRef (s : Site) (words : List String) : Work String := do
  let x := Words.read ["-m"] words
  match x.plain with
  | name :: rest =>
    if x.has ["-d"] then save s.kept (s.repo.dropRef name)
    else
      match rest with
      | value :: _ =>
        match ← resolve s value with
        | some id =>
          if name = "HEAD" then save s.kept (s.repo.advance id)
          else
            let target := match s.repo.ref? name with
              | some (.symbolic other) => other
              | _ => name
            save s.kept (s.repo.setRef target (.commit id))
        | none => fatal (value ++ ": not a valid SHA1")
      | [] => pure ()
    return ""
  | [] => return ""

/-- Answers questions about names. -/
def runRevParse (s : Site) (words : List String) : Work String := do
  let x := Words.read [] words
  if x.has ["--show-toplevel"] then return linesOut [(Files.pathOf s.repo.home).text]
  let unknown (name : String) : Work String :=
    throw ⟨name ++ "\n", "fatal: ambiguous argument '" ++ name ++
      "': unknown revision or path not in the working tree.\n" ++
      "Use '--' to separate paths from revisions, like this:\n" ++
      "'git <command> [<revision>...] -- [<file>...]'", 128⟩
  let one (name : String) : Work String := do
    match ← resolve s name with
    | none =>
      match trackingBranch? s.repo name with
      | some branch => fatal ("no upstream configured for branch '" ++ branch ++ "'")
      | none => if x.has ["--verify"] then fatal "Needed a single revision" else unknown name
    | some id =>
      if x.has ["--abbrev-ref"] then
        let full := if name = "HEAD" then s.repo.currentBranch?.map Repository.branchRef
          else match trackingBranch? s.repo name with
            | some branch => s.repo.trackedRef? branch
            | none => (s.repo.named name).head?
        return (full.map (s.repo.shortened true)).getD (if name = "HEAD" then name else "")
      else return if x.has ["--short"] then short id else id
  return linesOut (← x.plain.mapM one)

/-- Lists commits. -/
def runLog (s : Site) (words : List String) : Work String := do
  let x := Words.read ["-n", "--format", "--pretty"] words
  let count? := (x.value? ["-n"] <|> x.flags.findSome? fun flag =>
    match flag.toList with
    | '-' :: 'n' :: digits => some (String.ofList digits)
    | '-' :: digits => if digits.all Char.isDigit then some (String.ofList digits) else none
    | _ => none).bind fun n => Instant.number? n.toList
  let format := (x.after? "--format=" <|> x.after? "--pretty=format:" <|> x.after? "--pretty=" <|>
    x.value? ["--format", "--pretty"]).getD (if x.has ["--oneline"] then "%h %s" else "%H")
  let h := (← get).depot.history
  match ← resolve s (x.plain.headD "HEAD") with
  | none =>
    if x.plain = [] then
      fatal ("your current branch '" ++ s.repo.currentBranch?.getD "" ++
        "' does not have any commits yet")
    else fatal ("ambiguous argument '" ++ x.plain.headD "" ++ "': unknown revision or path")
  | some id =>
    let ids := h.ancestors id
    let ids := count?.elim ids ids.take
    return linesOut (ids.filterMap fun id => (h.find? id).map fun c => formatCommit id c format)

/-- Counts commits. -/
def runRevList (s : Site) (words : List String) : Work String := do
  let x := Words.read [] words
  let h := (← get).depot.history
  match ← resolve s (x.plain.headD "HEAD") with
  | none => fatal ("bad revision '" ++ x.plain.headD "" ++ "'")
  | some id =>
    let ids := h.ancestors id
    return linesOut (if x.has ["--count"] then [toString ids.length] else ids)

/-- Shows or changes the configuration. -/
def runConfig (s : Site) (words : List String) : Work String := do
  let x := Words.read [] words
  match x.plain with
  | [key] =>
    match s.repo.setting? key.toLower with
    | some value => return linesOut [value]
    | none => stop 1 ""
  | [key, value] =>
    save s.kept (s.repo.configure key value)
    return ""
  | _ => return ""

/-- Shows or adds remotes. -/
def runRemote (s : Site) (words : List String) : Work String := do
  match words with
  | ["add", name, url] =>
    addRemote s name url
    return ""
  | ["get-url", name] =>
    match s.repo.remoteUrl? name with
    | some url => return linesOut [url]
    | none => stop 2 ("error: No such remote '" ++ name ++ "'")
  | [] => return linesOut s.repo.remotes
  | _ => return ""

/-- Fetches. -/
def runFetch (s : Site) (words : List String) : Work String := do
  let x := Words.read [] words
  let remotes := if x.has ["--all"] then s.repo.remotes
    else match x.plain with
      | [] => [((s.repo.currentBranch?.bind s.repo.tracked?).map (·.1)).getD Branch.defaultRemote]
      | name :: _ => [name]
  for remote in remotes do
    match (← scene).depot.repository? s.kept with
    | some repo => fetch { s with repo } remote
    | none => pure ()
  return ""

/-- Moves the branch to another commit. -/
def runReset (s : Site) (words : List String) : Work String := do
  let x := Words.read [] words
  reset s (← resolve s (x.plain.headD "HEAD")) (!x.has ["--soft"]) (x.has ["--hard"])
  return ""

/-- Removes files from what is staged and from the work tree. -/
def runRemove (s : Site) (words : List String) : Work String := do
  let x := Words.read [] words
  let gone := s.repo.index.paths.filter (wantedBy s x.plain)
  if gone = [] then
    fatal ("pathspec '" ++ x.plain.headD "" ++ "' did not match any files")
  unless x.has ["--cached"] do
    let scene ← scene
    setTop (gone.foldl (fun top path => Scene.place top s.repo.home path none) scene.files.top)
  save s.kept { s.repo with index := s.repo.index.filter fun (path, _) => !gone.contains path }
  return if x.has ["-q", "--quiet"] then "" else linesOut (gone.map fun path => "rm '" ++ path ++ "'")

/-- Carries out a command in a repository, if there is one of the name. -/
def runInside? (here : Location) (name : String) : Option (List String → Work String) :=
  let tree (run : Site → List String → Work String) : List String → Work String := fun words => do
    run (← workSite here) words
  let any (run : Site → List String → Work String) : List String → Work String := fun words => do
    run (← site here) words
  match name with
  | "add" => some (tree runAdd)
  | "commit" => some (tree runCommit)
  | "checkout" => some (tree runCheckout)
  | "switch" => some (tree runCheckout)
  | "merge" => some (tree runMerge)
  | "status" => some (tree runStatus)
  | "rm" => some (tree runRemove)
  | "reset" => some (tree runReset)
  | "ls-files" => some (any fun s _ => return linesOut s.repo.index.paths)
  | "tag" => some (any runTag)
  | "branch" => some (any runBranch)
  | "push" => some (any runPush)
  | "fetch" => some (any runFetch)
  | "symbolic-ref" => some (any runSymbolicRef)
  | "for-each-ref" => some (any runForEachRef)
  | "update-ref" => some (any runUpdateRef)
  | "rev-parse" => some (any runRevParse)
  | "rev-list" => some (any runRevList)
  | "log" => some (any runLog)
  | "config" => some (any runConfig)
  | "remote" => some (any runRemote)
  | "pack-refs" => some (any fun _ _ => return "")
  | "gc" => some (any fun _ _ => return "")
  | _ => none

/-- Carries out a command; `settings` are the values set for it alone. -/
def dispatch (here : Location) (settings : List String) : List String → Work String
  | "init" :: words => runInit here words
  | "clone" :: words => do
    let x := Words.read ["-b", "--branch", "-o"] words
    match x.plain with
    | url :: rest =>
      clone here url rest.head? (x.has ["--bare"])
      return ""
    | [] => fatal "You must specify a repository to clone."
  | "submodule" :: "add" :: words => do
    let x := Words.read ["-b"] words
    if !settings.contains "protocol.file.allow=always" then fatal "transport 'file' not allowed"
    match x.plain with
    | url :: rest =>
      addSubmodule (← workSite here) url (rest.headD (cloneName url))
      return ""
    | [] => return ""
  | name :: words =>
    match runInside? here name with
    | some run => run words
    | none => stop 1 ("git: '" ++ name ++ "' is not a git command. See 'git --help'.")
  | [] => stop 1 ""

/-- The settings that stand before the name of a command, and the command. -/
def leadingSettings : List String → List String × List String
  | "-c" :: setting :: rest =>
    let (settings, words) := leadingSettings rest
    (setting :: settings, words)
  | words => ([], words)

end Work

/-- Carries out a git command in a directory of a host; none when it cannot start there. -/
def command (dir : Path) (words : List String) (h : Host) : Except OsError Reply × Host :=
  match h.files.enter dir with
  | .error e => (.error e, h)
  | .ok files =>
    let (settings, words) := Work.leadingSettings words
    match Work.dispatch files.here settings words h with
    | .ok output h => (.ok (.ok output), h)
    | .error reply h => (.ok reply, h)

end Grove.Git
