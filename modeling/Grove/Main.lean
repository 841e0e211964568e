import Grove.Commands.Run
import Grove.Git.Stored
import Grove.Log.Level
import Grove.Program.Launch

/-!
# The program

Carries out a command line on the files below the current directory: they are read, the run changes
them in memory, and those that changed are written back. Of a repository's own directory the texts
are read that tell its references; the commits stay out of reach (`Git.references`). Programs are
scripts among the files that were read.
-/

namespace Grove.Main

/-- A directory's repositories, by the location of their own directory. -/
abbrev Found := List (Location × Git.Repository)

/-- The path of a location on the disk. -/
def diskPath (loc : Location) : String :=
  (Files.pathOf loc).text

/-- The text of a file, empty if there is none. -/
def textAt (path : String) : IO String := do
  try IO.FS.readFile path catch _ => return ""

/-- The names of the entries of a directory. -/
def namesAt (path : String) : IO (List String) := do
  try return (← (← IO.FS.realPath path).readDir).toList.map (·.fileName) catch _ => return []

/-- The names and texts of the references below a directory that have files of their own. -/
partial def looseReferences (path name : String) : IO (List (String × String)) := do
  match ← namesAt path with
  | [] => return [(name, ← textAt path)].filter (·.2 ≠ "")
  | names =>
    return (← names.mapM fun entry => looseReferences (path ++ "/" ++ entry) (name ++ "/" ++ entry)).flatten

/-- The repository whose own directory is at a location. -/
def readRepository (loc home : Location) : IO Git.Repository := do
  let at_ (name : String) := diskPath (loc ++ [name])
  return .ofTexts home (← textAt (at_ Git.headFile)) (← textAt (at_ "packed-refs"))
    (← looseReferences (at_ "refs") "refs")

/-- Reads the repositories below a directory for the submodules of a work tree. -/
partial def readModules (loc home : Location) : StateT Found IO Node := do
  let entries ← (← namesAt (diskPath loc)).mapM fun name => do
    let inner := loc ++ [name]
    let text ← textAt (diskPath (inner ++ [Git.headFile]))
    if text = "" then return (name, ← readModules inner (home ++ [name]))
    let repository ← readRepository inner (home ++ [name])
    modify fun found => (inner, repository) :: found
    return (name, Node.emptyDirectory.put [Git.headFile] (.ofText text))
  return entries.foldl (fun node (name, entry) => node.put [name] entry) .emptyDirectory

/-- Reads a repository's own directory: what is checked out and the repositories of submodules. -/
def readOwnDirectory (home : Location) : StateT Found IO Node := do
  let loc := home ++ [Git.entryName]
  let repository ← readRepository loc home
  modify fun found => (loc, repository) :: found
  let node := Node.emptyDirectory.put [Git.headFile]
    (.ofText (← textAt (diskPath (loc ++ [Git.headFile]))))
  return node.put ["modules"] (← readModules (loc ++ ["modules"]) home)

/-- Reads a node of the disk. A file counts as a program if it starts like a script. -/
partial def readNode (loc : Location) : StateT Found IO (Option Node) := do
  let path := diskPath loc
  let real ← (try return some (← IO.FS.realPath path) catch _ => return none : IO _)
  match real with
  | none => return none
  | some real =>
    if real.toString ≠ path then return some (.link (.ofString real.toString))
    if ← real.isDir then
      let entries ← (← namesAt path).mapM fun (name : String) => do
        if name = Git.entryName && (← (real / (name : String)).isDir) then
          return (name, some (← readOwnDirectory loc))
        else return (name, ← readNode (loc ++ [name]))
      return some (entries.foldl
        (fun node (name, entry?) => entry?.elim node fun entry => node.put [name] entry)
        .emptyDirectory)
    else
      try
        let content ← IO.FS.readBinFile path
        return some (.file content (Shell.interpreter? content).isSome)
      catch _ => return none

/-- Brings what lies at a location of the disk from one state to another. -/
partial def writeNode (loc : Location) (old? new? : Option Node) : IO Unit := do
  let path := diskPath loc
  match old?, new? with
  | none, none => return
  | some (.directory _), none => IO.FS.removeDirAll path
  | some _, none => IO.FS.removeFile path
  | _, some (.link _) => return
  | some (.file old _), some (.file new executable) =>
    if old ≠ new then write path new executable
  | _, some (.file new executable) =>
    writeNode loc old? none
    write path new executable
  | some (.directory old), some (.directory new) =>
    for (name, _) in old do
      if (new.lookup name).isNone then writeNode (loc ++ [name]) (old.lookup name) none
    for (name, node) in new do
      writeNode (loc ++ [name]) (old.lookup name) (some node)
  | _, some (.directory new) =>
    writeNode loc old? none
    IO.FS.createDirAll path
    for (name, node) in new do
      writeNode (loc ++ [name]) none (some node)
where
  /-- Writes a file. -/
  write (path : String) (content : ByteArray) (executable : Bool) : IO Unit := do
    IO.FS.writeBinFile path content
    if executable then
      let all : IO.AccessRight := { read := true, write := true, execution := true }
      let some_ : IO.AccessRight := { read := true, execution := true }
      IO.setAccessRights path { user := all, group := some_, other := some_ }

/-- The variables of the environment. -/
def readEnvironment : IO (List (String × String)) := do
  let text ← textAt "/proc/self/environ"
  return (text.splitOn "\x00").filterMap fun entry =>
    (Text.cut ['='] entry.toList).map fun (name, value) => (String.ofList name, String.ofList value)

/-- The time, which is when a file made now was changed. -/
def readClock : IO Instant :=
  IO.FS.withTempFile fun _ path => return ⟨(← path.metadata).modified.sec⟩

/-- The machine as far as it lies below the current directory. -/
def readHost : IO Host := do
  let here := ((← IO.currentDir).toString.splitOn "/").filter (· ≠ "")
  let (node?, repositories) ← (readNode here).run []
  let files : Files := ⟨Node.emptyDirectory.put here (node?.getD .emptyDirectory), here⟩
  return ⟨files, ← readEnvironment, ← readClock, ⟨[], repositories⟩, default⟩

/-- Carries out a command line and answers with the code to end with. -/
def carryOut (a : CommandLine.Arguments) : IO UInt32 := do
  let output ← IO.getStdout
  let errors ← IO.getStderr
  let host ← readHost
  let sinks := match a.settings.run (.start host) with
    | .ok settings _ => Settings.logSinks settings.global
    | .error .. => ⟨.info, .info, none⟩
  let (failure?, ended) := match (a.run Git.references Host.programs).run (.start host) with
    | .ok _ ended => (none, ended)
    | .error e ended => (some e, ended)
  for line in ended.printed do output.putStrLn line
  for line in ended.log do
    if sinks.console.shows line then errors.putStrLn line.text
  if let some path := sinks.logFile? then
    let log ← IO.FS.Handle.mk path .append
    for line in ended.log do
      if sinks.file.shows line then log.putStrLn line.text
  let here := host.files.here
  writeNode here (host.files.top.get? here) (ended.host.files.top.get? here)
  match failure? with
  | none => return 0
  | some e =>
    errors.putStrLn ("Error: " ++ e.chain)
    return 1

end Grove.Main

/-- Carries out the command line. -/
def main (words : List String) : IO UInt32 := do
  match Grove.CommandLine.Arguments.parse words with
  | .ok a => Grove.Main.carryOut a
  | .error e =>
    (← IO.getStderr).putStrLn ("error: " ++ e.message)
    return e.exitCode.toUInt32
