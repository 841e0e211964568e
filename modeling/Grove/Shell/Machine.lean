import Grove.Shell.Utility

/-!
# The programs of a machine

The programs that every machine has, where they lie, and how a program is found by its name or by the
first line of a script.
-/

namespace Grove.Shell

/-- The directories of the programs that every machine has. -/
def systemDirectories : List String :=
  ["bin", "sbin"]

/-- The programs that every machine has. -/
def systemPrograms : List String :=
  installed.map (·.1) ++
    ["[", "awk", "bash", "dash", "date", "echo", "env", "expr", "false", "find", "git", "hostname",
      "id", "kill", "mktemp", "printf", "pwd", "readlink", "realpath", "sed", "sh", "stat", "test",
      "true", "uname", "which", "xargs"]

/-- The top directory of a machine that has its programs and nothing else. -/
def bareMachine : Node :=
  let programs := systemPrograms.map fun name => (name, Node.file .empty true)
  .directory
    [("bin", .link (.ofString "usr/bin")),
      ("dev", .directory [("null", .file .empty false)]),
      ("usr", .directory [("bin", .directory programs)])]

/-- Whether a location is that of a program every machine has. -/
def isSystemProgram (location : Location) : Bool :=
  match location with
  | [dir, _] => dir ∈ systemDirectories
  | ["usr", dir, _] => dir ∈ systemDirectories
  | _ => false

/-- The names of the shell. -/
def shellNames : List String :=
  ["sh", "dash", "bash"]

/-- The interpreter that the first line of a script names, with the argument it asks for. -/
def firstLine? (content : ByteArray) : Option (String × List String) :=
  match content.data.toList with
  | 35 :: 33 :: rest =>
    (String.fromUTF8? (bytesOf (rest.takeWhile (· != 10)))).bind fun line =>
      let line := Text.stripBoth isSpace line.toList
      if line.isEmpty then none
      else
        let argument := (line.dropWhile (!isSpace ·)).dropWhile isSpace
        some (String.ofList (line.takeWhile (!isSpace ·)),
          if argument.isEmpty then [] else [String.ofList argument])
  | _ => none

/-- The interpreter that the first line of a script names. -/
def interpreter? (content : ByteArray) : Option String :=
  (firstLine? content).map (·.1)

/-- The directories that programs are looked for in. -/
def searchPath (path : String) : List String :=
  (path.toList.splitOn ':').map String.ofList

/-- Whether a path leads to a program. -/
def isProgram (files : Files) (p : Path) : Bool :=
  match files.node p with
  | .ok (.file _ executable) => executable
  | _ => false

/-- The program of a name in the directories of a search path. -/
def findProgram? (files : Files) (path name : String) : Option Path :=
  ((searchPath path).map fun dir => (Path.ofString dir).child name).find? (isProgram files)

/-- The directories of programs where nothing else is said. -/
def defaultPath : String :=
  "/usr/local/sbin:/usr/local/bin:/usr/sbin:/usr/bin:/sbin:/bin"

/-- The program of a name on the search path of the shell. -/
def State.findProgram? (s : State) (name : String) : Option Path :=
  if name.toList.contains '/' then
    if isProgram s.files (.ofString name) then some (.ofString name) else none
  else Shell.findProgram? s.files ((s.value? "PATH").getD defaultPath) name

end Grove.Shell
