import Grove.Host
import Grove.Program.Basic
import Grove.Shell.Run

/-!
# Running programs on a host

The programs of a host are the scripts among its files and the utilities that every machine has. A
program starts in a directory, sees the environment of the host with some variables added, and
leaves its mark on the files.
-/

namespace Grove

namespace Host

/-- The directories where programs are looked for. -/
def searchPath (h : Host) : String :=
  (h.lookup "PATH").getD "/usr/bin:/bin"

/-- The program of a name: the path itself when the name is one, else what the search path holds. -/
def findProgram? (h : Host) (name : String) : Option Path :=
  if name = "" then none
  else if name.toList.contains '/' then
    let path := (Files.pathOf h.files.here).join (.ofString name)
    if Shell.isProgram h.files path then some path else none
  else Shell.findProgram? h.files h.searchPath name

/-- Why the program at a path cannot be started, if it cannot. -/
def obstacle? (files : Files) (program : Path) : Option OsError :=
  match files.place program, files.node program with
  | .error e, _ => some e
  | _, .error e => some e
  | .ok spot, .ok (.file content executable) =>
    if !executable then some .permissionDenied
    else if Shell.isSystemProgram spot.location then none
    else
      match Shell.interpreter? content with
      | none => some .notAProgram
      | some path =>
        match files.node (.ofString path) with
        | .ok _ => none
        | .error e => some e
  | _, .ok _ => some .permissionDenied

/-- Where an invocation finds its program once it stands in its directory. -/
def resolve (h : Host) (files : Files) (i : Invocation) : Except OsError Path :=
  if i.program.text.toList.contains '/' then .ok i.program
  else
    match Shell.findProgram? files h.searchPath i.program.text with
    | some path => .ok path
    | none => .error .notFound

/-- Starts a program, or tells why it cannot be started. -/
def start (h : Host) (i : Invocation) : Except OsError Shell.State := do
  let files ←
    match i.directory? with
    | some dir => h.files.enter dir
    | none => .ok h.files
  let program ← h.resolve files i
  match obstacle? files program with
  | some e => .error e
  | none =>
    let environment := i.environment.reverse ++ h.environment.reverse
    let state : Shell.State :=
      { files, bindings := environment, exported := environment.map (·.1), name := program.text,
        arguments := [], sinks := [], input := [], output := .empty, errors := .empty, status := 0,
        flow := .on }
    .ok (Shell.enterProgram Shell.plenty state.collecting program i.program.text i.arguments)

/-- Runs a program and waits for it. -/
def run (i : Invocation) : EStateM Failure Host Outcome := fun h =>
  match h.start i with
  | .error e => .error (.bare (.program (.notStarted i.line e))) h
  | .ok state =>
    let h := { h with files := { state.files with here := h.files.here } }
    let code : Int := if state.isKilled then -1 else state.status
    match Outcome.of i code state.output state.errors with
    | .ok outcome => .ok outcome h
    | .error e => .error e h

/-- Access to the programs of a host. -/
def programs : Programs Host where
  find? := fun name h => h.findProgram? name
  run := run

end Host

end Grove
