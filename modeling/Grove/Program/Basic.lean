import Grove.Failure
import Grove.Path
import Grove.Text.Bytes

/-!
# Programs

A program to run, with its arguments and surroundings, and what comes of running it. Output is read
line by line, up to the first line that is not text. Access to programs is a record of two
functions, so that what runs them need not be known here.
-/

namespace Grove

/-- A program to run. -/
structure Invocation where
  /-- The program, as a path or a bare name. -/
  program : Path
  /-- Its arguments. -/
  arguments : List String
  /-- The directory it starts in; the current one when not given. -/
  directory? : Option Path
  /-- Variables added to its environment, the later of two with one name in force. -/
  environment : List (String × String)
  /-- Whether its output is kept. -/
  keepOutput : Bool
  /-- Whether any exit code counts as success. -/
  allowFailure : Bool
  deriving DecidableEq, Inhabited

namespace Invocation

/-- A program with arguments and nothing else. -/
def of (program : Path) (arguments : List String) : Invocation :=
  ⟨program, arguments, none, [], false, false⟩

/-- The program that runs a text of the shell. -/
def shell (text : String) : Invocation :=
  of (.ofString "/bin/sh") ["-c", text]

/-- An argument as it is shown: in quotes when it holds a space. -/
def shownArgument (a : String) : String :=
  if a.toList.contains ' ' then "\"" ++ a ++ "\"" else a

/-- The command line as it is shown. -/
def line (i : Invocation) : String :=
  i.program.shown ++ String.join (i.arguments.map fun a => " " ++ shownArgument a)

end Invocation

/-- What came of running a program. -/
structure Outcome where
  /-- The exit code; -1 when a signal ended the program. -/
  code : Int
  /-- The output, if it is kept. -/
  output : String
  /-- The error output, if it is kept. -/
  errors : String
  deriving DecidableEq, Inhabited

namespace Outcome

/-- Whether the program succeeded. -/
def isSuccess (o : Outcome) : Bool :=
  o.code = 0

/-- The text kept of some lines: each is set off by a line feed from the text before it, if any. -/
def keepLines (lines : List String) : String :=
  lines.foldl (fun kept line => if kept = "" then line else kept ++ "\n" ++ line) ""

/-- The text kept of what a program printed. -/
def kept (bytes : ByteArray) : String :=
  keepLines (Text.textLines (Text.byteLines bytes.data.toList))

/-- The outcome of an invocation with the bytes that it printed, or its failure. -/
def of (i : Invocation) (code : Int) (output errors : ByteArray) : Except Failure Outcome :=
  if code ≠ 0 ∧ i.allowFailure = false then .error (.bare (.program (.exited i.line code)))
  else if i.keepOutput then .ok ⟨code, kept output, kept errors⟩
  else .ok ⟨code, "", ""⟩

end Outcome

/-- Access to programs. -/
structure Programs (σ : Type) where
  /-- The program of a name, looked for on the search path. -/
  find? : String → σ → Option Path
  /-- Runs a program and waits for it. -/
  run : Invocation → EStateM Failure σ Outcome

namespace Programs

variable {σ : Type}

/-- The program of a name, which has to be there. -/
def require (programs : Programs σ) (name : String) (s : σ) : Except Failure Path :=
  match programs.find? name s with
  | some path => .ok path
  | none => .error (.bare (.program (.notFound name)))

end Programs

end Grove
