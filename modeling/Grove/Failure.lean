/-!
# Failures

What can go wrong, as causes. Each family of causes has one function that words it; a failure is a
cause together with the steps that were under way. Its trail lists the messages from the outermost
step to the innermost cause, and `Failure.chain` joins them.
-/

namespace Grove

/-- An answer of the operating system other than success. -/
inductive OsError where
  /-- There is nothing at the path. -/
  | notFound
  /-- The file may not be used in this way. -/
  | permissionDenied
  /-- Something else is at the path already. -/
  | alreadyExists
  /-- An inner step of the path is not a directory. -/
  | notADirectory
  /-- A directory stands where a file is needed. -/
  | isADirectory
  /-- A step of the path is longer than a name may be. -/
  | nameTooLong
  /-- Links lead to links without an end. -/
  | tooManyLinks
  /-- The file is not a program. -/
  | notAProgram
  /-- The path holds a NUL character. -/
  | nulInPath
  /-- The content is not text. -/
  | notText
  /-- Any other answer, in its own words. -/
  | worded (text : String)
  deriving DecidableEq

/-- The system's own words. -/
def OsError.words : OsError → String
  | notFound => "No such file or directory"
  | permissionDenied => "Permission denied"
  | alreadyExists => "File exists"
  | notADirectory => "Not a directory"
  | isADirectory => "Is a directory"
  | nameTooLong => "File name too long"
  | tooManyLinks => "Too many levels of symbolic links"
  | notAProgram => "Exec format error"
  | nulInPath => "file name contained an unexpected NUL byte"
  | notText => "stream did not contain valid UTF-8"
  | worded text => text

/-- The system's number for an answer of its own. -/
def OsError.number? : OsError → Option Nat
  | notFound => some 2
  | permissionDenied => some 13
  | alreadyExists => some 17
  | notADirectory => some 20
  | isADirectory => some 21
  | nameTooLong => some 36
  | tooManyLinks => some 40
  | notAProgram => some 8
  | _ => none

/-- The system's words with its number. -/
def OsError.message (e : OsError) : String :=
  match e.number? with
  | some n => e.words ++ " (os error " ++ toString n ++ ")"
  | none => e.words

/-- Why a repository could not be read without running git. -/
inductive ReadError where
  /-- No repository at the directory or above it. -/
  | discovery (message : String)
  /-- The branch checked out cannot be told. -/
  | head (message : String)
  /-- The references cannot be listed. -/
  | references (message : String)
  /-- The work tree cannot be compared. -/
  | status (message : String)
  deriving DecidableEq

/-- The wording of a read error. -/
def ReadError.message : ReadError → String
  | discovery m => "failed to discover repository: " ++ m
  | head m => "failed to get head reference: " ++ m
  | references m => "failed to list references: " ++ m
  | status m => "failed to check repository status: " ++ m

/-- Why a git operation failed. -/
inductive GitError where
  /-- Git refused a command. -/
  | commandFailed (command message : String)
  /-- The repository could not be read. -/
  | unreadable (error : ReadError)
  /-- The directory lies in no checkout. -/
  | notACheckout (path : String)
  /-- Checkouts that must be clean are not. -/
  | uncommittedChanges (checkouts : List String)
  /-- No branch has the name. -/
  | branchNotFound (branch : String)
  deriving DecidableEq

/-- The wording of a git error. -/
def GitError.message : GitError → String
  | commandFailed command m => "git command failed: " ++ command ++ " - " ++ m
  -- the reader's name is part of the text users see
  | unreadable e => "gix error: " ++ e.message
  | notACheckout path => "not inside a git checkout: " ++ path
  | uncommittedChanges names =>
    "Some checkouts are locally modified:" ++ String.join (names.map ("\n  * " ++ ·))
  | branchNotFound branch => "branch not found: " ++ branch

/-- Why settings were refused. -/
inductive SettingsError where
  /-- The sources do not yield settings. -/
  | unreadable (sources message : String)
  /-- A value breaks its key's rule. -/
  | invalidValue (group key message : String)
  /-- Two options exclude each other. -/
  | conflictingOptions (message : String)
  deriving DecidableEq

/-- The wording of a settings error. -/
def SettingsError.message : SettingsError → String
  | unreadable sources m => "failed to parse config file '" ++ sources ++ "': " ++ m
  | invalidValue group key m => "invalid value for '" ++ key ++ "' in section '[" ++ group ++ "]': " ++ m
  | conflictingOptions m => "conflicting options: " ++ m

/-- Why a project was refused. -/
inductive ProjectError where
  /-- A project file lacks what it needs. -/
  | unreadable (path message : String)
  /-- The directory holds no project file. -/
  | noProject (path : String)
  /-- The projects of one family carry several versions. -/
  | inconsistentVersions (family : String) (versions : List String)
  /-- No checkout holds a project of the families. -/
  | noCheckouts (families : String)
  deriving DecidableEq

/-- The wording of a project error. -/
def ProjectError.message : ProjectError → String
  | unreadable path m => "cannot parse " ++ path ++ ": " ++ m
  | noProject path => "no pom.xml in " ++ path
  | inconsistentVersions family versions =>
    "inconsistent versions in family '" ++ family ++ "': " ++ ", ".intercalate versions
  | noCheckouts families => "No checkouts in families " ++ families

/-- Why a program did not do its work. -/
inductive ProgramError where
  /-- No program of the name is on the search path. -/
  | notFound (name : String)
  /-- The program could not be started. -/
  | notStarted (command : String) (cause : OsError)
  /-- The program ended with another code than zero. -/
  | exited (command : String) (code : Int)
  deriving DecidableEq

/-- The wording of a program error. -/
def ProgramError.message : ProgramError → String
  | notFound name => "executable not found: '" ++ name ++ "' (not in PATH)"
  | notStarted command cause => "failed to spawn process '" ++ command ++ "': " ++ cause.message
  | exited command code => "process '" ++ command ++ "' exited with code " ++ toString code

/-- Why a file could not be used. -/
inductive FileError where
  /-- There is nothing at the path. -/
  | notFound (path : String)
  /-- The system refused. -/
  | refused (path : String) (cause : OsError)
  deriving DecidableEq

/-- The wording of a file error. -/
def FileError.message : FileError → String
  | notFound path => "path not found: " ++ path
  | refused path cause => "I/O error on '" ++ path ++ "': " ++ cause.message

/-- A cause of failure, by family. -/
inductive Fault where
  /-- A git operation. -/
  | git (error : GitError)
  /-- The settings. -/
  | settings (error : SettingsError)
  /-- A project. -/
  | project (error : ProjectError)
  /-- A program that was run. -/
  | program (error : ProgramError)
  /-- A file, with its path. -/
  | file (error : FileError)
  /-- The operating system. -/
  | os (error : OsError)
  /-- A pattern that is none. -/
  | pattern (text : String)
  /-- A request to give up. -/
  | bail (message : String)
  /-- Anything else, in words. -/
  | plain (message : String)
  deriving DecidableEq

namespace Fault

/-- The messages of a cause, each followed by that of its own cause. -/
def trail : Fault → List String
  | git (.unreadable e) => [(GitError.unreadable e).message, e.message]
  | git e => [e.message]
  | settings e => [e.message]
  | project e => [e.message]
  | program (.notStarted c cause) => [(ProgramError.notStarted c cause).message, cause.message]
  | program e => [e.message]
  | file (.refused p cause) => [(FileError.refused p cause).message, cause.message]
  | file e => [e.message]
  | os e => [e.message]
  | pattern text => [text]
  | bail m => [m]
  | plain m => [m]

/-- The outermost message of a cause. -/
def message (f : Fault) : String :=
  f.trail.headD ""

/-- The messages of a cause under the heading of its family. A family that has no cause of its own
to add says everything in the heading. -/
def headedTrail : Fault → List String
  | git e => ("git error: " ++ e.message) :: trail (git e)
  | settings e => ("config error: " ++ e.message) :: trail (settings e)
  | project e => ("project error: " ++ e.message) :: trail (project e)
  | program e => ("process error: " ++ e.message) :: trail (program e)
  | file e => ("filesystem error: " ++ e.message) :: trail (file e)
  | os e => ["io error: " ++ e.message]
  | pattern text => [text]
  | bail m => ["fatal error: " ++ m]
  | plain m => [m]

end Fault

/-- A cause and the steps under way when it arose, outermost first. -/
structure Failure where
  /-- What was being attempted. -/
  steps : List String
  /-- Whether the cause is told under its family's heading. -/
  headed : Bool
  /-- The cause. -/
  fault : Fault
  deriving DecidableEq

namespace Failure

/-- A cause as it is. -/
def bare (fault : Fault) : Failure :=
  ⟨[], false, fault⟩

/-- A cause under its family's heading. -/
def under (fault : Fault) : Failure :=
  ⟨[], true, fault⟩

/-- A git error under its heading, as git operations raise it. -/
def git (error : GitError) : Failure :=
  under (.git error)

/-- Adds an outer step. -/
def within (step : String) (f : Failure) : Failure :=
  { f with steps := step :: f.steps }

/-- All messages, outermost first. -/
def trail (f : Failure) : List String :=
  f.steps ++ if f.headed then f.fault.headedTrail else f.fault.trail

/-- The outermost message. -/
def message (f : Failure) : String :=
  f.trail.headD ""

/-- All messages in one text. -/
def chain (f : Failure) : String :=
  ": ".intercalate f.trail

end Failure

end Grove
