import Grove.Failure
import Grove.Log.Line

/-!
# Log levels

How much a log shows, from nothing to everything, as a number up to five.
-/

namespace Grove

/-- A log level. -/
structure LogLevel where
  /-- Zero shows nothing, five everything. -/
  level : Nat
  level_le : level ≤ 5
  deriving DecidableEq

namespace LogLevel

/-- The level of a number, if there is one. -/
def ofNat? (n : Nat) : Option LogLevel :=
  if h : n ≤ 5 then some ⟨n, h⟩ else none

/-- The level of a number, or why there is none. -/
def ofNat (n : Nat) : Except SettingsError LogLevel :=
  match ofNat? n with
  | some l => .ok l
  | none => .error (.invalidValue "global" "log_level" ("log level must be 0-5, got " ++ toString n))

/-- Problems and what a run does. -/
def info : LogLevel := ⟨3, by decide⟩

/-- What a run does and why. -/
def debug : LogLevel := ⟨4, by decide⟩

instance : Inhabited LogLevel := ⟨info⟩

/-- The lowest level that shows a severity. -/
def ofSeverity : Severity → LogLevel
  | .error => ⟨1, by decide⟩
  | .warn => ⟨2, by decide⟩
  | .info => info

/-- Whether a log at the level shows a line. -/
def shows (l : LogLevel) (line : LogLine) : Bool :=
  (ofSeverity line.severity).level ≤ l.level

/-- The names of the levels, lowest first. -/
def names : List String := ["off", "error", "warn", "info", "debug", "trace"]

/-- The name of the level. -/
def name (l : LogLevel) : String :=
  names.getD l.level ""

/-- The filter for a level: up to warnings everything speaks at the level, above only the program
itself does and the rest stays at warnings. -/
def directives (l : LogLevel) : String :=
  if l.level ≤ 2 then l.name else "warn,cactus_rs=" ++ l.name ++ ",cactus=" ++ l.name

end LogLevel

/-- Where log lines go and how much each place shows. -/
structure LogSinks where
  /-- What the console shows. -/
  console : LogLevel
  /-- What the log file shows. -/
  file : LogLevel
  /-- The log file, if any. -/
  logFile? : Option String
  deriving DecidableEq

end Grove
