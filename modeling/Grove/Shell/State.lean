import Grove.Files.Basic
import Grove.Pattern.Regular
import Grove.Shell.Numeral
import Grove.Shell.Script

/-!
# The state of a shell

What a running shell carries along, where its descriptors lead, and how expanded text becomes
fields and patterns.

Main statements: a variable holds what was assigned to it last (`State.value?_assign_self`) and
nothing once it is forgotten (`State.value?_forget_self`).
-/

namespace Grove.Shell

/-- Where a descriptor leads. -/
inductive Sink where
  /-- To the output of the program. -/
  | output
  /-- To the error output of the program. -/
  | errors
  /-- To the end of a file. -/
  | file (location : Location)
  /-- Nowhere. -/
  | nowhere
  deriving DecidableEq

/-- Where descriptors lead, those not listed nowhere. -/
abbrev Sinks := List (Nat × Sink)

/-- How a shell goes on after a command. -/
inductive Flow where
  /-- With the next command. -/
  | on
  /-- After a number of enclosing loops. -/
  | leaving (loops : Nat)
  /-- With the next round of a loop, some loops further out. -/
  | repeating (loops : Nat)
  /-- After the function or the text that is being run. -/
  | returning
  /-- Not at all: it ended. -/
  | ended
  /-- Not at all: a signal ended it. -/
  | killed (signal : Nat)
  deriving DecidableEq

/-- The state of a shell. -/
structure State where
  /-- The files, with the current directory. -/
  files : Files
  /-- The variables, the latest first. -/
  bindings : List (String × String)
  /-- The variables that programs inherit. -/
  exported : List String
  /-- The variables that keep their values. -/
  constants : List String := []
  /-- The name the shell was called by. -/
  name : String
  /-- The arguments of the shell. -/
  arguments : List String
  /-- Where the descriptors lead. -/
  sinks : Sinks
  /-- What can still be read. -/
  input : List UInt8
  /-- What was printed. -/
  output : ByteArray
  /-- What was printed as errors. -/
  errors : ByteArray
  /-- The exit code of the last command. -/
  status : Nat
  /-- How the shell goes on. -/
  flow : Flow
  /-- The functions. -/
  functions : List (String × Command) := []
  /-- What is run when a signal comes, by its number; zero stands for the end of the shell. -/
  traps : List (Nat × String) := []
  /-- The values that variables get back when the function that is being run ends. -/
  saved : List (String × Option String) := []
  /-- How many loops are being run. -/
  loops : Nat := 0
  /-- Whether the first failure ends the shell. -/
  strict : Bool := false
  /-- Whether the use of a variable that is not set ends the shell. -/
  wary : Bool := false
  /-- Whether a failure of the command that is being run is an answer, and not one that counts. -/
  asked : Bool := false

namespace State

/-- The value of a variable. -/
def value? (s : State) (name : String) : Option String :=
  s.bindings.lookup name

/-- The state with a variable. -/
def assign (s : State) (name value : String) : State :=
  { s with bindings := (name, value) :: s.bindings.filter fun e => e.1 != name }

/-- The state without a variable. -/
def forget (s : State) (name : String) : State :=
  { s with bindings := s.bindings.filter fun e => e.1 != name }

/-- The state with a variable that has the value it had before, if it had one. -/
def giveBack (s : State) (name : String) (value? : Option String) : State :=
  match value? with
  | some value => s.assign name value
  | none => s.forget name

/-- The characters that cut the values of variables into fields. -/
def separators (s : State) : List Char :=
  ((s.value? "IFS").getD " \t\n").toList

/-- The state after a signal that cannot be caught, which is what comes of a script that does too
much. -/
def exhausted (s : State) : State :=
  { s with flow := .killed 9 }

/-- Whether a signal ended the shell. -/
def isKilled (s : State) : Bool :=
  match s.flow with
  | .killed _ => true
  | _ => false

/-- The state after a command with an exit code. -/
def finish (s : State) (code : Nat) : State :=
  { s with status := code }

/-- The variables that a program inherits. -/
def environment (s : State) : List (String × String) :=
  s.bindings.filter fun e => e.1 ∈ s.exported

/-- The state with a descriptor that leads elsewhere. -/
def lead (s : State) (descriptor : Nat) (sink : Sink) : State :=
  { s with sinks := (descriptor, sink) :: s.sinks }

/-- The state of a shell whose output and errors are collected. -/
def collecting (s : State) : State :=
  { s with sinks := [(1, .output), (2, .errors)], output := .empty, errors := .empty }

/-- Prints bytes to a descriptor. -/
def write (s : State) (descriptor : Nat) (bytes : ByteArray) : State :=
  match (s.sinks.lookup descriptor).getD .nowhere with
  | .output => { s with output := s.output ++ bytes }
  | .errors => { s with errors := s.errors ++ bytes }
  | .nowhere => s
  | .file loc =>
    match s.files.top.get? loc with
    | some (.file content executable) =>
      { s with files := s.files.putAt loc (.file (content ++ bytes) executable) }
    | _ => s

/-- Prints text to a descriptor. -/
def print (s : State) (descriptor : Nat) (text : String) : State :=
  s.write descriptor ⟨(Text.nameBytes text.toList).toArray⟩

/-- Prints a complaint and fails. -/
def complain (s : State) (text : String) (code : Nat) : State :=
  (s.print 2 (s.name ++ ": 1: " ++ text ++ "\n")).finish code

/-- A variable holds what was assigned last. -/
@[simp] theorem value?_assign_self (s : State) (name value : String) :
    (s.assign name value).value? name = some value := by
  simp [assign, value?]

/-- A variable that was forgotten holds nothing. -/
@[simp] theorem value?_forget_self (s : State) (name : String) :
    (s.forget name).value? name = none := by
  simp only [forget, value?, List.lookup_eq_none_iff]
  intro e he
  simp only [List.mem_filter, bne_iff_ne, ne_eq] at he
  simpa using Ne.symm he.2

end State

/-! ### Fields -/

/-- A piece of expanded text. -/
inductive Item where
  /-- A character, which quoting may have stripped of its meaning. -/
  | char (c : Char) (quoted : Bool)
  /-- An end of a field. -/
  | gap
  /-- A sign that there is a field, even an empty one. -/
  | mark
  deriving DecidableEq

namespace Item

/-- Text as items. -/
def ofText (quoted : Bool) (text : String) : List Item :=
  text.toList.map (char · quoted)

/-- Items cut at separators without quotes. White ones count together and only between fields; each
of the others ends a field, even an empty one. `pending` tells of white since the last character,
`ended` of a field that ended since then. -/
def cutFields (separators : List Char) (pending ended : Bool) : List Item → List Item
  | [] => if pending then [gap] else []
  | char c false :: rest =>
    if !separators.contains c then
      (if pending then [gap] else []) ++ char c false :: cutFields separators false false rest
    else if isWhite c then cutFields separators (pending || !ended) ended rest
    else mark :: gap :: cutFields separators false true rest
  | item :: rest =>
    (if pending then [gap] else []) ++ item :: cutFields separators false false rest

/-- Whether an item separates fields. -/
def isSeparator (separators : List Char) : Item → Bool
  | char c false => separators.contains c
  | _ => false

/-- Whether an item is white and separates fields. -/
def isWhiteSeparator (separators : List Char) : Item → Bool
  | char c false => separators.contains c && isWhite c
  | _ => false

/-- The characters of items. -/
def chars (items : List Item) : List Char :=
  items.filterMap fun
    | char c _ => some c
    | _ => none

/-- The text of items. -/
def text (items : List Item) : String :=
  String.ofList (chars items)

/-- The fields between the gaps, empty ones left out unless they are marked. -/
def fields (items : List Item) : List (List Item) :=
  (items.splitOn gap).filter fun field => !field.isEmpty

/-- Shares a line out to names: a field to each, and all that is left to the last. -/
def shares (separators : List Char) (names : List String) (items : List Item) :
    List (String × String) :=
  let white := isWhiteSeparator separators
  let items := items.dropWhile white
  match names with
  | [] => []
  | [last] => [(last, text (items.reverse.dropWhile white).reverse)]
  | name :: rest =>
    let isPart (item : Item) : Bool := !isSeparator separators item
    let others := (items.dropWhile isPart).dropWhile white
    let others := if (others.head?.map (isSeparator separators)).getD false then others.tail else others
    (name, text (items.takeWhile isPart)) :: shares separators rest others

/-- Reads a bracketed set after its opening bracket. -/
def readSet? (first : Bool) : List Item → Option (List (Char × Char) × List Item)
  | [] => none
  | char ']' false :: rest =>
    if first then (readSet? false rest).map fun (rs, rest) => ((']', ']') :: rs, rest)
    else some ([], rest)
  | char lo _ :: char '-' false :: char hi quoted :: rest =>
    if hi = ']' ∧ quoted = false then
      (readSet? false (char hi quoted :: rest)).map fun (rs, rest) =>
        ((lo, lo) :: ('-', '-') :: rs, rest)
    else (readSet? false rest).map fun (rs, rest) => ((lo, hi) :: rs, rest)
  | char c _ :: rest => (readSet? false rest).map fun (rs, rest) => ((c, c) :: rs, rest)
  | _ :: rest => readSet? first rest

/-- The pattern that items write. -/
def pattern (fuel : Nat) (items : List Item) : Pattern.Regular :=
  match fuel, items with
  | 0, _ => .empty
  | _, [] => .empty
  | fuel + 1, char '*' false :: rest => Pattern.Regular.anything.andThen (pattern fuel rest)
  | fuel + 1, char '?' false :: rest => (Pattern.Regular.ofSet .any).andThen (pattern fuel rest)
  | fuel + 1, char '[' false :: rest =>
    let (negated, inner) : Bool × List Item :=
      match rest with
      | char '!' false :: inner => (true, inner)
      | _ => (false, rest)
    match readSet? true inner with
    | some (ranges, rest) =>
      (Pattern.Regular.ofSet ⟨negated, ranges⟩).andThen (pattern fuel rest)
    | none => (Pattern.Regular.char '[').andThen (pattern fuel rest)
  | fuel + 1, char c _ :: rest => (Pattern.Regular.char c).andThen (pattern fuel rest)
  | fuel + 1, _ :: rest => pattern fuel rest

/-- Whether the items, read as a pattern, match the whole text. -/
def accepts (items : List Item) (text : List Char) : Bool :=
  (pattern items.length items).accepts text

/-- Whether any character has a meaning in patterns. -/
def isPattern (items : List Item) : Bool :=
  items.any fun
    | char c false => "*?[".toList.contains c
    | _ => false

/-- The names in the current directory that a field matches; the field itself if it is no pattern or
nothing matches. -/
def paths (files : Files) (field : List Item) : List String :=
  if isPattern field then
    let hidden := (chars field).head? = some '.'
    let names := ((files.top.get? files.here).map Node.entries).getD [] |>.map (·.1)
    match names.filter fun n => (hidden || n.toList.head? != some '.') && accepts field n.toList with
    | [] => [text field]
    | found => found
  else [text field]

/-- The value without its shortest or longest start that matches. -/
def withoutStart (items : List Item) (longest : Bool) (value : List Char) : List Char :=
  let cuts := List.range (value.length + 1)
  match (if longest then cuts.reverse else cuts).find? fun n => accepts items (value.take n) with
  | some n => value.drop n
  | none => value

/-- The value without its shortest or longest end that matches. -/
def withoutEnd (items : List Item) (longest : Bool) (value : List Char) : List Char :=
  let cuts := List.range (value.length + 1)
  match (if longest then cuts else cuts.reverse).find? fun n => accepts items (value.drop n) with
  | some n => value.take n
  | none => value

end Item

end Grove.Shell
