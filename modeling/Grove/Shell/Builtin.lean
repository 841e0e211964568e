import Grove.Shell.Machine
import Grove.Shell.Reader

/-!
# Commands on the shell itself

What a shell does to its own state without running anything: it sets variables and options, reads
lines, opens files and tells what it knows.
-/

namespace Grove.Shell

/-! ### Signals -/

/-- The signals that do not end a program. -/
def harmlessSignals : List Nat :=
  [0, 17, 18, 23, 28]

/-- The number of a signal. -/
def signalNumber? (s : String) : Option Nat :=
  let names : List (String × Nat) :=
    [("EXIT", 0), ("HUP", 1), ("INT", 2), ("QUIT", 3), ("ABRT", 6), ("KILL", 9), ("USR1", 10),
      ("SEGV", 11), ("USR2", 12), ("PIPE", 13), ("ALRM", 14), ("TERM", 15), ("CHLD", 17),
      ("CONT", 18)]
  (readDigits? 10 s.toList).map (·.1) <|> names.lookup s

/-- The signal that arguments name, and those that it is for. -/
def signalOf (args : List String) : Nat × List String :=
  match args with
  | "-s" :: name :: rest => ((signalNumber? name).getD 15, rest)
  | first :: rest =>
    match first.toList with
    | '-' :: name => ((signalNumber? (String.ofList name)).getD 15, rest)
    | _ => (15, args)
  | [] => (15, [])

/-- Sets or clears what is run when signals come. -/
def trap (args : List String) (s : State) : State :=
  let clear (names : List String) : List (Nat × String) :=
    let numbers := names.filterMap signalNumber?
    s.traps.filter fun e => !numbers.contains e.1
  match if args.head? = some "--" then args.tail else args with
  | [] => s.finish 0
  | "-" :: names => { s with traps := clear names, status := 0 }
  | [name] => { s with traps := clear [name], status := 0 }
  | text :: names =>
    { s with traps := (names.filterMap signalNumber?).map (·, text) ++ clear names, status := 0 }

/-! ### Settings -/

/-- Sets the options and the arguments of the shell. -/
def set (s : State) : List String → State
  | [] => s.finish 0
  | "--" :: rest => { s with arguments := rest, status := 0 }
  | "-o" :: name :: rest =>
    match name with
    | "errexit" => set { s with strict := true } rest
    | "nounset" => set { s with wary := true } rest
    | _ => { s.complain ("set: Illegal option -o " ++ name) 2 with flow := .ended }
  | arg :: rest =>
    match arg.toList with
    | '-' :: c :: letters =>
      let letters := c :: letters
      set
        { s with strict := s.strict || letters.contains 'e', wary := s.wary || letters.contains 'u' }
        rest
    | '+' :: c :: letters =>
      let letters := c :: letters
      set
        { s with strict := s.strict && !letters.contains 'e', wary := s.wary && !letters.contains 'u' }
        rest
    | _ => { s with arguments := arg :: rest, status := 0 }

/-- The name and the value of an argument such as `name=value`. -/
def assignment (arg : String) : String × Option String :=
  match Text.cut ['='] arg.toList with
  | some (name, value) => (String.ofList name, some (String.ofList value))
  | none => (arg, none)

/-- Exports variables. -/
def exportAll (args : List String) (s : State) : State :=
  args.foldl (fun s arg =>
    let (name, value?) := assignment arg
    let s := { s with exported := name :: s.exported }
    match value? with
    | some value => s.assign name value
    | none => s) (s.finish 0)

/-- Lets variables keep their values. -/
def keepAll (args : List String) (s : State) : State :=
  args.foldl (fun s arg =>
    let (name, value?) := assignment arg
    let s := { s with constants := name :: s.constants }
    match value? with
    | some value => s.assign name value
    | none => s) (s.finish 0)

/-- Makes variables belong to the function that is being run. -/
def localAll (args : List String) (s : State) : State :=
  args.foldl (fun s arg =>
    let (name, value?) := assignment arg
    let s := { s with saved := (name, s.value? name) :: s.saved }
    match value? with
    | some value => s.assign name value
    | none => s) (s.finish 0)

/-- Forgets variables, or functions. -/
def unset (args : List String) (s : State) : State :=
  match args with
  | "-f" :: names =>
    { s with functions := s.functions.filter fun e => !names.contains e.1, status := 0 }
  | _ => args.foldl State.forget (s.finish 0)

/-! ### Reading lines -/

/-- A line to be shared out to names: unless `raw`, a backslash takes the meaning from the character
after it, and a line that ends in one goes on. The second part is what is left to be read, the third
tells whether the line had an end. -/
def readLine (raw : Bool) : List Char → List Item × List Char × Bool
  | [] => ([], [], false)
  | '\n' :: rest => ([], rest, true)
  | '\\' :: c :: rest =>
    if raw then
      if c = '\n' then ([.char '\\' false], rest, true)
      else
        let (items, left, ended) := readLine raw rest
        (.char '\\' false :: .char c false :: items, left, ended)
    else
      let (items, left, ended) := readLine raw rest
      (if c = '\n' then items else .char c true :: items, left, ended)
  | c :: rest =>
    let (items, left, ended) := readLine raw rest
    (.char c false :: items, left, ended)

/-- Reads a line and shares it out to variables. -/
def read (args : List String) (s : State) : State :=
  let names := operands args
  let text := (Text.ofNameBytes s.input).toList
  let (items, left, ended) := readLine ((optionLetters args).contains 'r') text
  let shares := Item.shares s.separators (if names.isEmpty then ["REPLY"] else names) items
  let s := { s with input := valueBytes (String.ofList left) }
  (shares.foldl (fun s (name, value) => s.assign name value) s).finish (if ended then 0 else 1)

/-! ### Files -/

/-- Opens a file for a descriptor. -/
def openFile? (s : State) (descriptor : Nat) (kind : RedirectionKind) (name : String) :
    Option State :=
  let path := Path.ofString name
  match kind with
  | .duplicate =>
    if name = "-" then some (s.lead descriptor .nowhere)
    else
      match readDigits? 10 name.toList with
      | some (n, []) => some (s.lead descriptor ((s.sinks.lookup n).getD .nowhere))
      | _ => none
  | .here => some { s with input := valueBytes name }
  | .input =>
    match s.files.read path with
    | .ok content => some { s with input := content.data.toList }
    | .error _ => none
  | _ =>
    if name = "/dev/null" then some (s.lead descriptor .nowhere)
    else
      let opened :=
        if kind = .append ∧ s.files.isFile path then .ok s.files else s.files.write path .empty
      match opened with
      | .error _ => none
      | .ok files =>
        match files.place path with
        | .error _ => none
        | .ok spot => some ({ s with files }.lead descriptor (.file spot.location))

/-! ### Names -/

/-- The commands that work on the shell itself; what is assigned before one of them stays. -/
def specialCommands : List String :=
  [".", ":", "break", "continue", "eval", "exec", "exit", "export", "readonly", "return", "set",
    "shift", "trap", "unset"]

/-- The other commands that the shell runs itself. -/
def shellCommands : List String :=
  specialCommands ++ ["cd", "command", "kill", "local", "read", "type"] ++ builtIn.map (·.1)

/-- The words with a meaning in scripts. -/
def keywords : List String :=
  ["!", "case", "for", "if", "in", "until", "while", "\x7b"] ++ reservedWords

/-- Tells what the shell would run for names: what it is called, or also what it is. -/
def tell (verbose : Bool) (names : List String) (s : State) : State :=
  names.foldl (fun s name =>
    let say (plain described : String) : State :=
      s.print 1 ((if verbose then name ++ " is " ++ described else plain) ++ "\n")
    if keywords.contains name then say name "a shell keyword"
    else if (s.functions.lookup name).isSome then say name "a shell function"
    else if shellCommands.contains name then say name "a shell builtin"
    else
      match s.findProgram? name with
      | some path => say path.text path.text
      | none =>
        (if verbose then s.print 1 (name ++ ": not found\n") else s).finish 127) (s.finish 0)

end Grove.Shell
