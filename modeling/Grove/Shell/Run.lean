import Grove.Shell.Builtin
import Grove.Shell.Expansion
import Grove.Shell.Expression

/-!
# Running shell commands

The meaning of commands as changes of the shell's state. Running takes fuel, which bounds how many
commands may be under way or follow one another; a shell that runs out of it is taken to be killed.
-/

namespace Grove.Shell

/-- How much a script may do. -/
def plenty : Nat := 20000

/-- The state after a loop was left or its round was cut short, and whether the loop goes on. -/
def afterRound (s : State) : Bool × State :=
  match s.flow with
  | .on => (true, s)
  | .leaving 0 => (false, { s with flow := .on })
  | .leaving (n + 1) => (false, { s with flow := .leaving n })
  | .repeating 0 => (true, { s with flow := .on })
  | .repeating (n + 1) => (false, { s with flow := .repeating n })
  | .returning => (false, s)
  | .ended => (false, s)
  | .killed _ => (false, s)

/-- The exit code of a program, as a shell that waits for it sees it. -/
def State.exitCode (s : State) : Nat :=
  match s.flow with
  | .killed signal => 128 + signal
  | _ => s.status

/-- The shell that a program starts with: it knows of this one what programs inherit. -/
def State.forProgram (s : State) : State :=
  { s with
    bindings := s.environment, functions := [], traps := s.traps.filter fun e => e.2 = ""
    saved := [], loops := 0, strict := false, wary := false, asked := false, flow := .on }

/-- The shell that a part of a script runs in by itself. -/
def State.forPart (s : State) : State :=
  { s with traps := s.traps.filter fun e => e.2 = "", loops := 0 }

/-- The shell after a command whose failure counts, which ends a strict one. -/
def State.afterFailure (s : State) : State :=
  if s.strict && !s.asked && s.status != 0 && s.flow = .on then { s with flow := .ended } else s

mutual

/-- Expands a piece of a word. -/
def expandPiece (fuel : Nat) (place : Place) (s : State) (piece : Piece) :
    List Item × State :=
  match fuel with
  | 0 => ([], s.exhausted)
  | fuel + 1 =>
    match piece with
    | .text chars quoted =>
      ((if quoted then [Item.mark] else []) ++ chars.map (Item.char · quoted), s)
    | .sum expression quoted =>
      let (items, s) := expandPieces fuel .single s expression
      let text := Item.chars items
      match expressionValue (fun name => (s.value? name).getD "") text with
      | .ok (value, holdings) =>
        let s := holdings.reverse.foldl (fun s (name, n) => s.assign name (toString n.toInt)) s
        (valueItems s place quoted (toString value.toInt), s)
      | .error fault =>
        ([], { s.complain (fault.message (String.ofList text)) 2 with flow := .ended })
    | .output command quoted =>
      let inner := runPart fuel s.collecting command
      let printed := Text.ofNameBytes (inner.output.data.toList.filter (· != 0))
      let value := String.ofList (Text.dropEndWhile (· = '\n') printed.toList)
      let s := { s with files := { inner.files with here := s.files.here } }
      let s := (s.write 2 inner.errors).finish inner.exitCode
      (valueItems s place quoted value, s)
    | .parameter name use word quoted =>
      let given? := parameter? s name
      let absent (s : State) : List Item × State :=
        ([], { s.complain (name ++ ": parameter not set") 2 with flow := .ended })
      let unsure := s.wary && given?.isNone && name != "@" && name != "*"
      match use with
      | .value =>
        if unsure then absent s
        else if name = "@" then (argumentItems s place quoted, s)
        else if name = "*" then
          if quoted then (valueItems s place true (joined s), s)
          else (argumentItems s place false, s)
        else (valueItems s place quoted (given?.getD ""), s)
      | .length =>
        if unsure then absent s
        else (valueItems s place quoted (toString (given?.getD "").length), s)
      | .withoutStart longest =>
        let (items, s) := expandPieces fuel .single s word
        if unsure then absent s
        else
          let value := Item.withoutStart items longest (given?.getD "").toList
          (valueItems s place quoted (String.ofList value), s)
      | .withoutEnd longest =>
        let (items, s) := expandPieces fuel .single s word
        if unsure then absent s
        else
          let value := Item.withoutEnd items longest (given?.getD "").toList
          (valueItems s place quoted (String.ofList value), s)
      | .orElse emptyCounts =>
        match given?.filter fun v => !(emptyCounts && v.isEmpty) with
        | some value =>
          if name = "@" then (argumentItems s place quoted, s)
          else (valueItems s place quoted value, s)
        | none =>
          let (items, s) := expandPieces fuel place s word
          (wordItems s place quoted items, s)
      | .orAssign emptyCounts =>
        match given?.filter fun v => !(emptyCounts && v.isEmpty) with
        | some value => (valueItems s place quoted value, s)
        | none =>
          let (items, s) := expandPieces fuel .single s word
          let s := s.assign name (Item.text items)
          (valueItems s place quoted (Item.text items), s)
      | .whenSet emptyCounts =>
        match given?.filter fun v => !(emptyCounts && v.isEmpty) with
        | some _ =>
          let (items, s) := expandPieces fuel place s word
          (wordItems s place quoted items, s)
        | none => ([], s)
      | .orFail emptyCounts =>
        match given?.filter fun v => !(emptyCounts && v.isEmpty) with
        | some value => (valueItems s place quoted value, s)
        | none =>
          let (items, s) := expandPieces fuel .single s word
          let why :=
            if !items.isEmpty then Item.text items
            else if emptyCounts then "parameter not set or null"
            else "parameter not set"
          ([], { s.complain (name ++ ": " ++ why) 2 with flow := .ended })

/-- Expands pieces one after the other. -/
def expandPieces (fuel : Nat) (place : Place) (s : State) (pieces : List Piece) :
    List Item × State :=
  match fuel with
  | 0 => ([], s.exhausted)
  | fuel + 1 =>
    match pieces with
    | [] => ([], s)
    | piece :: rest =>
      let (first, s) := expandPiece fuel place s piece
      let (others, s) := expandPieces fuel place s rest
      (first ++ others, s)

/-- Expands words to fields, with the names that patterns match. -/
def expandWords (fuel : Nat) (s : State) (words : List Word) : List String × State :=
  match fuel with
  | 0 => ([], s.exhausted)
  | fuel + 1 =>
    match words with
    | [] => ([], s)
    | word :: rest =>
      let (items, s) := expandPieces fuel .fields s word
      let first := (Item.fields items).flatMap (Item.paths s.files)
      let (others, s) := expandWords fuel s rest
      (first ++ others, s)

/-- Assigns variables one after the other. -/
def assignAll (fuel : Nat) (s : State) (assignments : List (String × List Piece)) :
    State :=
  match fuel with
  | 0 => s.exhausted
  | fuel + 1 =>
    match assignments with
    | [] => s
    | (name, word) :: rest =>
      let (items, s) := expandPieces fuel .single s word
      if s.constants.contains name then
        { s.complain (name ++ ": is read only") 2 with flow := .ended }
      else assignAll fuel (s.assign name (Item.text items)) rest

/-- Opens the files of redirections; the first part tells whether all could be opened. -/
def openAll (fuel : Nat) (s : State) (redirections : List Redirection) : Bool × State :=
  match fuel with
  | 0 => (false, s.exhausted)
  | fuel + 1 =>
    match redirections with
    | [] => (true, s)
    | .mk descriptor kind target :: rest =>
      let (items, s) := expandPieces fuel .single s target
      match openFile? s descriptor kind (Item.text items) with
      | some s => openAll fuel s rest
      | none =>
        let (what, why) :=
          if kind = .input then ("cannot open ", "No such file")
          else ("cannot create ", "Directory nonexistent")
        (false, s.complain (what ++ Item.text items ++ ": " ++ why) 2)

/-- Runs the lines of a script. -/
def runLines (fuel : Nat) (s : State) (script : Script) : State :=
  match fuel with
  | 0 => s.exhausted
  | fuel + 1 =>
    if s.flow != .on then s
    else
      match script.commands with
      | command :: rest => runLines fuel (run fuel s command) { script with commands := rest }
      | [] =>
        if script.broken then { s.complain "Syntax error" 2 with flow := .ended } else s

/-- Runs what was set to be run at the end of the shell. -/
def runAtEnd (fuel : Nat) (s : State) : State :=
  match fuel with
  | 0 => s.exhausted
  | fuel + 1 =>
    match s.traps.lookup 0 with
    | none => s
    | some text =>
      if s.isKilled then s
      else
        let ended := runLines fuel { s with traps := [], flow := .on } (.ofString text)
        if ended.flow = .on then ended.finish s.status else ended

/-- Runs a command in a shell of its own. -/
def runPart (fuel : Nat) (s : State) (command : Command) : State :=
  match fuel with
  | 0 => s.exhausted
  | fuel + 1 => runAtEnd fuel (run fuel s.forPart command)

/-- Runs a command in a shell of its own that shares only what it prints and the files with this
one. -/
def runAside (fuel : Nat) (s : State) (command : Command) : State :=
  match fuel with
  | 0 => s.exhausted
  | fuel + 1 =>
    let inner := runPart fuel s command
    { s with
      files := { inner.files with here := s.files.here }, output := inner.output
      errors := inner.errors, input := inner.input, status := inner.exitCode }

/-- Runs a shell with its own arguments: options first, then the text of a script after `-c` or the
file of one. A shell without a script reads it. -/
def runShell (fuel : Nat) (s : State) (called : String) (args : List String) : State :=
  match fuel with
  | 0 => s.exhausted
  | fuel + 1 =>
    let letters := optionLetters (args.takeWhile isOption)
    let s := { s with name := called, strict := letters.contains 'e', wary := letters.contains 'u' }
    let s := (s.assign "IFS" " \t\n").assign "PWD" (Files.pathOf s.files.here).text
    let start (s : State) (text : String) : State :=
      runAtEnd fuel (runLines fuel s (.ofString text))
    let reading (arguments : List String) : State :=
      start { s with arguments, input := [] } (Text.ofNameBytes s.input)
    match args.dropWhile isOption with
    | [] => reading []
    | first :: rest =>
      if letters.contains 'c' then
        start { s with name := rest.headD called, arguments := rest.tail } first
      else if letters.contains 's' then reading (first :: rest)
      else
        match s.files.read (.ofString first) with
        | .ok content =>
          start { s with name := first, arguments := rest } (Text.ofNameBytes content.data.toList)
        | .error _ =>
          (s.print 2 (called ++ ": 0: cannot open " ++ first ++ ": No such file\n")).finish 2

/-- Runs a program in an environment that arguments add to, or prints the environment. -/
def runIn (fuel : Nat) (s : State) (args : List String) : State :=
  match fuel with
  | 0 => s.exhausted
  | fuel + 1 =>
    match args with
    | [] =>
      s.bindings.reverse.foldl (fun s (n, v) => s.print 1 (n ++ "=" ++ v ++ "\n")) (s.finish 0)
    | arg :: rest =>
      if arg = "-i" then runIn fuel { s with bindings := [], exported := [] } rest
      else
        match assignment arg with
        | (name, some value) =>
          runIn fuel { s.assign name value with exported := name :: s.exported } rest
        | (name, none) =>
          match s.findProgram? name with
          | some program => enterProgram fuel s program name rest
          | none =>
            (s.print 2 ("env: '" ++ name ++ "': No such file or directory\n")).finish 127

/-- Runs the program at a path, called by a name; the answer is the state of the program when it
ended. -/
def enterProgram (fuel : Nat) (s : State) (program : Path) (called : String) (args : List String) :
    State :=
  match fuel with
  | 0 => s.exhausted
  | fuel + 1 =>
    match s.files.place program, s.files.node program with
    | .ok spot, .ok (.file content executable) =>
      let name := spot.location.getLastD ""
      if !executable then s.complain (program.text ++ ": Permission denied") 126
      else if isSystemProgram spot.location then
        if shellNames.contains name then runShell fuel s called args
        else if name = "env" then runIn fuel s args
        else
          match utility? name with
          | some utility => utility args s
          | none => s.finish 0
      else
        match firstLine? content with
        | some (path, options) =>
          enterProgram fuel s (.ofString path) path (options ++ program.text :: args)
        | none => runShell fuel s program.text (program.text :: args)
    | _, .ok (.directory _) => s.complain (program.text ++ ": Permission denied") 126
    | _, _ => s.complain (program.text ++ ": not found") 127

/-- Runs the program at a path from a shell. Only what it printed, what it left to be read, its exit
code and the files come back from it. -/
def runProgram (fuel : Nat) (s : State) (program : Path) (called : String) (args : List String) :
    State :=
  match fuel with
  | 0 => s.exhausted
  | fuel + 1 =>
    let t := enterProgram fuel s.forProgram program called args
    { s with
      files := { t.files with here := s.files.here }, output := t.output, errors := t.errors,
      input := t.input, status := t.exitCode }

/-- Runs a function. -/
def runFunction (fuel : Nat) (s : State) (body : Command) (args : List String) :
    State :=
  match fuel with
  | 0 => s.exhausted
  | fuel + 1 =>
    let inner := run fuel { s with arguments := args, saved := [], loops := 0 } body
    let after := inner.saved.foldl (fun s (name, value?) => s.giveBack name value?) inner
    { after with
      arguments := s.arguments, saved := s.saved, loops := s.loops
      flow := if inner.flow = .returning then .on else inner.flow }

/-- Runs the text of another script in this shell. -/
def runText (fuel : Nat) (s : State) (text : String) : State :=
  match fuel with
  | 0 => s.exhausted
  | fuel + 1 => runLines fuel (s.finish 0) (.ofString text)

/-- Sends a signal; the only program it can reach is the shell itself. -/
def kill (fuel : Nat) (s : State) (args : List String) : State :=
  match fuel with
  | 0 => s.exhausted
  | fuel + 1 =>
    let (signal, targets) := signalOf args
    if !targets.contains "1" then s.finish 1
    else if signal = 9 then { s with flow := .killed 9 }
    else
      match if signal = 0 then none else s.traps.lookup signal with
      | some text =>
        let after := runText fuel s text
        if after.flow = .on then after.finish 0 else after
      | none => if harmlessSignals.contains signal then s.finish 0 else { s with flow := .killed signal }

/-- Runs a simple command whose words are expanded. -/
def runNamed (fuel : Nat) (s : State) (name : String) (args : List String) : State :=
  match fuel with
  | 0 => s.exhausted
  | fuel + 1 =>
    let number? : Option Nat := args.head?.bind fun a => (decimal? a).bind fun n =>
      if n < 0 then none else some n.toInt.toNat
    let refuse (s : State) : State :=
      { s.complain (name ++ ": Illegal number: " ++ args.headD "") 2 with flow := .ended }
    let outer : Nat := min (number?.getD 1) s.loops
    match name with
    | "exit" =>
      match args, number? with
      | [], _ => { s with flow := .ended }
      | _, some n => { s.finish (n % 256) with flow := .ended }
      | _, none => refuse s
    | "return" =>
      match args, number? with
      | [], _ => { s with flow := .returning }
      | _, some n => { s.finish (n % 256) with flow := .returning }
      | _, none => refuse s
    | "break" => if outer = 0 then s.finish 0 else { s.finish 0 with flow := .leaving (outer - 1) }
    | "continue" =>
      if outer = 0 then s.finish 0 else { s.finish 0 with flow := .repeating (outer - 1) }
    | "kill" => kill fuel s args
    | "trap" => trap args s
    | "cd" =>
      let target := args.headD ((s.value? "HOME").getD "/")
      let old := (Files.pathOf s.files.here).text
      let path := if target = "-" then (s.value? "OLDPWD").getD old else target
      match s.files.enter (.ofString path) with
      | .ok files =>
        let s := if target = "-" then s.print 1 (path ++ "\n") else s
        let now := (Files.pathOf files.here).text
        (({ s with files }.assign "OLDPWD" old).assign "PWD" now).finish 0
      | .error _ => s.complain ("cd: can't cd to " ++ path) 2
    | "shift" =>
      let count := number?.getD 1
      if s.arguments.length < count then
        { s.complain "shift: can't shift that many" 2 with flow := .ended }
      else { s with arguments := s.arguments.drop count, status := 0 }
    | "set" => set s args
    | "export" => exportAll args s
    | "readonly" => keepAll args s
    | "local" => localAll args s
    | "unset" => unset args s
    | "read" => read args s
    | "eval" => runText fuel s (" ".intercalate args)
    | "." =>
      let name := args.headD ""
      let path := if name.toList.contains '/' then some (.ofString name) else s.findProgram? name
      match path.map s.files.read with
      | some (.ok content) =>
        let s := runText fuel s (Text.ofNameBytes content.data.toList)
        if s.flow = .returning then { s with flow := .on } else s
      | _ =>
        { s.complain (".: cannot open " ++ name ++ ": No such file") 2 with flow := .ended }
    | "exec" =>
      match args with
      | [] => s.finish 0
      | name :: rest => { runNamed fuel s name rest with flow := .ended, traps := [] }
    | "type" => tell true args s
    | "command" =>
      match args with
      | [] => s.finish 0
      | "-v" :: names => tell false (names.take 1) s
      | "-V" :: names => tell true (names.take 1) s
      | name :: rest => runNamed fuel { s with functions := [] } name rest
    | _ =>
      match s.functions.lookup name with
      | some body => runFunction fuel s body args
      | none =>
        if name.toList.contains '/' then runProgram fuel s (.ofString name) name args
        else if (builtIn.lookup name).isSome then
          match utility? name with
          | some utility => utility args s
          | none => s
        else
          match s.findProgram? name with
          | some program => runProgram fuel s program name args
          | none => s.complain (name ++ ": not found") 127

/-- Runs a loop over words. -/
def runEach (fuel : Nat) (s : State) (name : String) (words : List String)
    (body : Command) : State :=
  match fuel with
  | 0 => s.exhausted
  | fuel + 1 =>
    match words with
    | [] => s
    | word :: rest =>
      let (goes, s) := afterRound (run fuel (s.assign name word) body)
      if goes then runEach fuel s name rest body else s

/-- Runs the command of the first arm with a pattern that matches. -/
def runArms (fuel : Nat) (s : State) (subject : List Char)
    (arms : List (List Word × Command)) : State :=
  match fuel with
  | 0 => s.exhausted
  | fuel + 1 =>
    match arms with
    | [] => s.finish 0
    | (patterns, command) :: rest =>
      match patterns with
      | [] => runArms fuel s subject rest
      | pattern :: others =>
        let (items, s) := expandPieces fuel .single s pattern
        if Item.accepts items subject then run fuel (s.finish 0) command
        else runArms fuel s subject ((others, command) :: rest)

/-- Runs a loop with a condition; the code is that of the last round. -/
def runWhile (fuel : Nat) (s : State) (code : Nat) (condition body : Command)
    (untilSuccess : Bool) : State :=
  match fuel with
  | 0 => s.exhausted
  | fuel + 1 =>
    let tested := ask fuel s condition
    if tested.flow != .on then (afterRound tested).2
    else if (tested.status = 0) = untilSuccess then tested.finish code
    else
      let (goes, s) := afterRound (run fuel tested body)
      if goes then runWhile fuel s s.status condition body untilSuccess else s

/-- Runs a command whose success is only asked for. -/
def ask (fuel : Nat) (s : State) (command : Command) : State :=
  match fuel with
  | 0 => s.exhausted
  | fuel + 1 => { run fuel { s with asked := true } command with asked := s.asked }

/-- Runs a command. -/
def run (fuel : Nat) (s : State) (command : Command) : State :=
  match fuel with
  | 0 => s.exhausted
  | fuel + 1 =>
    if s.flow != .on then s
    else
      match command with
      | .nothing => s
      | .simple assignments words =>
        let (fields, t) := expandWords fuel s words
        if t.flow != .on then t
        else
          match fields with
          | [] => (assignAll fuel (if words.isEmpty then t.finish 0 else t) assignments).afterFailure
          | name :: args =>
            if assignments.isEmpty then (runNamed fuel t name args).afterFailure
            else if specialCommands.contains name then
              (runNamed fuel (assignAll fuel t assignments) name args).afterFailure
            else
              let names := assignments.map (·.1)
              let inner := assignAll fuel t assignments
              let after := runNamed fuel { inner with exported := names ++ inner.exported } name args
              (names.foldl (fun (s : State) name => s.giveBack name (t.value? name))
                { after with exported := t.exported }).afterFailure
      | .redirected command redirections =>
        let (opened, t) := openAll fuel s redirections
        if !opened then { t with sinks := s.sinks, input := s.input }.afterFailure
        else if command.isExec then t.finish 0
        else
          let after := { run fuel t command with sinks := s.sinks }
          if redirections.any Redirection.reads then { after with input := s.input } else after
      | .seq first second => run fuel (run fuel s first) second
      | .andThen first second =>
        let s := ask fuel s first
        if s.status = 0 then run fuel s second else s
      | .orElse first second =>
        let s := ask fuel s first
        if s.status = 0 then s else run fuel s second
      | .negated command =>
        let s := ask fuel s command
        s.finish (if s.status = 0 then 1 else 0)
      | .pipe first second =>
        let left := runPart fuel s.collecting first
        let inner := { s with
          files := { left.files with here := s.files.here }, input := left.output.data.toList }
        let right := runAside fuel (inner.write 2 left.errors) second
        { right with input := s.input }.afterFailure
      | .choice condition yes no =>
        let s := ask fuel s condition
        if s.flow != .on then s
        else if s.status = 0 then run fuel s yes
        else
          match no with
          | .nothing => s.finish 0
          | _ => run fuel s no
      | .loop condition body untilSuccess =>
        let after := runWhile fuel { s with loops := s.loops + 1 } 0 condition body untilSuccess
        { after with loops := s.loops }
      | .each name words body =>
        let (fields, t) :=
          match words with
          | none => (s.arguments, s)
          | some words => expandWords fuel s words
        let after := runEach fuel { t.finish 0 with loops := s.loops + 1 } name fields body
        { after with loops := s.loops }
      | .select word arms =>
        let (items, s) := expandPieces fuel .single s word
        runArms fuel s (Item.chars items) arms
      | .subshell command => (runAside fuel s command).afterFailure
      | .background command =>
        { (runAside fuel { s with input := [] } command).finish 0 with input := s.input }
      | .define name body =>
        { s with functions := (name, body) :: s.functions, status := 0 }

end

end Grove.Shell
