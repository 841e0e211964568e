import Grove.Shell.Condition
import Grove.Shell.Filter
import Grove.Shell.State
import Grove.Text.Split

/-!
# Utilities

The programs that a shell finds everywhere, as changes of its state. Each takes its arguments and
answers the state with what it printed and its exit code.
-/

namespace Grove.Shell

/-- A utility. -/
abbrev Utility := List String → State → State

/-- Whether an argument is written as an option. -/
def isOption (arg : String) : Bool :=
  match arg.toList with
  | '-' :: _ :: _ => true
  | _ => false

/-- The letters of the options. -/
def optionLetters (args : List String) : List Char :=
  (args.filter isOption).flatMap fun a => a.toList.tail

/-- The arguments that are no options. -/
def operands (args : List String) : List String :=
  args.filter fun a => !isOption a

/-- The value of the option of a letter, which follows it at once or as the next argument, and the
other arguments. -/
def takeValue (letter : Char) (args : List String) : Option String × List String :=
  match args with
  | [] => (none, [])
  | arg :: rest =>
    match arg.toList with
    | '-' :: c :: value =>
      if c = letter then
        if value.isEmpty then (rest.head?, rest.tail) else (some (String.ofList value), rest)
      else
        let (found, rest) := takeValue letter rest
        (found, arg :: rest)
    | _ =>
      let (found, rest) := takeValue letter rest
      (found, arg :: rest)

/-- Fails with what the system says about a file. -/
def State.refuse (s : State) (about : String) (e : OsError) : State :=
  (s.print 2 (about ++ ": " ++ e.words ++ "\n")).finish 1

/-! ### Printing -/

/-- Prints its arguments. -/
def echo (args : List String) (s : State) : State :=
  let (newline, args) :=
    match args with
    | "-n" :: rest => (false, rest)
    | _ => (true, args)
  let text := (" ".intercalate args).toList
  let (bytes, stop) := escaped (text.length + 1) text
  let ending : List UInt8 := if newline && !stop then [10] else []
  (s.write 1 (bytesOf (bytes ++ ending))).finish 0

/-- Prints by a format. -/
def printf (args : List String) (s : State) : State :=
  match if args.head? = some "--" then args.tail else args with
  | [] => s.complain "printf: usage: printf format [arg ...]" 2
  | format :: args =>
    let made := formatAll (args.length + 1) format.toList args
    let s := (s.write 1 (bytesOf made.bytes)).finish 0
    let s := made.complaints.foldl (fun s text => s.complain ("printf: " ++ text) 1) s
    match made.fault? with
    | some text => s.complain ("printf: " ++ text) 2
    | none => s

/-- Prints a word as often as a pipe takes it. -/
def printForever (args : List String) (s : State) : State :=
  let line := (if args.isEmpty then "y" else " ".intercalate args) ++ "\n"
  s.write 1 (bytesOf (List.replicate (262144 / line.utf8ByteSize + 1) (valueBytes line)).flatten)

/-- Prints the numbers of a range. -/
def sequence (args : List String) (s : State) : State :=
  let (first, step, last) : Int × Int × Int :=
    match args.filterMap fun a => (readSigned? (readDigits? 10) a.toList).map (·.1) with
    | [last] => (1, 1, last)
    | [first, last] => (first, 1, last)
    | [first, step, last] => (first, step, last)
    | _ => (1, 1, 0)
  let count :=
    if step = 0 then 0
    else if 0 < step then (last - first) / step + 1
    else (first - last) / (-step) + 1
  let lines := (List.range count.toNat).map fun (n : Nat) =>
    textBytes (toString (first + step * n)) ++ [10]
  s.write 1 (bytesOf lines.flatten)

/-- Judges a condition. -/
def judge (name : String) (args : List String) (s : State) : State :=
  match Condition.holds s.files args with
  | .ok holds => s.finish (if holds then 0 else 1)
  | .error fault => s.complain (name ++ ": " ++ fault.message) 2

/-! ### Files -/

/-- Makes directories, with those they lie in on request. -/
def makeDirectories (args : List String) (s : State) : State :=
  let parents := (optionLetters args).contains 'p'
  (operands args).foldl (fun s name =>
    let path := Path.ofString name
    match if parents then s.files.createDirectories path else s.files.createDirectory path with
    | .ok files => { s with files }
    | .error e => s.refuse ("mkdir: cannot create directory '" ++ name ++ "'") e) s

/-- The names that a directory lists: hidden ones, and those of the directory and the one around it,
on request. -/
def listed (files : Files) (letters : List Char) (dir : String) : List String :=
  match files.list (.ofString dir) with
  | .ok names =>
    if letters.contains 'a' then "." :: ".." :: names
    else names.filter fun n => letters.contains 'A' || n.toList.head? != some '.'
  | .error _ => [dir]

/-- Lists files and directories; the names of directories stand above their lists when there are
several. -/
def listDirectories (args : List String) (s : State) : State :=
  let letters := optionLetters args
  let names := (if (operands args).isEmpty then ["."] else operands args).mergeSort (· ≤ ·)
  let missing := names.filter fun n => !s.files.holds (.ofString n)
  let s := missing.foldl (fun s n =>
    (s.refuse ("ls: cannot access '" ++ n ++ "'") .notFound).finish 2) s
  let (dirs, files) := (names.filter (· ∉ missing)).partition fun n =>
    !letters.contains 'd' && s.files.isDirectory (.ofString n)
  let blocks := (if files.isEmpty then [] else [files]) ++ dirs.map fun dir =>
    (if names.length ≤ 1 then [] else [dir ++ ":"]) ++ listed s.files letters dir
  let between : List (List String) := List.intersperse [""] blocks
  let lines := between.flatten.map fun l => valueBytes l ++ [10]
  s.write 1 (bytesOf lines.flatten)

/-- Makes files that are missing. -/
def touch (args : List String) (s : State) : State :=
  (operands args).foldl (fun s name =>
    if s.files.holds (.ofString name) then s
    else
      match s.files.write (.ofString name) .empty with
      | .ok files => { s with files }
      | .error e => s.refuse ("touch: cannot touch '" ++ name ++ "'") e) s

/-- Removes files, and directories on request. -/
def removeFiles (args : List String) (s : State) : State :=
  let letters := optionLetters args
  let deep := letters.contains 'r' || letters.contains 'R'
  (operands args).foldl (fun s name =>
    let about := "rm: cannot remove '" ++ name ++ "'"
    let path := Path.ofString name
    if s.files.isDirectory path && !s.files.isLink path && !deep then
      s.refuse about .isADirectory
    else
      match s.files.remove path with
      | .ok files => { s with files }
      | .error e => if letters.contains 'f' then s else s.refuse about e) s

/-- Removes empty directories. -/
def removeDirectories (args : List String) (s : State) : State :=
  (operands args).foldl (fun s name =>
    let about := "rmdir: failed to remove '" ++ name ++ "'"
    let path := Path.ofString name
    match s.files.list path with
    | .error e => s.refuse about e
    | .ok (_ :: _) => s.refuse about (.worded "Directory not empty")
    | .ok [] =>
      match s.files.remove path with
      | .ok files => { s with files }
      | .error e => s.refuse about e) s

/-- Where a file goes that is put at a path: into it if it is a directory. -/
def destination (files : Files) (source target : String) : Path :=
  let path := Path.ofString target
  if files.isDirectory path then path.child (((Path.ofString source).fileName?).getD source)
  else path

/-- Puts the node of a source at a target. -/
def putNode (about : String) (source target : String) (n : Node) (s : State) :
    State :=
  match s.files.place (destination s.files source target) with
  | .ok place => { s with files := s.files.putAt place.location n }
  | .error e => s.refuse (about ++ " '" ++ target ++ "'") e

/-- Copies files, and directories on request. -/
def copyFiles (args : List String) (s : State) : State :=
  let letters := optionLetters args
  let deep := letters.contains 'r' || letters.contains 'R' || letters.contains 'a'
  let names := operands args
  names.dropLast.foldl (fun s source =>
    match s.files.node (.ofString source) with
    | .error e => s.refuse ("cp: cannot stat '" ++ source ++ "'") e
    | .ok n =>
      if n.isDirectory && !deep then
        (s.print 2 ("cp: -r not specified; omitting directory '" ++ source ++ "'\n")).finish 1
      else putNode "cp: cannot create regular file" source (names.getLastD "") n s) s

/-- Moves files and directories. -/
def moveFiles (args : List String) (s : State) : State :=
  let names := operands args
  names.dropLast.foldl (fun s source =>
    match s.files.node (.ofString source), s.files.remove (.ofString source) with
    | .ok n, .ok files =>
      let moved := putNode "mv: cannot move to" source (names.getLastD "") n { s with files }
      if moved.status = 0 then moved else { moved with files := s.files }
    | .error e, _ => s.refuse ("mv: cannot stat '" ++ source ++ "'") e
    | _, .error e => s.refuse ("mv: cannot stat '" ++ source ++ "'") e) s

/-- Makes a link to a target, which need not be there. -/
def makeLink (args : List String) (s : State) : State :=
  match operands args with
  | [target, name] =>
    match s.files.placeOfLink (destination s.files target name) with
    | .error e => s.refuse ("ln: failed to create symbolic link '" ++ name ++ "'") e
    | .ok place =>
      if place.present && !(optionLetters args).contains 'f' then
        s.refuse ("ln: failed to create symbolic link '" ++ name ++ "'") .alreadyExists
      else { s with files := s.files.putAt place.location (.link (.ofString target)) }
  | _ => s.finish 1

/-- Lets files be run, or not. -/
def changeMode (args : List String) (s : State) : State :=
  let may (mode : String) : Bool :=
    mode.toList.contains 'x' && mode.toList.contains '+' || (mode.toList.any fun c => c = '7' || c = '5')
  match args with
  | [] => s.finish 1
  | mode :: names =>
    names.foldl (fun s name =>
      match s.files.place (.ofString name), s.files.node (.ofString name) with
      | .ok place, .ok (.file content _) =>
        { s with files := s.files.putAt place.location (.file content (may mode)) }
      | .ok _, .ok _ => s
      | .error e, _ => s.refuse ("chmod: cannot access '" ++ name ++ "'") e
      | _, .error e => s.refuse ("chmod: cannot access '" ++ name ++ "'") e) s

/-- The last name of a path, without an ending. -/
def baseName (args : List String) (s : State) : State :=
  let name := ((Path.ofString (args.headD "")).fileName?).getD "/"
  let ending := ((args[1]?).getD "").toList
  let cs := name.toList
  let shown :=
    if ending.isSuffixOf cs && ending.length < cs.length then cs.take (cs.length - ending.length) else cs
  s.print 1 (String.ofList shown ++ "\n")

/-- The path without its last name. -/
def directoryName (args : List String) (s : State) : State :=
  let name := args.headD ""
  let dir := (((Path.ofString name).parent?).map Path.text).getD "/"
  s.print 1 ((if dir = "" then "." else dir) ++ "\n")

/-! ### Filters -/

/-- The bytes that a filter reads: those of the files named, or what can be read when none is. -/
def gather (name : String) (names : List String) (s : State) : List UInt8 × State :=
  if names.isEmpty then (s.input, { s with input := [] })
  else
    names.foldl (fun (bytes, s) file =>
      if file = "-" then (bytes ++ s.input, { s with input := [] })
      else
        match s.files.read (.ofString file) with
        | .ok content => (bytes ++ content.data.toList, s)
        | .error e => (bytes, s.refuse (name ++ ": " ++ file) e)) ([], s)

/-- Prints what a filter makes of the bytes it reads. -/
def pass (name : String) (f : List UInt8 → List UInt8) (names : List String)
    (s : State) : State :=
  let (bytes, s) := gather name names s
  s.write 1 (bytesOf (f bytes))

/-- Prints lines of one end of what it reads. -/
def printEnd (name : String) (args : List String) (s : State) : State :=
  let args :=
    match args with
    | first :: rest =>
      match first.toList with
      | '-' :: c :: digits =>
        if c.isDigit then "-n" :: String.ofList (c :: digits) :: rest else args
      | _ => args
    | [] => []
  let (bytes?, args) := takeValue 'c' args
  let (lines?, args) := takeValue 'n' args
  let signed := (lines?.getD "10").toList.head? = some '+'
  let amount (text : String) : Int :=
    ((readSigned? (readDigits? 10) text.toList).map (·.1)).getD 0
  let count := amount (lines?.getD "10")
  let cut (bytes : List UInt8) : List UInt8 :=
    match bytes?, name with
    | some n, "head" => bytes.take (amount n).toNat
    | some n, _ => bytes.drop (bytes.length - (amount n).natAbs)
    | none, "head" => Filter.firstLines count bytes
    | none, _ =>
      if signed then Filter.linesFrom count.natAbs bytes else Filter.lastLines count.natAbs bytes
  pass name cut args s

/-- Counts lines, words and bytes. -/
def count (args : List String) (s : State) : State :=
  let letters := optionLetters args
  let names := operands args
  let (bytes, s) := gather "wc" names s
  let counts : List (Char × Nat) :=
    [('l', bytes.count 10), ('w', Filter.wordCount bytes), ('m', bytes.length), ('c', bytes.length)]
  let wanted := if letters.isEmpty then ['l', 'w', 'c'] else letters
  let shown := counts.filter fun e => wanted.contains e.1
  let width :=
    if shown.length ≤ 1 then 0 else if names.isEmpty then 7 else (toString bytes.length).length
  let columns := shown.map fun e => (⟨[], width, none⟩ : Layout).place (textBytes (toString e.2))
  let named := columns ++ names.map valueBytes
  s.write 1 (bytesOf (List.intercalate [32] named ++ [10]))

/-- Replaces, leaves out or squeezes bytes. -/
def exchange (args : List String) (s : State) : State :=
  let letters := optionLetters args
  let sets := (operands args).map fun a => Filter.byteSet (a.length + 1) a.toList
  let first := sets.headD []
  let turned := letters.contains 'c' || letters.contains 'C'
  let inFirst (b : UInt8) : Bool := first.contains b != turned
  let from_ := if turned then (Filter.range 0 255).filter inFirst else first
  let f (bytes : List UInt8) : List UInt8 :=
    match sets[1]? with
    | none =>
      if letters.contains 'd' then Filter.without inFirst bytes else Filter.squeezed inFirst bytes
    | some target =>
      let changed := Filter.replaced from_ target bytes
      if letters.contains 's' then Filter.squeezed (target.contains ·) changed else changed
  pass "tr" f [] s

/-- Prints the chosen fields or bytes of each line. -/
def cutLines (args : List String) (s : State) : State :=
  let (separator?, args) := takeValue 'd' args
  let (fields?, args) := takeValue 'f' args
  let (columns?, args) := takeValue 'c' args
  let f (bytes : List UInt8) : List UInt8 :=
    match fields? with
    | some list => Filter.fields ((valueBytes (separator?.getD "\t")).headD 9) list bytes
    | none => Filter.columns (columns?.getD "") bytes
  pass "cut" f args s

/-- Prints the lines that hold a text. -/
def search (args : List String) (s : State) : State :=
  let letters := optionLetters args
  let pattern := valueBytes ((operands args).headD "")
  let (bytes, s) := gather "grep" (operands args).tail s
  let found := (Filter.lines bytes).filter fun line =>
    Filter.lineMatches pattern line != letters.contains 'v'
  let shown :=
    if letters.contains 'q' then []
    else if letters.contains 'c' then textBytes (toString found.length) ++ [10]
    else Filter.unlines found
  (s.write 1 (bytesOf shown)).finish (if found.isEmpty then 1 else 0)

/-- Prints what it reads, and writes it to files. -/
def tee (args : List String) (s : State) : State :=
  let bytes := bytesOf s.input
  let s := { s with input := [] }
  let s := (operands args).foldl (fun s name =>
    let path := Path.ofString name
    let before :=
      if (optionLetters args).contains 'a' then (s.files.read path).toOption.getD .empty else .empty
    match s.files.write path (before ++ bytes) with
    | .ok files => { s with files }
    | .error e => s.refuse ("tee: " ++ name) e) s
  s.write 1 bytes

/-! ### Names -/

/-- The utilities that belong to the shell itself. -/
def builtIn : List (String × Utility) :=
  [(":", fun _ s => s),
    ("true", fun _ s => s),
    ("false", fun _ s => s.finish 1),
    ("echo", echo),
    ("printf", printf),
    ("pwd", fun _ s => s.print 1 ((Files.pathOf s.files.here).text ++ "\n")),
    ("test", judge "test"),
    ("[", fun args s =>
      if args.getLast? = some "]" then judge "[" args.dropLast s
      else s.complain "[: missing ]" 2),
    ("umask", fun _ s => s.print 1 "0022\n"),
    ("wait", fun _ s => s),
    ("hash", fun _ s => s)]

/-- The utilities that are programs. -/
def installed : List (String × Utility) :=
  [("basename", baseName),
    ("cat", pass "cat" id),
    ("chmod", changeMode),
    ("cp", copyFiles),
    ("cut", cutLines),
    ("dirname", directoryName),
    ("grep", search),
    ("head", printEnd "head"),
    ("ln", makeLink),
    ("ls", listDirectories),
    ("mkdir", makeDirectories),
    ("mv", moveFiles),
    ("rev", fun args s => pass "rev" Filter.reversed args s),
    ("rm", removeFiles),
    ("rmdir", removeDirectories),
    ("seq", sequence),
    ("sleep", fun _ s => s),
    ("sort", fun args s =>
      let letters := optionLetters args
      let order := Filter.sorted (letters.contains 'n') (letters.contains 'r') (letters.contains 'u')
      pass "sort" order (operands args) s),
    ("tail", printEnd "tail"),
    ("tee", tee),
    ("touch", touch),
    ("tr", exchange),
    ("uniq", fun args s =>
      let letters := optionLetters args
      let order := Filter.runs (letters.contains 'c') (letters.contains 'd') (letters.contains 'u')
      pass "uniq" order (operands args) s),
    ("wc", count),
    ("yes", printForever)]

/-- The utility of a name, which succeeds unless it says otherwise. -/
def utility? (name : String) : Option Utility :=
  (builtIn.lookup name <|> installed.lookup name).map fun utility args s =>
    utility args (s.finish 0)

end Grove.Shell
