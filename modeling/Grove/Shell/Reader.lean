import Grove.Shell.Numeral
import Grove.Shell.Script
import Grove.Text.Split

/-!
# Reading shell scripts

The text of a script as commands, one for each of its lines that ends where a command can end. Each
reader takes the text that is left and answers what it read with the rest; a text that breaks the
grammar has no answer. The fuel bounds the depth of nesting and the length of the script together;
the length of the text is enough.
-/

namespace Grove.Shell

/-- A character that ends an unquoted word. -/
def endsWord (c : Char) : Bool :=
  " \t\n;&|<>()".toList.contains c

/-- A character that names start with. -/
def startsName (c : Char) : Bool :=
  c.isAlpha || c = '_'

/-- A character of a name. -/
def isNameChar (c : Char) : Bool :=
  c.isAlphanum || c = '_'

/-- A parameter of one character that is no name. -/
def isSpecialParameter (c : Char) : Bool :=
  "@*#?$!-0123456789".toList.contains c

/-- Reads the name of a parameter between braces. -/
def readParameterName (cs : List Char) : Option (String × List Char) :=
  match cs with
  | c :: rest =>
    if c.isDigit then some (String.ofList (cs.takeWhile Char.isDigit), cs.dropWhile Char.isDigit)
    else if startsName c then some (String.ofList (cs.takeWhile isNameChar), cs.dropWhile isNameChar)
    else if isSpecialParameter c then some (c.toString, rest)
    else none
  | [] => none

/-- Skips spaces, continued lines and a comment. -/
def skipSpace : List Char → List Char
  | '\\' :: '\n' :: rest => skipSpace rest
  | '#' :: rest => rest.dropWhile (· != '\n')
  | c :: rest => if isSpace c then skipSpace rest else c :: rest
  | [] => []

/-- Skips spaces, comments and line ends. -/
def skipLines (fuel : Nat) (cs : List Char) : List Char :=
  match fuel, skipSpace cs with
  | fuel + 1, '\n' :: rest => skipLines fuel rest
  | _, cs => cs

/-- The name at the start of the text. -/
def readName (cs : List Char) : Option (String × List Char) :=
  match cs with
  | c :: _ =>
    if startsName c then
      some (String.ofList (cs.takeWhile isNameChar), cs.dropWhile isNameChar)
    else none
  | [] => none

/-- The unquoted text at the start, up to anything with a meaning. -/
def isPlain (c : Char) : Bool :=
  !endsWord c && !"\\'\"$`".toList.contains c

/-- The operator that follows a parameter's name in braces. -/
def readUse (cs : List Char) : ParameterUse × List Char :=
  match cs with
  | '#' :: '#' :: rest => (.withoutStart true, rest)
  | '#' :: rest => (.withoutStart false, rest)
  | '%' :: '%' :: rest => (.withoutEnd true, rest)
  | '%' :: rest => (.withoutEnd false, rest)
  | ':' :: '-' :: rest => (.orElse true, rest)
  | '-' :: rest => (.orElse false, rest)
  | ':' :: '=' :: rest => (.orAssign true, rest)
  | '=' :: rest => (.orAssign false, rest)
  | ':' :: '+' :: rest => (.whenSet true, rest)
  | '+' :: rest => (.whenSet false, rest)
  | ':' :: '?' :: rest => (.orFail true, rest)
  | '?' :: rest => (.orFail false, rest)
  | rest => (.value, rest)

/-- Whether the word of a use is a pattern. -/
def ParameterUse.takesPattern : ParameterUse → Bool
  | .withoutStart _ => true
  | .withoutEnd _ => true
  | _ => false

/-- The words that may not start a simple command. -/
def reservedWords : List String :=
  ["then", "else", "elif", "fi", "do", "done", "esac", "\x7d"]

/-- What follows a reserved word at the start of the text. -/
def dropReserved? (name : String) (cs : List Char) : Option (List Char) :=
  match Text.dropStart? name.toList cs with
  | some rest => if rest.head?.all endsWord then some rest else none
  | none => none

/-- A word whose tilde at the start, if it stands alone or before a slash, is the home directory. -/
def withHome (word : List Piece) : List Piece :=
  let home : Piece := .parameter "HOME" (.orElse false) [.text ['~'] true] true
  match word with
  | [.text ['~'] false] => [home]
  | .text ('~' :: '/' :: rest) false :: others => home :: .text ('/' :: rest) false :: others
  | _ => word

/-- The text of a command between backquotes, with what follows it. Inside, a backslash takes the
meaning from a few characters. -/
def readBackquoted (quoted : Bool) : List Char → Option (List Char × List Char)
  | [] => none
  | '`' :: rest => some ([], rest)
  | '\\' :: c :: rest =>
    (readBackquoted quoted rest).map fun (inner, rest) =>
      if c = '$' ∨ c = '`' ∨ c = '\\' ∨ (quoted ∧ c = '"') then (c :: inner, rest)
      else ('\\' :: c :: inner, rest)
  | c :: rest => (readBackquoted quoted rest).map fun (inner, rest) => (c :: inner, rest)

/-- The word that ends a text inside a script, without its quotes. -/
def readDelimiter (cs : List Char) : List Char × Bool × List Char :=
  let word := cs.takeWhile (!endsWord ·)
  let isQuote (c : Char) : Bool := "'\"\\".toList.contains c
  (word.filter (!isQuote ·), word.any isQuote, cs.dropWhile (!endsWord ·))

/-- The lines up to one that is the delimiter, with the text after it. -/
def readLinesTo (fuel : Nat) (tabs : Bool) (delimiter cs : List Char) : List Char × List Char :=
  match fuel, cs with
  | 0, _ => ([], cs)
  | _, [] => ([], [])
  | fuel + 1, _ =>
    let line := cs.takeWhile (· != '\n')
    let line := if tabs then line.dropWhile (· = '\t') else line
    let rest := (cs.dropWhile (· != '\n')).drop 1
    if line = delimiter then ([], rest)
    else
      let (lines, rest) := readLinesTo fuel tabs delimiter rest
      (line ++ '\n' :: lines, rest)

/-- Whether a redirection starts here. -/
def startsRedirection (cs : List Char) : Bool :=
  match cs.dropWhile Char.isDigit with
  | c :: _ => c = '<' || c = '>'
  | [] => false

/-- Takes a redirection operator: its descriptor, its kind and the rest. -/
def readRedirection? (cs : List Char) : Option (Nat × RedirectionKind × List Char) :=
  let digits := cs.takeWhile Char.isDigit
  let given? : Option Nat := (String.ofList digits).toNat?
  match cs.dropWhile Char.isDigit with
  | '>' :: '>' :: rest => some (given?.getD 1, .append, rest)
  | '>' :: '&' :: rest => some (given?.getD 1, .duplicate, rest)
  | '>' :: '|' :: rest => some (given?.getD 1, .output, rest)
  | '>' :: rest => some (given?.getD 1, .output, rest)
  | '<' :: '<' :: rest => some (given?.getD 0, .here, rest)
  | '<' :: rest => some (given?.getD 0, .input, rest)
  | _ => none

/-- The name of a function at the start of its definition. -/
def readFunctionName? (cs : List Char) : Option (String × List Char) :=
  match readName cs with
  | some (name, rest) =>
    match skipSpace rest with
    | '(' :: rest =>
      match skipSpace rest with
      | ')' :: rest => some (name, rest)
      | _ => none
    | _ => none
  | none => none

mutual

/-- Reads what follows a dollar sign. -/
def readParameter (fuel : Nat) (quoted : Bool) (cs : List Char) : Option (Piece × List Char) :=
  match fuel with
  | 0 => none
  | fuel + 1 =>
    match cs with
    | '(' :: '(' :: rest => do
      let (expression, rest) ← readSum fuel 0 rest
      some (.sum expression quoted, rest)
    | '(' :: rest => do
      let (command, rest) ← readList fuel true rest
      match skipLines fuel rest with
      | ')' :: rest => some (.output command quoted, rest)
      | _ => none
    | '\x7b' :: '#' :: c :: rest =>
      if c = '\x7d' then some (.parameter "#" .value [] quoted, rest)
      else do
        let (name, rest) ← readParameterName (c :: rest)
        match rest with
        | '\x7d' :: rest => some (.parameter name .length [] quoted, rest)
        | _ => none
    | '\x7b' :: rest => do
      let (name, rest) ← readParameterName rest
      let (use, rest) := readUse rest
      let (word, rest) ← readUpToBrace fuel (quoted && !use.takesPattern) rest
      if use = .value ∧ !word.isEmpty then none else some (.parameter name use word quoted, rest)
    | c :: _ =>
      if startsName c then do
        let (name, rest) ← readName cs
        some (.parameter name .value [] quoted, rest)
      else if isSpecialParameter c then some (.parameter c.toString .value [] quoted, cs.tail)
      else some (.text ['$'] quoted, cs)
    | [] => some (.text ['$'] quoted, [])

/-- Reads a word up to the brace that closes it. Inside double quotes, these can be closed and opened
again in the word. -/
def readUpToBrace (fuel : Nat) (quoted : Bool) (cs : List Char) : Option (List Piece × List Char) :=
  match fuel with
  | 0 => none
  | fuel + 1 =>
    match cs with
    | [] => none
    | '\x7d' :: rest => some ([], rest)
    | c :: rest =>
      if quoted ∧ c = '"' then readUpToBrace fuel quoted rest
      else if isPlain c || endsWord c || (quoted && c = '\'') then
        (readUpToBrace fuel quoted rest).map fun (pieces, rest) => (.text [c] quoted :: pieces, rest)
      else do
        let (piece, rest) ← if quoted then readQuotedPiece fuel cs else readPiece fuel cs
        let (pieces, rest) ← readUpToBrace fuel quoted rest
        some (piece ++ pieces, rest)

/-- Reads an arithmetic expression up to the two parentheses that close it. -/
def readSum (fuel depth : Nat) (cs : List Char) : Option (List Piece × List Char) :=
  match fuel with
  | 0 => none
  | fuel + 1 =>
    match cs with
    | [] => none
    | ')' :: rest =>
      match depth, rest with
      | 0, ')' :: rest => some ([], rest)
      | 0, _ => none
      | depth + 1, _ =>
        (readSum fuel depth rest).map fun (pieces, rest) => (.text [')'] false :: pieces, rest)
    | '(' :: rest =>
      (readSum fuel (depth + 1) rest).map fun (pieces, rest) => (.text ['('] false :: pieces, rest)
    | c :: rest =>
      if c = '$' ∨ c = '`' then do
        let (piece, rest) ← readQuotedPiece fuel cs
        let (pieces, rest) ← readSum fuel depth rest
        some (piece ++ pieces, rest)
      else
        (readSum fuel depth rest).map fun (pieces, rest) => (.text [c] false :: pieces, rest)

/-- Reads a command between backquotes. -/
def readBackquotes (fuel : Nat) (quoted : Bool) (cs : List Char) : Option (Piece × List Char) :=
  match fuel with
  | 0 => none
  | fuel + 1 => do
    let (inner, rest) ← readBackquoted quoted cs
    match ← readList fuel true inner with
    | (command, []) => some (.output command quoted, rest)
    | _ => none

/-- Reads a piece as it stands inside double quotes. -/
def readQuotedPiece (fuel : Nat) (cs : List Char) : Option (List Piece × List Char) :=
  match fuel with
  | 0 => none
  | fuel + 1 =>
    match cs with
    | [] => none
    | '\\' :: '\n' :: rest => some ([], rest)
    | '\\' :: c :: rest =>
      some ([.text (if "$`\"\\".toList.contains c then [c] else ['\\', c]) true], rest)
    | '$' :: rest => (readParameter fuel true rest).map fun (piece, rest) => ([piece], rest)
    | '`' :: rest => (readBackquotes fuel true rest).map fun (piece, rest) => ([piece], rest)
    | c :: rest => some ([.text [c] true], rest)

/-- Reads the inside of double quotes up to the closing one; or, where no quote closes the text, all
of it. -/
def readQuoted (fuel : Nat) (closed : Bool) (cs : List Char) : Option (List Piece × List Char) :=
  match fuel with
  | 0 => none
  | fuel + 1 =>
    match cs with
    | [] => if closed then none else some ([], [])
    | c :: rest =>
      if closed ∧ c = '"' then some ([], rest)
      else do
        let (piece, rest) ← readQuotedPiece fuel cs
        let (pieces, rest) ← readQuoted fuel closed rest
        some (piece ++ pieces, rest)

/-- Reads a quoted or expanded piece of a word. -/
def readPiece (fuel : Nat) (cs : List Char) : Option (List Piece × List Char) :=
  match fuel with
  | 0 => none
  | fuel + 1 =>
    match cs with
    | '\\' :: '\n' :: rest => some ([], rest)
    | '\\' :: c :: rest => some ([.text [c] true], rest)
    | '\'' :: rest =>
      match rest.dropWhile (· != '\'') with
      | _ :: after => some ([.text (rest.takeWhile (· != '\'')) true], after)
      | [] => none
    | '"' :: rest =>
      (readQuoted fuel true rest).map fun (pieces, rest) =>
        (if pieces.isEmpty then [.text [] true] else pieces, rest)
    | '$' :: rest => (readParameter fuel false rest).map fun (piece, rest) => ([piece], rest)
    | '`' :: rest => (readBackquotes fuel false rest).map fun (piece, rest) => ([piece], rest)
    | c :: rest => some ([.text [c] false], rest)
    | [] => none

/-- Reads the rest of a word. -/
def readWord (fuel : Nat) (cs : List Char) : Option (Word × List Char) :=
  match fuel with
  | 0 => none
  | fuel + 1 =>
    match cs with
    | [] => some ([], [])
    | c :: rest =>
      if endsWord c then some ([], c :: rest)
      else if isPlain c then do
        let plain := cs.takeWhile isPlain
        let (pieces, rest) ← readWord fuel (cs.dropWhile isPlain)
        some (.text plain false :: pieces, rest)
      else do
        let (piece, rest) ← readPiece fuel cs
        let (pieces, rest) ← readWord fuel rest
        some (piece ++ pieces, rest)

/-- Reads words up to anything that ends a command. -/
def readWords (fuel : Nat) (cs : List Char) : Option (List Word × List Char) :=
  match fuel with
  | 0 => none
  | fuel + 1 =>
    let cs := skipSpace cs
    match cs with
    | [] => some ([], [])
    | c :: _ =>
      if endsWord c then some ([], cs)
      else do
        let (word, rest) ← readWord fuel cs
        let (words, rest) ← readWords fuel rest
        some (withHome word :: words, rest)

/-- Reads redirections. The text that a delimiter ends starts on the next line. -/
def readRedirections (fuel : Nat) (cs : List Char) : Option (List Redirection × List Char) :=
  match fuel with
  | 0 => none
  | fuel + 1 =>
    match readRedirection? (skipSpace cs) with
    | none => some ([], cs)
    | some (descriptor, .here, rest) => do
      let tabs := rest.head? = some '-'
      let (delimiter, quoted, rest) := readDelimiter (skipSpace (if tabs then rest.tail else rest))
      let after := (rest.dropWhile (· != '\n')).drop 1
      let (text, after) := readLinesTo (after.length + 1) tabs delimiter after
      let (pieces, _) ← if quoted then some ([.text text true], []) else readQuoted fuel false text
      let (others, rest) ← readRedirections fuel (rest.takeWhile (· != '\n') ++ '\n' :: after)
      some (.mk descriptor .here pieces :: others, rest)
    | some (descriptor, kind, rest) => do
      let (word, rest) ← readWord fuel (skipSpace rest)
      if word.isEmpty then none
      else
        let (others, rest) ← readRedirections fuel rest
        some (.mk descriptor kind (withHome word) :: others, rest)

/-- Reads the rest of a simple command, which is not empty; assignments count as long as no word
came. -/
def readSimple (fuel : Nat) (cs : List Char) (assignments : List (String × List Piece))
    (words : List Word) (redirections : List Redirection) : Option (Command × List Char) :=
  match fuel with
  | 0 => none
  | fuel + 1 =>
    let cs := skipSpace cs
    let finish : Option (Command × List Char) :=
      let command := Command.simple assignments.reverse words.reverse
      if redirections.isEmpty then
        if assignments.isEmpty ∧ words.isEmpty then none else some (command, cs)
      else some (.redirected command redirections.reverse, cs)
    if startsRedirection cs then do
      let (more, rest) ← readRedirections fuel cs
      readSimple fuel rest assignments words (more.reverse ++ redirections)
    else
      match cs with
      | [] => finish
      | c :: _ =>
        if endsWord c then finish
        else
          match readName cs with
          | some (name, '=' :: rest) =>
            if words.isEmpty then do
              let (value, rest) ← readWord fuel rest
              readSimple fuel rest ((name, withHome value) :: assignments) words redirections
            else do
              let (word, rest) ← readWord fuel cs
              readSimple fuel rest assignments (word :: words) redirections
          | _ => do
            let (word, rest) ← readWord fuel cs
            readSimple fuel rest assignments (withHome word :: words) redirections

/-- Reads commands of which there has to be one. -/
def readSome (fuel : Nat) (cs : List Char) : Option (Command × List Char) :=
  match fuel with
  | 0 => none
  | fuel + 1 =>
    match readList fuel true cs with
    | some (.nothing, _) => none
    | read => read

/-- Reads commands up to a reserved word, which is dropped. -/
def readUntil (fuel : Nat) (name : String) (cs : List Char) : Option (Command × List Char) :=
  match fuel with
  | 0 => none
  | fuel + 1 => do
    let (command, rest) ← readSome fuel cs
    let rest ← dropReserved? name (skipLines fuel rest)
    some (command, rest)

/-- Reads the branches after the condition of a choice. -/
def readBranches (fuel : Nat) (cs : List Char) : Option (Command × List Char) :=
  match fuel with
  | 0 => none
  | fuel + 1 => do
    let (condition, rest) ← readUntil fuel "then" cs
    let (yes, rest) ← readSome fuel rest
    let rest := skipLines fuel rest
    match dropReserved? "elif" rest with
    | some rest =>
      let (no, rest) ← readBranches fuel rest
      some (.choice condition yes no, rest)
    | none =>
      match dropReserved? "else" rest with
      | some rest =>
        let (no, rest) ← readUntil fuel "fi" rest
        some (.choice condition yes no, rest)
      | none =>
        let rest ← dropReserved? "fi" rest
        some (.choice condition yes .nothing, rest)

/-- Reads the patterns of an arm up to the closing parenthesis. -/
def readPatterns (fuel : Nat) (cs : List Char) : Option (List Word × List Char) :=
  match fuel with
  | 0 => none
  | fuel + 1 => do
    let (word, rest) ← readWord fuel (skipSpace cs)
    match skipSpace rest with
    | ')' :: rest => some ([word], rest)
    | '|' :: rest =>
      let (words, rest) ← readPatterns fuel rest
      some (word :: words, rest)
    | _ => none

/-- Reads the arms of a selection. -/
def readArms (fuel : Nat) (cs : List Char) : Option (List (List Word × Command) × List Char) :=
  match fuel with
  | 0 => none
  | fuel + 1 =>
    let cs := skipLines fuel cs
    match dropReserved? "esac" cs with
    | some rest => some ([], rest)
    | none => do
      let cs := if cs.head? = some '(' then cs.tail else cs
      let (patterns, rest) ← readPatterns fuel cs
      let (command, rest) ← readList fuel true rest
      match skipLines fuel rest with
      | ';' :: ';' :: rest =>
        let (arms, rest) ← readArms fuel rest
        some ((patterns, command) :: arms, rest)
      | rest =>
        let rest ← dropReserved? "esac" rest
        some ([(patterns, command)], rest)

/-- Reads a command that is neither a list nor a pipeline. -/
def readCommand (fuel : Nat) (cs : List Char) : Option (Command × List Char) :=
  match fuel with
  | 0 => none
  | fuel + 1 => do
    let cs := skipSpace cs
    let compound : Option (Option (Command × List Char)) :=
      match dropReserved? "if" cs with
      | some rest => some (readBranches fuel rest)
      | none =>
        match dropReserved? "while" cs with
        | some rest => some (do
          let (condition, rest) ← readUntil fuel "do" rest
          let (body, rest) ← readUntil fuel "done" rest
          some (.loop condition body false, rest))
        | none =>
          match dropReserved? "until" cs with
          | some rest => some (do
            let (condition, rest) ← readUntil fuel "do" rest
            let (body, rest) ← readUntil fuel "done" rest
            some (.loop condition body true, rest))
          | none =>
            match dropReserved? "for" cs with
            | some rest => some (readEach fuel rest)
            | none =>
              match dropReserved? "case" cs with
              | some rest => some (do
                let (word, rest) ← readWord fuel (skipSpace rest)
                let rest ← dropReserved? "in" (skipLines fuel rest)
                let (arms, rest) ← readArms fuel rest
                some (.select word arms, rest))
              | none =>
                match dropReserved? "\x7b" cs with
                | some rest => some (readUntil fuel "\x7d" rest)
                | none =>
                  match cs with
                  | '(' :: rest => some (do
                    let (command, rest) ← readSome fuel rest
                    match skipLines fuel rest with
                    | ')' :: rest => some (.subshell command, rest)
                    | _ => none)
                  | _ => none
    match compound with
    | some result =>
      let (command, rest) ← result
      let (redirections, rest) ← readRedirections fuel rest
      some (if redirections.isEmpty then command else .redirected command redirections, rest)
    | none =>
      if reservedWords.any fun name => (dropReserved? name cs).isSome then none
      else
        match readFunctionName? cs with
        | some (name, rest) =>
          (readCommand fuel (skipLines fuel rest)).map fun (body, rest) => (.define name body, rest)
        | none => readSimple fuel cs [] [] []

/-- Reads the rest of a loop over words. -/
def readEach (fuel : Nat) (cs : List Char) : Option (Command × List Char) :=
  match fuel with
  | 0 => none
  | fuel + 1 => do
    let (name, rest) ← readName (skipSpace cs)
    let rest := skipLines fuel rest
    let (words, rest) ←
      match dropReserved? "in" rest with
      | some rest => (readWords fuel rest).map fun (words, rest) => (some words, rest)
      | none => some (none, rest)
    let rest := skipSpace rest
    let rest := if rest.head? = some ';' then rest.tail else rest
    let rest ← dropReserved? "do" (skipLines fuel rest)
    let (body, rest) ← readUntil fuel "done" rest
    some (.each name words body, rest)

/-- Reads commands joined by bars. -/
def readPipeline (fuel : Nat) (cs : List Char) : Option (Command × List Char) :=
  match fuel with
  | 0 => none
  | fuel + 1 =>
    match dropReserved? "!" (skipSpace cs) with
    | some rest => (readPipeline fuel rest).map fun (command, rest) => (.negated command, rest)
    | none => do
      let (first, rest) ← readCommand fuel cs
      match skipSpace rest with
      | '|' :: '|' :: rest => some (first, '|' :: '|' :: rest)
      | '|' :: rest =>
        let (second, rest) ← readPipeline fuel (skipLines fuel rest)
        some (.pipe first second, rest)
      | rest => some (first, rest)

/-- Reads what follows a pipeline by success or failure. -/
def readJoined (fuel : Nat) (first : Command) (cs : List Char) : Option (Command × List Char) :=
  match fuel with
  | 0 => none
  | fuel + 1 =>
    match skipSpace cs with
    | '&' :: '&' :: rest => do
      let (second, rest) ← readPipeline fuel (skipLines fuel rest)
      readJoined fuel (.andThen first second) rest
    | '|' :: '|' :: rest => do
      let (second, rest) ← readPipeline fuel (skipLines fuel rest)
      readJoined fuel (.orElse first second) rest
    | rest => some (first, rest)

/-- Reads commands one after the other, up to whatever closes the list; a line end closes it unless
`onward`. -/
def readList (fuel : Nat) (onward : Bool) (cs : List Char) : Option (Command × List Char) :=
  match fuel with
  | 0 => none
  | fuel + 1 =>
    let cs := if onward then skipLines fuel cs else skipSpace cs
    if cs.isEmpty ∨ cs.head? = some ')' ∨ cs.head? = some ';' ∨ cs.head? = some '\n' ∨
        reservedWords.any (fun name => (dropReserved? name cs).isSome) then some (.nothing, cs)
    else do
      let (first, rest) ← readPipeline fuel cs
      let (first, rest) ← readJoined fuel first rest
      let next (first : Command) (rest : List Char) : Option (Command × List Char) :=
        match readList fuel onward rest with
        | some (.nothing, rest) => some (first, rest)
        | some (second, rest) => some (.seq first second, rest)
        | none => none
      match skipSpace rest with
      | ';' :: ';' :: rest => some (first, ';' :: ';' :: rest)
      | ';' :: rest => next first rest
      | '&' :: rest => next (.background first) rest
      | '\n' :: rest => if onward then next first rest else some (first, '\n' :: rest)
      | rest => some (first, rest)

end

/-- Reads the lines of a script. -/
def readScript (fuel : Nat) (cs : List Char) : Script :=
  match fuel with
  | 0 => ⟨[], true⟩
  | fuel + 1 =>
    match skipLines fuel cs with
    | [] => ⟨[], false⟩
    | cs =>
      match readList fuel false cs with
      | some (command, []) => ⟨[command], false⟩
      | some (command, '\n' :: rest) =>
        let after := readScript fuel rest
        ⟨command :: after.commands, after.broken⟩
      | _ => ⟨[], true⟩

/-- The script of a text. -/
def Script.ofString (text : String) : Script :=
  readScript (8 * text.toList.length + 8) text.toList

end Grove.Shell
