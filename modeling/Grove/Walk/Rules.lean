import Grove.Path
import Grove.Pattern.Regular
import Grove.Text.Bytes
import Grove.Text.Split

/-!
# Ignore rules

The lines of an ignore file. A rule is a pattern for paths below the directory of its file; a leading
`!` takes matching paths back in, a trailing `/` restricts it to directories, and a pattern without
another slash matches at any depth. Of all rules that match, the last one counts. Patterns and paths
are compared byte by byte, so that a wildcard stands for one byte.
-/

namespace Grove.Walk

open Pattern

/-- What the rules say about a path. -/
inductive Verdict where
  /-- No rule matches. -/
  | silent
  /-- The path is left out. -/
  | ignored
  /-- The path is taken in. -/
  | wanted
  deriving DecidableEq, Inhabited

namespace Verdict

/-- The first verdict, or the second where the first is silent. -/
def orElse : Verdict → Verdict → Verdict
  | silent, v => v
  | v, _ => v

end Verdict

/-- A line of an ignore file. -/
structure Rule where
  /-- What it matches. -/
  pattern : Regular
  /-- Whether it takes paths in. -/
  wants : Bool
  /-- Whether it matches directories only. -/
  directoriesOnly : Bool
  deriving Inhabited

namespace Rule

/-- A part of a rule's pattern. -/
inductive Token where
  /-- Matches what the pattern matches. -/
  | plain (r : Regular)
  /-- A path separator. -/
  | slash
  /-- Any number of components at the start. -/
  | leadingTree
  /-- Anything below, at the end. -/
  | trailingTree
  /-- Any number of components between two others. -/
  | innerTree
  deriving Inhabited

/-- The regular pattern of a token. -/
def Token.regular : Token → Regular
  | plain r => r
  | slash => .char '/'
  | leadingTree => .orElse (.optional (.char '/')) (.concat [.anything, .char '/'])
  | trailingTree => .concat [.char '/', .anything]
  | innerTree => .orElse (.char '/') (.concat [.char '/', .anything, .char '/'])

/-- The ranges of a bracketed set, last first, and the rest after its bracket. A bracket that comes
first is a member, and so is a hyphen with nothing on one side. -/
def setRanges (isFirst afterHyphen : Bool) (ranges : List (Char × Char)) :
    List Char → Option (List (Char × Char) × List Char)
  | [] => none
  | c :: rest =>
    if c = ']' ∧ isFirst = false then
      some (if afterHyphen then ('-', '-') :: ranges else ranges, rest)
    else
      match afterHyphen, ranges with
      | true, (lo, _) :: ranges =>
        if c < lo then none else setRanges false false ((lo, c) :: ranges) rest
      | _, _ =>
        if c = '-' ∧ isFirst = false then setRanges false true ranges rest
        else setRanges false false ((c, c) :: ranges) rest

/-- Reads a bracketed set after its opening bracket. -/
def readSet? (cs : List Char) : Option (CharSet × List Char) :=
  let (negated, cs) := match cs with
    | '!' :: rest => (true, rest)
    | '^' :: rest => (true, rest)
    | cs => (false, cs)
  (setRanges true false [] cs).map fun (ranges, rest) => (⟨negated, ranges⟩, rest)

/-- Two stars where no whole components can stand. -/
def twoStars (done : List Token) : List Token :=
  .plain .withinComponent :: .plain .withinComponent :: done

/-- Whether a branch between braces ends here. -/
def endsBranch (inGroup : Bool) (rest : List Char) : Bool :=
  inGroup && (rest.head? = some ',' || rest.head? = some '\x7d')

/-- Adds the token for `**` after the tokens `done`, given the rest of the pattern. -/
def addTree (inGroup : Bool) (done : List Token) (rest : List Char) : List Token × List Char :=
  match done with
  | [] =>
    match rest with
    | [] => ([.leadingTree], [])
    | '/' :: rest => ([.leadingTree], rest)
    | _ => (twoStars done, rest)
  | before :: earlier =>
    let joined (isEnd : Bool) : List Token :=
      match before with
      | .leadingTree => .leadingTree :: earlier
      | .trailingTree => .trailingTree :: earlier
      | _ => (if isEnd then .trailingTree else .innerTree) :: earlier
    match before, rest with
    | .plain _, _ => (twoStars done, rest)
    | _, [] => (joined true, [])
    | _, '/' :: rest => (joined false, rest)
    | _, _ => if endsBranch inGroup rest then (joined true, rest) else (twoStars done, rest)

/-- The pattern of tokens, last first. A tree alone is everything below. -/
def close : List Token → Regular
  | [.leadingTree] => .anything
  | tokens => .concat (tokens.reverse.map Token.regular)

/-- The branches of a group and one more, unless that is empty. -/
def addBranch (tokens : List Token) (branches : List Regular) : List Regular :=
  if tokens.isEmpty then branches else .concat (tokens.reverse.map Token.regular) :: branches

/-- A group of branches; without any it stands for nothing at all. -/
def group (branches : List Regular) : Regular :=
  if branches.isEmpty then .empty else .choice branches

/-- Reads a rule's pattern; `done` holds the tokens so far, last first, and `groups` the branches of
the open braces. -/
def readTokens? (fuel : Nat) (done : List Token) (groups : List (List Token × List Regular))
    (cs : List Char) : Option Regular :=
  match fuel, cs with
  | _, [] => if groups.isEmpty then some (close done) else none
  | 0, _ => none
  | fuel + 1, c :: rest =>
    if c = '?' then readTokens? fuel (.plain (.ofSet .anyButSlash) :: done) groups rest
    else if c = '*' then
      match rest with
      | '*' :: rest =>
        let (done, rest) := addTree (!groups.isEmpty) done rest
        readTokens? fuel done groups rest
      | _ => readTokens? fuel (.plain .withinComponent :: done) groups rest
    else if c = '[' then
      match readSet? rest with
      | some (s, rest) => readTokens? fuel (.plain (.ofSet s) :: done) groups rest
      | none => none
    else if c = '\x7b' then readTokens? fuel [] ((done, []) :: groups) rest
    else if c = '\x7d' then
      match groups with
      | [] => none
      | (outer, branches) :: groups =>
        readTokens? fuel (.plain (group (addBranch done branches)) :: outer) groups rest
    else if c = ',' then
      match groups with
      | [] => readTokens? fuel (.plain (.char ',') :: done) groups rest
      | (outer, branches) :: groups =>
        readTokens? fuel [] ((outer, addBranch done branches) :: groups) rest
    else if c = '\\' then
      match rest with
      | [] => none
      | '/' :: rest => readTokens? fuel (.slash :: done) groups rest
      | c :: rest => readTokens? fuel (.plain (.char c) :: done) groups rest
    else if c = '/' then readTokens? fuel (.slash :: done) groups rest
    else readTokens? fuel (.plain (.char c) :: done) groups rest

/-- A line without the blanks that end it; one after a backslash stays. -/
def trimmed (line : List Char) : List Char :=
  if "\\ ".toList.reverse.isPrefixOf line.reverse then line else Text.dropEndWhile Text.isBlank line

/-- Takes the leading mark off a line: whether it takes paths in, whether it starts at the directory
of the file, and the rest. -/
def marks (line : List Char) : Bool × Bool × List Char :=
  let rooted (wants : Bool) (cs : List Char) : Bool × Bool × List Char :=
    match cs with
    | '/' :: rest => (wants, true, rest)
    | _ => (wants, false, cs)
  match line with
  | '\\' :: '!' :: rest => (false, false, '!' :: rest)
  | '\\' :: '#' :: rest => (false, false, '#' :: rest)
  | '!' :: rest => rooted true rest
  | _ => rooted false line

/-- Reads a line; blank lines, comments and malformed patterns are no rules. -/
def ofLine? (line : List Char) : Option Rule :=
  if line.head? = some '#' then none
  else
    let line := trimmed line
    if line = [] then none
    else
      let (wants, rooted, body) := marks line
      let (directoriesOnly, body) :=
        match body.reverse with
        | '/' :: '\\' :: rest => (true, rest.reverse)
        | '/' :: rest => (true, rest.reverse)
        | _ => (false, body)
      let anchored :=
        if !rooted && !body.contains '/' && !"**/".toList.isPrefixOf body && body != "**".toList then
          "**/".toList ++ body
        else body
      let full := if "**/".toList.isPrefixOf anchored.reverse then anchored ++ "/*".toList else anchored
      let bytes := Text.byteChars full
      (readTokens? (bytes.length + 1) [] [] bytes).map fun pattern => ⟨pattern, wants, directoriesOnly⟩

end Rule

/-- The mark that may stand at the start of a file. -/
def byteOrderMark : Char := '\ufeff'

/-- The rules of an ignore file, first line first, up to a line that is not text. -/
def rulesOf (content : ByteArray) : List Rule :=
  match (Text.textLines (Text.byteLines content.data.toList)).map String.toList with
  | [] => []
  | first :: rest =>
    (first.dropWhile (· = byteOrderMark) :: rest).filterMap Rule.ofLine?

/-- What the rules say about a path below their directory. -/
def verdict (rules : List Rule) (relative : String) (isDirectory : Bool) : Verdict :=
  match rules.reverse.find? fun r =>
      (!r.directoriesOnly || isDirectory) && r.pattern.accepts (Text.byteChars relative.toList) with
  | some r => if r.wants then .wanted else .ignored
  | none => .silent

end Grove.Walk
