import Grove.Failure
import Grove.Pattern.Regular
import Grove.Text.Uppercase

/-!
# Globs

Patterns for relative paths. `*` and `$` match any text within a component, `?` one character of it,
`[a-c]` and `[!a]` one character of a set, `**` any number of whole components, `{a,b}` either of
its branches, `<a:1,3>` its inside repeated, and `(?i)` makes the letters that follow match in either
case. A pattern is read into tokens, checked for tokens that must not meet, and made a regular
pattern.
-/

namespace Grove.Pattern

/-- A part of a glob. -/
inductive GlobToken where
  /-- A character, in either case when `folded`. -/
  | literal (c : Char) (folded : Bool)
  /-- The path separator. -/
  | separator
  /-- Any one character of a component. -/
  | one
  /-- Any text of a component. -/
  | many
  /-- Any number of components; `rooted` when a separator stands before it. -/
  | tree (rooted : Bool)
  /-- One character of a set. -/
  | set (s : CharSet)
  /-- Any of the branches. -/
  | choice (branches : List (List GlobToken))
  /-- The inside repeated. -/
  | repetition (inner : List GlobToken) (lower : Nat) (upper? : Option Nat)
  deriving Inhabited

namespace Glob

/-- What is left to read and whether letters match in either case. -/
structure Reader where
  /-- The rest of the pattern. -/
  rest : List Char
  /-- Whether letters match in either case from here on. -/
  folded : Bool
  deriving Inhabited

/-- The characters that stand for themselves only after a backslash. -/
def metaCharacters : List Char :=
  "?*$:<>()[]\x7b\x7d,\\".toList

/-- Reads the toggles of `(?i)` or `(?-i)` up to the closing parenthesis; the last one counts. -/
def readToggles : List Char → Option Reader
  | 'i' :: ')' :: rest => some ⟨rest, true⟩
  | '-' :: 'i' :: ')' :: rest => some ⟨rest, false⟩
  | 'i' :: rest => readToggles rest
  | '-' :: 'i' :: rest => readToggles rest
  | _ => none

/-- Reads a bracketed flag, if one stands here. -/
def readFlag? (r : Reader) : Option Reader :=
  match r.rest with
  | '(' :: '?' :: rest => readToggles rest
  | _ => none

/-- Reads a character of a set. -/
def readSetChar? : List Char → Option (Char × List Char)
  | '\\' :: c :: rest => if c ∈ "[]-\\".toList then some (c, rest) else none
  | c :: rest => if c ∈ "[]-\\".toList then none else some (c, rest)
  | [] => none

/-- Reads the ranges of a set, at most `fuel` of them. -/
def readRanges : Nat → List Char → List (Char × Char) × List Char
  | 0, cs => ([], cs)
  | fuel + 1, cs =>
    match readSetChar? cs with
    | none => ([], cs)
    | some (lo, rest) =>
      let (range, rest) :=
        match rest with
        | '-' :: more =>
          match readSetChar? more with
          | some (hi, rest') => ((lo, hi), rest')
          | none => ((lo, lo), rest)
        | _ => ((lo, lo), rest)
      let (ranges, rest) := readRanges fuel rest
      (range :: ranges, rest)

/-- Reads a set after its opening bracket. -/
def readSet? (cs : List Char) : Option (CharSet × List Char) :=
  let (negated, cs) :=
    match cs with
    | '!' :: rest => (true, rest)
    | _ => (false, cs)
  match readRanges cs.length cs with
  | ([], _) => none
  | (ranges, ']' :: rest) => if ranges.all (fun (lo, hi) => lo ≤ hi) then some (⟨negated, ranges⟩, rest) else none
  | _ => none

/-- Reads decimal digits. -/
def readNumber? (cs : List Char) : Option (Nat × List Char) :=
  match cs.takeWhile Char.isDigit with
  | [] => none
  | digits => (String.ofList digits).toNat?.map fun n => (n, cs.dropWhile Char.isDigit)

/-- Reads the bounds of a repetition: none means any number, a colon alone at least one. -/
def readBounds (cs : List Char) : (Nat × Option Nat) × List Char :=
  match cs with
  | ':' :: rest =>
    match readNumber? rest with
    | none => ((1, none), rest)
    | some (lower, ',' :: rest) =>
      match readNumber? rest with
      | some (upper, rest) => ((lower, some upper), rest)
      | none => ((lower, none), rest)
    | some (n, rest) => ((n, some n), rest)
  | _ => ((0, none), cs)

/-- Whether the list starts with one of the characters, or ends where `endStops`. -/
def stopsAt (stops : List Char) (endStops : Bool) : List Char → Bool
  | [] => endStops
  | c :: _ => c ∈ stops

/-- Reads `**` where whole components may stand. -/
def readTree? (stops : List Char) (endStops atStart : Bool) (cs : List Char) :
    Option (GlobToken × List Char) :=
  let afterStars (rooted : Bool) (rest : List Char) : Option (GlobToken × List Char) :=
    match rest with
    | '/' :: rest => some (.tree rooted, rest)
    | _ => if stopsAt stops endStops rest then some (.tree rooted, rest) else none
  match cs with
  | '/' :: '*' :: '*' :: rest => afterStars true rest
  | '*' :: '*' :: rest => if atStart then afterStars false rest else none
  | _ => none

/-- Reads a token that holds no other tokens. -/
def readPlain? (stops : List Char) (endStops atStart : Bool) (r : Reader) :
    Option (GlobToken × Reader) :=
  match readTree? stops endStops atStart r.rest with
  | some (token, rest) => some (token, { r with rest })
  | none =>
    match r.rest with
    | [] => none
    | '?' :: rest => some (.one, { r with rest })
    | '/' :: rest => some (.separator, { r with rest })
    | '[' :: rest => (readSet? rest).map fun (s, rest) => (.set s, { r with rest })
    | '\\' :: c :: rest =>
      if c ∈ metaCharacters then some (.literal c r.folded, { r with rest }) else none
    | c :: rest =>
      if c = '*' ∨ c = '$' then
        match rest with
        | [] => if endStops then some (.many, { r with rest }) else none
        | next :: _ => if next = '*' ∨ next = '$' then none else some (.many, { r with rest })
      else if c ∈ metaCharacters then none
      else some (.literal c r.folded, { r with rest })

mutual

/-- Reads one token, after any flags in front of it. -/
def readToken? (fuel : Nat) (stops : List Char) (endStops atStart : Bool) (r : Reader) :
    Option (GlobToken × Reader) :=
  match fuel with
  | 0 => none
  | fuel + 1 =>
    match readFlag? r with
    | some r => readToken? fuel stops endStops false r
    | none =>
      match r.rest with
      | '\x7b' :: rest => readBranches? fuel { r with rest }
      | '<' :: rest =>
        match readTokens? fuel [':', '>'] false false { r with rest } with
        | none => none
        | some (inner, r) =>
          match readBounds r.rest with
          | ((lower, upper?), '>' :: rest) => some (.repetition inner lower upper?, { r with rest })
          | _ => none
      | _ => readPlain? stops endStops atStart r

/-- Reads the branches of a choice up to its closing brace. -/
def readBranches? (fuel : Nat) (r : Reader) : Option (GlobToken × Reader) :=
  match fuel with
  | 0 => none
  | fuel + 1 =>
    match readTokens? fuel [',', '\x7d'] false false r with
    | none => none
    | some (branch, r) =>
      match r.rest with
      | '\x7d' :: rest => some (.choice [branch], { r with rest })
      | ',' :: rest =>
        match readBranches? fuel { r with rest } with
        | some (.choice branches, r) => some (.choice (branch :: branches), r)
        | _ => none
      | _ => none

/-- Reads tokens, at least one, up to a stop. -/
def readTokens? (fuel : Nat) (stops : List Char) (endStops atStart : Bool) (r : Reader) :
    Option (List GlobToken × Reader) :=
  match fuel with
  | 0 => none
  | fuel + 1 =>
    match readToken? fuel stops endStops atStart r with
    | none => none
    | some (token, r) =>
      if stopsAt stops endStops r.rest then some ([token], r)
      else
        match readTokens? fuel stops endStops false r with
        | none => none
        | some (tokens, r) => some (token :: tokens, r)

end

/-! ### Tokens that must not meet -/

/-- Whether the token stands between components. -/
def isBoundary : GlobToken → Bool
  | .separator => true
  | .tree _ => true
  | _ => false

/-- Whether the token matches any text of a component. -/
def isMany : GlobToken → Bool
  | .many => true
  | _ => false

mutual

/-- Whether a token, or one that a group starts with, satisfies `p`. -/
def starts (p : GlobToken → Bool) : GlobToken → Bool
  | .choice branches => branchesStart p branches
  | .repetition inner _ _ => firstStarts p inner
  | .literal c f => p (.literal c f)
  | .separator => p .separator
  | .one => p .one
  | .many => p .many
  | .tree rooted => p (.tree rooted)
  | .set s => p (.set s)

/-- Whether the first token of a list starts so. -/
def firstStarts (p : GlobToken → Bool) : List GlobToken → Bool
  | [] => false
  | t :: _ => starts p t

/-- Whether a branch starts so. -/
def branchesStart (p : GlobToken → Bool) : List (List GlobToken) → Bool
  | [] => false
  | b :: bs => firstStarts p b || branchesStart p bs

end

mutual

/-- Whether a token, or one that a group ends with, satisfies `p`. -/
def ends (p : GlobToken → Bool) : GlobToken → Bool
  | .choice branches => branchesEnd p branches
  | .repetition inner _ _ => lastEnds p inner
  | .literal c f => p (.literal c f)
  | .separator => p .separator
  | .one => p .one
  | .many => p .many
  | .tree rooted => p (.tree rooted)
  | .set s => p (.set s)

/-- Whether the last token of a list ends so. -/
def lastEnds (p : GlobToken → Bool) : List GlobToken → Bool
  | [] => false
  | [t] => ends p t
  | _ :: u :: rest => lastEnds p (u :: rest)

/-- Whether a branch ends so. -/
def branchesEnd (p : GlobToken → Bool) : List (List GlobToken) → Bool
  | [] => false
  | b :: bs => lastEnds p b || branchesEnd p bs

end

/-- Whether two tokens between components follow each other. -/
def boundariesMeet : List GlobToken → Bool
  | a :: b :: rest => (isBoundary a && isBoundary b) || boundariesMeet (b :: rest)
  | _ => false

/-- What stands before and after a group. -/
structure Around where
  /-- The token before, if any. -/
  left? : Option GlobToken
  /-- The token after, if any. -/
  right? : Option GlobToken

/-- Whether the inside of a group meets what stands around it. -/
def groupMeets (around : Around) (inner : List GlobToken) : Bool :=
  let before (p : GlobToken → Bool) : Bool := (around.left?.map (ends p)).getD false
  let after (p : GlobToken → Bool) : Bool := (around.right?.map (starts p)).getD false
  (before isBoundary && firstStarts isBoundary inner) ||
    (after isBoundary && lastEnds isBoundary inner) ||
    (before isMany && firstStarts isMany inner) ||
    (after isMany && lastEnds isMany inner)

/-- Whether the first token makes the text start with a separator. -/
def isRooted : List GlobToken → Bool
  | .separator :: _ => true
  | .tree true :: _ => true
  | _ => false

/-- Whether a branch must not stand in its choice. -/
def badBranch (around : Around) (inner : List GlobToken) : Bool :=
  groupMeets around inner ||
    (match inner with
    | [.tree _] => true
    | _ => false) ||
    (around.left?.isNone && isRooted inner)

/-- Whether tokens must not be repeated. -/
def badRepetition (around : Around) (inner : List GlobToken) (lower : Nat) : Bool :=
  groupMeets around inner ||
    (match inner with
    | [.tree _] => true
    | [.many] => true
    | [.separator] => true
    | _ => false) ||
    (around.left?.isNone && lower = 0 && isRooted inner) ||
    (inner.length > 1 &&
      ((firstStarts isBoundary inner && lastEnds isBoundary inner) ||
        (firstStarts isMany inner && lastEnds isMany inner)))

/-- The token that a group sees beside it: its neighbour, else what the group around it sees. -/
def neighbour (here? beyond? : Option GlobToken) : Option GlobToken :=
  here? <|> beyond?

mutual

/-- Whether a list of tokens, or one inside it, breaks a rule. -/
def breaksRule (outer : Around) (left? : Option GlobToken) : List GlobToken → Bool
  | [] => false
  | token :: rest =>
    tokenBreaksRule ⟨neighbour left? outer.left?, neighbour rest.head? outer.right?⟩ token ||
      breaksRule outer (some token) rest

/-- Whether a group breaks a rule. -/
def tokenBreaksRule (around : Around) : GlobToken → Bool
  | .choice branches => branchBreaksRule around branches
  | .repetition inner lower upper? =>
    boundariesMeet inner ||
      (match upper? with
      | some upper => upper = 0 || upper < lower
      | none => false) ||
      badRepetition around inner lower || breaksRule around none inner
  | _ => false

/-- Whether a branch of a choice breaks a rule. -/
def branchBreaksRule (around : Around) : List (List GlobToken) → Bool
  | [] => false
  | branch :: rest =>
    boundariesMeet branch || badBranch around branch || breaksRule around none branch ||
      branchBreaksRule around rest

end

/-! ### The regular pattern of a glob -/

/-- Where a token stands in its list. -/
inductive Position where
  /-- It has a token after it only. -/
  | first
  /-- It has tokens on both sides. -/
  | middle
  /-- It has a token before it only. -/
  | last
  /-- It stands alone. -/
  | only
  deriving DecidableEq

/-- The position of a token with or without tokens before and after it. -/
def Position.of (before after : Bool) : Position :=
  match before, after with
  | false, true => first
  | true, true => middle
  | true, false => last
  | false, false => only

/-- A character, in either case when folded. -/
def letter (c : Char) (folded : Bool) : Regular :=
  if folded then
    let lower := c.toLower
    let upper := Text.upperChar c
    Regular.choice (Regular.char c :: Regular.char lower :: (upper.map Regular.char))
  else Regular.char c

/-- Whole components between two separators, or a separator alone. -/
def innerTree : Regular :=
  .orElse (.char '/') (.concat [.char '/', .anything, .char '/'])

/-- Whole components, at a position of a list that itself stands at a position of another. -/
def treeAt (rooted : Bool) (outer? : Option Position) (position : Position) : Regular :=
  match position with
  | .middle => innerTree
  | .only => .anything
  | .first =>
    if outer? = some .middle ∨ outer? = some .last then innerTree
    else if rooted then innerTree
    else .orElse (.optional (.char '/')) (.concat [.anything, .char '/'])
  | .last =>
    if outer? = some .first ∨ outer? = some .middle then innerTree
    else .orElse (.optional (.char '/')) (.concat [.char '/', .anything])

mutual

/-- The regular pattern of tokens, with or without tokens before them. -/
def regular (outer? : Option Position) (before : Bool) : List GlobToken → Regular
  | [] => .empty
  | token :: rest =>
    (tokenRegular outer? (Position.of before (!rest.isEmpty)) token).andThen
      (regular outer? true rest)

/-- The regular pattern of a token. -/
def tokenRegular (outer? : Option Position) (position : Position) : GlobToken → Regular
  | .literal c folded => letter c folded
  | .separator => .char '/'
  | .one => .ofSet .anyButSlash
  | .many => .withinComponent
  | .tree rooted => treeAt rooted outer? position
  | .set s => .one s (some '/')
  | .choice branches => branchesRegular (outer? <|> some position) branches
  | .repetition inner lower upper? =>
    (regular (outer? <|> some position) false inner).repeated lower upper?

/-- The regular pattern of any of the branches. -/
def branchesRegular (outer? : Option Position) : List (List GlobToken) → Regular
  | [] => .nothing
  | branch :: rest => (regular outer? false branch).orElse (branchesRegular outer? rest)

end

/-- The tokens of a pattern. -/
def tokens? (pattern : String) : Option (List GlobToken) :=
  match pattern.toList with
  | [] => some []
  | cs =>
    match readTokens? (2 * cs.length + 2) [] true true ⟨cs, false⟩ with
    | some (tokens, r) => if r.rest = [] then some tokens else none
    | none => none

/-- The regular pattern of a glob, unless the glob is malformed. -/
def compile? (pattern : String) : Option Regular :=
  match tokens? pattern with
  | none => none
  | some tokens =>
    if boundariesMeet tokens || breaksRule ⟨none, none⟩ none tokens then none
    else some (regular none false tokens)

end Glob

end Grove.Pattern
