import Grove.Settings.Draft

/-!
# Reading TOML

The settings format: assignments of values to keys and headers of tables, one a line, with comments
after `#`. A date or time is read as its text in normal form. A text that is not well-formed, assigns
a key twice, or holds a whole number beyond 64 bits or a fraction beyond the floating-point numbers
has no reading.
-/

namespace Grove.Settings.Toml

/-! ### Space, comments and line ends -/

/-- Whether the character only separates. -/
def isGap (c : Char) : Bool :=
  c = ' ' || c = '\t'

/-- Whether the character may stand neither in a comment nor in a text. -/
def isControl (c : Char) : Bool :=
  c < ' ' && c != '\t' || c = '\x7f'

/-- The text without the space in front. -/
def skipGap (cs : List Char) : List Char :=
  cs.dropWhile isGap

/-- The text without the space, line ends and comments in front. -/
def skipLines (inComment : Bool) : List Char → List Char
  | [] => []
  | '\n' :: rest => skipLines false rest
  | '\r' :: '\n' :: rest => skipLines false rest
  | c :: rest =>
    if inComment then if isControl c then c :: rest else skipLines true rest
    else if isGap c then skipLines false rest
    else if c = '#' then skipLines true rest
    else c :: rest

/-- The text after the end of a line, before which only space and a comment may stand. -/
def endLine (cs : List Char) : Option (List Char) :=
  let rest := match skipGap cs with
    | '#' :: comment => comment.dropWhile fun c => !isControl c
    | rest => rest
  match rest with
  | [] => some []
  | '\n' :: rest => some rest
  | '\r' :: '\n' :: rest => some rest
  | _ => none

/-! ### Quoted texts -/

/-- A digit in base sixteen. -/
def hexValue? (c : Char) : Option Nat :=
  if c.isDigit then some (c.toNat - '0'.toNat)
  else if 'a' ≤ c ∧ c ≤ 'f' then some (c.toNat - 'a'.toNat + 10)
  else if 'A' ≤ c ∧ c ≤ 'F' then some (c.toNat - 'A'.toNat + 10)
  else none

/-- The character whose code stands in the next `width` digits in base sixteen. -/
def codePoint? (width : Nat) (cs : List Char) : Option (Char × List Char) := do
  let digits ← (cs.take width).mapM hexValue?
  if digits.length < width then none
  let code := digits.foldl (fun n d => 16 * n + d) 0
  if code.isValidChar then some (Char.ofNat code, cs.drop width) else none

/-- The character that an escape stands for, after the backslash. -/
def escape? : List Char → Option (Char × List Char)
  | 'b' :: rest => some ('\x08', rest)
  | 't' :: rest => some ('\t', rest)
  | 'n' :: rest => some ('\n', rest)
  | 'f' :: rest => some ('\x0c', rest)
  | 'r' :: rest => some ('\r', rest)
  | 'e' :: rest => some ('\x1b', rest)
  | '"' :: rest => some ('"', rest)
  | '\\' :: rest => some ('\\', rest)
  | 'x' :: rest => codePoint? 2 rest
  | 'u' :: rest => codePoint? 4 rest
  | 'U' :: rest => codePoint? 8 rest
  | _ => none

/-- A text in double quotes after the first of them. -/
def quoted? : Nat → List Char → Option (List Char × List Char)
  | 0, _ => none
  | _, [] => none
  | _ + 1, '"' :: rest => some ([], rest)
  | fuel + 1, '\\' :: rest => do
    let (c, rest) ← escape? rest
    let (cs, rest) ← quoted? fuel rest
    return (c :: cs, rest)
  | fuel + 1, c :: rest => do
    if isControl c then none
    let (cs, rest) ← quoted? fuel rest
    return (c :: cs, rest)

/-- A text in single quotes after the first of them. -/
def literal? (cs : List Char) : Option (List Char × List Char) :=
  match cs.dropWhile fun c => c != '\'' && !isControl c with
  | '\'' :: rest => some (cs.takeWhile fun c => c != '\'' && !isControl c, rest)
  | _ => none

/-- The text without a line end in front. -/
def dropLineEnd : List Char → List Char
  | '\n' :: rest => rest
  | '\r' :: '\n' :: rest => rest
  | cs => cs

/-- Whether only space stands before the next line end. -/
def endsLine (cs : List Char) : Bool :=
  match skipGap cs with
  | '\n' :: _ => true
  | '\r' :: '\n' :: _ => true
  | _ => false

/-- The text without all space and line ends in front. -/
def skipSpace : List Char → List Char
  | '\r' :: '\n' :: rest => skipSpace rest
  | c :: rest => if isGap c || c = '\n' then skipSpace rest else c :: rest
  | [] => []

/-- A text over several lines between three quotes and three quotes, after the first three. Escapes
count only between double quotes; up to two quotes may stand before the last three. -/
def multiline? (quote : Char) : Nat → List Char → Option (List Char × List Char)
  | 0, _ => none
  | _, [] => none
  | fuel + 1, '\r' :: '\n' :: rest =>
    (multiline? quote fuel rest).map fun (cs, rest) => ('\n' :: cs, rest)
  | fuel + 1, c :: rest =>
    if c = quote then
      let run := (c :: rest).takeWhile (· = quote)
      let after := (c :: rest).drop run.length
      if run.length < 3 then (multiline? quote fuel after).map fun (cs, rest) => (run ++ cs, rest)
      else if 5 < run.length then none
      else some (run.drop 3, after)
    else if c = '\\' ∧ quote = '"' then
      if endsLine rest then multiline? quote fuel (skipSpace rest)
      else do
        let (e, rest) ← escape? rest
        let (cs, rest) ← multiline? quote fuel rest
        return (e :: cs, rest)
    else if isControl c ∧ c ≠ '\n' then none
    else (multiline? quote fuel rest).map fun (cs, rest) => (c :: cs, rest)

/-- A text in quotes of any kind, if the input starts with one. -/
def text? (cs : List Char) : Option (String × List Char) :=
  let made : Option (List Char × List Char) :=
    match cs with
    | '"' :: '"' :: '"' :: rest => multiline? '"' (rest.length + 1) (dropLineEnd rest)
    | '\'' :: '\'' :: '\'' :: rest => multiline? '\'' (rest.length + 1) (dropLineEnd rest)
    | '"' :: rest => quoted? (rest.length + 1) rest
    | '\'' :: rest => literal? rest
    | _ => none
  made.map fun (text, rest) => (String.ofList text, rest)

/-! ### Keys -/

/-- Whether the character can stand in a key without quotes. -/
def isKeyChar (c : Char) : Bool :=
  c.isAlphanum || c = '_' || c = '-'

/-- A key that is not dotted. -/
def simpleKey? (cs : List Char) : Option (String × List Char) :=
  match cs with
  | '"' :: rest => (quoted? (rest.length + 1) rest).map fun (text, rest) => (String.ofList text, rest)
  | '\'' :: rest => (literal? rest).map fun (text, rest) => (String.ofList text, rest)
  | _ =>
    match cs.takeWhile isKeyChar with
    | [] => none
    | name => some (String.ofList name, cs.dropWhile isKeyChar)

/-- A dotted key, with the space after it. -/
def key? : Nat → List Char → Option (List String × List Char)
  | 0, _ => none
  | fuel + 1, cs => do
    let (name, rest) ← simpleKey? (skipGap cs)
    match skipGap rest with
    | '.' :: rest =>
      let (names, rest) ← key? fuel rest
      return (name :: names, rest)
    | rest => return ([name], rest)

/-! ### Numbers, dates and truth values -/

/-- A row of digits in which an underscore may stand between two digits, without the underscores. -/
def digits? (isDigit : Char → Bool) : List Char → Option (List Char)
  | [] => none
  | [c] => if isDigit c then some [c] else none
  | c :: '_' :: rest => if isDigit c then (digits? isDigit rest).map (c :: ·) else none
  | c :: rest => if isDigit c then (digits? isDigit rest).map (c :: ·) else none

/-- The number that a row of digits stands for in a base. -/
def inBase? (base : Nat) (cs : List Char) : Option Int := do
  let plain ← digits? (fun c => (hexValue? c).any (· < base)) cs
  let n := plain.foldl (fun n c => base * n + (hexValue? c).getD 0) 0
  if n < Decimal.signedLimit then some n else none

/-- The digits of the whole part of a number, which starts with a zero only if it is zero. -/
def wholePart? (cs : List Char) : Option (List Char) :=
  match digits? Char.isDigit cs with
  | some ['0'] => some ['0']
  | some ('0' :: _) => none
  | r => r

/-- A whole number with its sign. -/
def integer? (cs : List Char) : Option Int :=
  match cs with
  | '0' :: 'x' :: digits => inBase? 16 digits
  | '0' :: 'o' :: digits => inBase? 8 digits
  | '0' :: 'b' :: digits => inBase? 2 digits
  | _ => do
    let (negative, body) := Decimal.takeSign cs
    let n : Int := Decimal.value (← wholePart? body)
    let n := if negative then -n else n
    if Decimal.isSigned n then some n else none

/-- A floating-point number with its sign. -/
def real? (cs : List Char) : Option Float := do
  let (negative, body) := Decimal.takeSign cs
  if body = "inf".toList ∨ body = "nan".toList then
    return ← Decimal.float? cs
  let whole ← wholePart? (body.takeWhile fun c => c.isDigit || c = '_')
  let rest := body.dropWhile fun c => c.isDigit || c = '_'
  if rest.isEmpty then none
  let (fraction, rest) ← match rest with
    | '.' :: rest => do
      let digits ← digits? Char.isDigit (rest.takeWhile fun c => c.isDigit || c = '_')
      some (digits, rest.dropWhile fun c => c.isDigit || c = '_')
    | rest => some ([], rest)
  let exponent : Int ← match rest with
    | [] => some 0
    | c :: rest =>
      if c = 'e' ∨ c = 'E' then do
        let (negative, digits) := Decimal.takeSign rest
        let n : Int := Decimal.value (← digits? Char.isDigit digits)
        some (if negative then -n else n)
      else none
  let x := Decimal.nearest (Decimal.value (whole ++ fraction)) (exponent - fraction.length)
  if x.isInf then none
  return if negative then -x else x

/-- A number of exactly `width` digits. -/
def fixed? (width : Nat) (cs : List Char) : Option (Nat × List Char) :=
  let digits := cs.take width
  if digits.length = width ∧ digits.all Char.isDigit then some (Decimal.value digits, cs.drop width)
  else none

/-- The number of days in a month. -/
def daysInMonth (year month : Nat) : Nat :=
  if month = 2 then if year % 4 = 0 ∧ (year % 100 ≠ 0 ∨ year % 400 = 0) then 29 else 28
  else if month ∈ [4, 6, 9, 11] then 30
  else 31

/-- A date. -/
def date? (cs : List Char) : Option (List Char × List Char) := do
  let (year, rest) ← fixed? 4 cs
  let '-' :: rest := rest | none
  let (month, rest) ← fixed? 2 rest
  let '-' :: rest := rest | none
  let (day, rest) ← fixed? 2 rest
  if 1 ≤ month ∧ month ≤ 12 ∧ 1 ≤ day ∧ day ≤ daysInMonth year month then
    some (cs.take 10, rest)
  else none

/-- The fraction of a second in normal form: at most nine digits, without zeros at the end. -/
def fractionText (digits : List Char) : List Char :=
  match ((digits.take 9).reverse.dropWhile (· = '0')).reverse with
  | [] => []
  | kept => '.' :: kept

/-- A time of day. -/
def time? (cs : List Char) : Option (List Char × List Char) := do
  let (hour, rest) ← fixed? 2 cs
  let ':' :: rest := rest | none
  let (minute, rest) ← fixed? 2 rest
  if 23 < hour ∨ 59 < minute then none
  match rest with
  | ':' :: rest =>
    let (second, rest) ← fixed? 2 rest
    if 60 < second then none
    match rest with
    | '.' :: rest =>
      let digits := rest.takeWhile Char.isDigit
      if digits.isEmpty then none
      return (cs.take 8 ++ fractionText digits, rest.dropWhile Char.isDigit)
    | _ => return (cs.take 8, rest)
  | _ => return (cs.take 5 ++ [':', '0', '0'], rest)

/-- The distance from universal time that follows a time of day; nothing else may follow it. -/
def offset? : List Char → Option (List Char)
  | [] => some []
  | ['z'] => some ['Z']
  | ['Z'] => some ['Z']
  | c :: rest => do
    if c ≠ '+' ∧ c ≠ '-' then none
    let (hour, after) ← fixed? 2 rest
    let ':' :: after := after | none
    let (minute, after) ← fixed? 2 after
    if 23 < hour ∨ 59 < minute ∨ after ≠ [] then none
    return c :: rest

/-- A date, a time of day or both. -/
def moment? (cs : List Char) : Option String := do
  match date? cs with
  | some (date, []) => return String.ofList date
  | some (date, c :: rest) =>
    if c ≠ 'T' ∧ c ≠ 't' ∧ c ≠ ' ' then none
    let (time, rest) ← time? rest
    return String.ofList (date ++ 'T' :: time ++ (← offset? rest))
  | none =>
    let (time, rest) ← time? cs
    if rest ≠ [] then none
    return String.ofList time

/-- Whether the character can stand in a value without quotes or brackets. -/
def isWordChar (c : Char) : Bool :=
  c.isAlphanum || "_+-.:".toList.contains c

/-- The word at the start of the text. A date takes a time of day with it that follows a blank. -/
def word (cs : List Char) : List Char × List Char :=
  let first := cs.takeWhile isWordChar
  let rest := cs.dropWhile isWordChar
  match rest with
  | ' ' :: a :: more =>
    if (date? first).any (·.2 = []) ∧ a.isDigit then
      (first ++ ' ' :: (a :: more).takeWhile isWordChar, (a :: more).dropWhile isWordChar)
    else (first, rest)
  | _ => (first, rest)

/-- The value of a word. -/
def wordValue? (cs : List Char) : Option Value :=
  if cs = "true".toList then some (.flag true)
  else if cs = "false".toList then some (.flag false)
  else
    ((integer? cs).map Value.integer).or
      (((real? cs).map Value.real).or ((moment? cs).map Value.text))

/-! ### Values -/

mutual

/-- The value at the start of the text; `fuel` bounds the steps. -/
def value? : Nat → List Char → Option (Value × List Char)
  | 0, _ => none
  | fuel + 1, cs =>
    match cs with
    | '[' :: rest => (items? fuel (skipLines false rest)).map fun (xs, rest) => (.list xs, rest)
    | '\x7b' :: rest =>
      (pairs? fuel [] (skipLines false rest)).map fun (es, rest) =>
        (.table (Draft.finishEntries es), rest)
    | '"' :: _ => (text? cs).map fun (s, rest) => (.text s, rest)
    | '\'' :: _ => (text? cs).map fun (s, rest) => (.text s, rest)
    | _ => (wordValue? (word cs).1).map fun v => (v, (word cs).2)

/-- The items of a list up to its closing bracket. -/
def items? : Nat → List Char → Option (List Value × List Char)
  | 0, _ => none
  | fuel + 1, cs =>
    match cs with
    | ']' :: rest => some ([], rest)
    | _ => do
      let (v, rest) ← value? fuel cs
      match skipLines false rest with
      | ',' :: rest =>
        let (vs, rest) ← items? fuel (skipLines false rest)
        return (v :: vs, rest)
      | ']' :: rest => return ([v], rest)
      | _ => none

/-- The assignments of a table on one line up to its closing brace. -/
def pairs? : Nat → List (String × Draft) → List Char → Option (List (String × Draft) × List Char)
  | 0, _, _ => none
  | fuel + 1, es, cs =>
    match cs with
    | '\x7d' :: rest => some (es, rest)
    | _ => do
      let (names, rest) ← key? fuel cs
      let '=' :: rest := rest | none
      let (v, rest) ← value? fuel (skipGap rest)
      let es ← Draft.assign v names es
      match skipLines false rest with
      | ',' :: rest => pairs? fuel es (skipLines false rest)
      | '\x7d' :: rest => return (es, rest)
      | _ => none

end

/-! ### Documents -/

/-- The lines of a document after a header; `fuel` bounds their number. -/
def lines? : Nat → List String → List (String × Draft) → List Char → Option (List (String × Draft))
  | 0, _, _, _ => none
  | fuel + 1, header, es, cs =>
    match skipLines false cs with
    | [] => some es
    | '[' :: '[' :: rest => do
      let (names, rest) ← key? rest.length rest
      let ']' :: ']' :: rest := rest | none
      let rest ← endLine rest
      lines? fuel names (← Draft.reach Draft.openRow names es) rest
    | '[' :: rest => do
      let (names, rest) ← key? rest.length rest
      let ']' :: rest := rest | none
      let rest ← endLine rest
      lines? fuel names (← Draft.reach Draft.openTable names es) rest
    | rest => do
      let (names, rest) ← key? rest.length rest
      let '=' :: rest := rest | none
      let (v, rest) ← value? (2 * rest.length + 2) (skipGap rest)
      let rest ← endLine rest
      lines? fuel header (← Draft.assignUnder header names v es) rest

/-- The text without a byte order mark in front. -/
def dropMark : List Char → List Char
  | '\ufeff' :: rest => rest
  | cs => cs

/-- The entries of the top table of a document. -/
def read? (s : String) : Option (List (String × Value)) :=
  let cs := dropMark s.toList
  (lines? (cs.length + 1) [] [] cs).map Draft.finishEntries

end Grove.Settings.Toml
