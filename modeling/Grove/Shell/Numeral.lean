/-!
# Numbers in scripts

Numbers as scripts write them. A number may stand at the start of a longer text; reading it answers
the number with the text after it. Arithmetic is on words of 64 bits, and a number too large for
them stands for the nearest word.
-/

namespace Grove.Shell

/-- The value of a digit below `base`. -/
def digit? (base : Nat) (c : Char) : Option Nat :=
  let value :=
    if c.isDigit then c.toNat - '0'.toNat
    else if 'a' ≤ c ∧ c ≤ 'f' then c.toNat - 'a'.toNat + 10
    else if 'A' ≤ c ∧ c ≤ 'F' then c.toNat - 'A'.toNat + 10
    else base
  if value < base then some value else none

/-- The number that the digits of a base write at the start of a text; none without a digit. -/
def readDigits? (base : Nat) (cs : List Char) : Option (Nat × List Char) :=
  let isOne (c : Char) : Bool := (digit? base c).isSome
  match cs.takeWhile isOne with
  | [] => none
  | digits =>
    some (digits.foldl (fun n c => base * n + (digit? base c).getD 0) 0, cs.dropWhile isOne)

/-- The number at the start of a text, whose base is sixteen after `0x`, eight after a zero and else
ten. -/
def readNumeral? (cs : List Char) : Option (Nat × List Char) :=
  match cs with
  | '0' :: x :: rest =>
    if x = 'x' ∨ x = 'X' then readDigits? 16 rest <|> some (0, x :: rest) else readDigits? 8 cs
  | _ => readDigits? 10 cs

/-- A space or a tab. -/
def isSpace (c : Char) : Bool :=
  c = ' ' || c = '\t'

/-- A character that numbers and fields may have around them. -/
def isWhite (c : Char) : Bool :=
  c = ' ' || c = '\t' || c = '\n'

/-- A number with a sign, as `read` reads the number itself, after any blanks. -/
def readSigned? (read : List Char → Option (Nat × List Char)) (cs : List Char) :
    Option (Int × List Char) :=
  match cs.dropWhile isWhite with
  | '-' :: rest => (read rest).map fun (n, rest) => (-(n : Int), rest)
  | '+' :: rest => (read rest).map fun (n, rest) => ((n : Int), rest)
  | rest => (read rest).map fun (n, rest) => ((n : Int), rest)

/-- The word nearest to a number. -/
def nearestWord (n : Int) : Int64 :=
  .ofInt (max Int64.minValue.toInt (min Int64.maxValue.toInt n))

/-- The decimal number that a whole text writes. -/
def decimal? (text : String) : Option Int64 :=
  match readSigned? (readDigits? 10) text.toList with
  | some (n, rest) => if rest.all isWhite then some (nearestWord n) else none
  | none => none

/-- The number that the value of a variable writes; none at all is zero. -/
def valueOf? (text : String) : Option Int64 :=
  if text = "" then some 0
  else
    match readSigned? readNumeral? text.toList with
    | some (n, rest) => if rest.all isWhite then some (nearestWord n) else none
    | none => none

end Grove.Shell
