import Grove.Shell.Format

/-!
# Filters

Programs that make bytes of bytes, line by line or character by character. A line is what stands
between line feeds; the last may lack its own.
-/

namespace Grove.Shell

namespace Filter

/-- The lines of some bytes. -/
def lines (bytes : List UInt8) : List (List UInt8) :=
  let pieces := bytes.splitOn 10
  if pieces.getLast? = some [] then pieces.dropLast else pieces

/-- Lines as bytes. -/
def unlines (lines : List (List UInt8)) : List UInt8 :=
  lines.flatMap (· ++ [10])

/-- How many words bytes hold. -/
def wordCount (bytes : List UInt8) : Nat :=
  let isGap (b : UInt8) : Bool := b = 32 || (9 ≤ b && b ≤ 13)
  ((bytes.splitOnP isGap).filter (!·.isEmpty)).length

/-- The first lines, or all but the last. -/
def firstLines (count : Int) (bytes : List UInt8) : List UInt8 :=
  let pieces := bytes.splitOn 10
  let lines := (lines bytes).length
  let kept := if 0 ≤ count then count.toNat else lines - count.natAbs
  if lines ≤ kept then bytes else unlines (pieces.take kept)

/-- The last lines. -/
def lastLines (count : Nat) (bytes : List UInt8) : List UInt8 :=
  let pieces := bytes.splitOn 10
  List.intercalate [10] (pieces.drop ((lines bytes).length - count))

/-- The lines from one on, counted from one. -/
def linesFrom (number : Nat) (bytes : List UInt8) : List UInt8 :=
  List.intercalate [10] ((bytes.splitOn 10).drop (number - 1))

/-- The number that a line starts with. -/
def leadingNumber (line : List UInt8) : Int :=
  match readSigned? (readDigits? 10) (line.map fun b => Char.ofNat b.toNat) with
  | some (n, _) => n
  | none => 0

/-- The lines in order: by their bytes, or by the numbers they start with. -/
def sorted (byNumber reversed unique : Bool) (bytes : List UInt8) : List UInt8 :=
  let key (line : List UInt8) : Int := if byNumber then leadingNumber line else 0
  let le (a b : List UInt8) : Bool := key a < key b || (key a = key b && decide (a ≤ b))
  let ordered := (lines bytes).mergeSort fun a b => if reversed then le b a else le a b
  let same (a b : List UInt8) : Bool := if byNumber then key a = key b else a = b
  let distinct := (ordered.splitBy same).filterMap List.head?
  unlines (if unique then distinct else ordered)

/-- The runs of equal lines, each once, with their lengths on request. -/
def runs (counted repeatedOnly singleOnly : Bool) (bytes : List UInt8) : List UInt8 :=
  let groups := (lines bytes).splitBy (· == ·)
  let kept := groups.filter fun g =>
    (!repeatedOnly || 1 < g.length) && (!singleOnly || g.length = 1)
  unlines (kept.map fun g =>
    (if counted then (⟨[], 7, none⟩ : Layout).place (textBytes (toString g.length)) ++ [32] else []) ++
      g.headD [])

/-- The bytes of each line in reverse. -/
def reversed (bytes : List UInt8) : List UInt8 :=
  List.intercalate [10] ((bytes.splitOn 10).map List.reverse)

/-- The bytes from one to another. -/
def range (lo hi : UInt8) : List UInt8 :=
  (List.range (hi.toNat + 1 - lo.toNat)).map fun n => lo + n.toUInt8

/-- The bytes of a class that a set names. -/
def byteClass (name : String) : List UInt8 :=
  match name with
  | "lower" => range 97 122
  | "upper" => range 65 90
  | "digit" => range 48 57
  | "alpha" => range 65 90 ++ range 97 122
  | "alnum" => range 48 57 ++ range 65 90 ++ range 97 122
  | "space" => range 9 13 ++ [32]
  | "blank" => [9, 32]
  | _ => []

/-- The bytes of a set, in the order they are written. -/
def byteSet (fuel : Nat) (cs : List Char) : List UInt8 :=
  match fuel, cs with
  | 0, _ => []
  | _, [] => []
  | fuel + 1, '[' :: ':' :: rest =>
    byteClass (String.ofList (rest.takeWhile (· != ':'))) ++
      byteSet fuel ((rest.dropWhile (· != ':')).drop 2)
  | fuel + 1, lo :: '-' :: hi :: rest =>
    if lo = '\\' then
      let (bytes, rest) := readEscape ('-' :: hi :: rest)
      bytes.drop 1 ++ byteSet fuel rest
    else range lo.toNat.toUInt8 hi.toNat.toUInt8 ++ byteSet fuel rest
  | fuel + 1, '\\' :: rest =>
    let (bytes, rest) := readEscape rest
    bytes ++ byteSet fuel rest
  | fuel + 1, c :: rest => charBytes c ++ byteSet fuel rest

/-- Bytes with those of a set left out, or alone kept. -/
def without (inSet : UInt8 → Bool) (bytes : List UInt8) : List UInt8 :=
  bytes.filter fun b => !inSet b

/-- Bytes with runs of one byte of a set made a single byte. -/
def squeezed (inSet : UInt8 → Bool) (bytes : List UInt8) : List UInt8 :=
  (bytes.splitBy fun a b => a = b && inSet a).filterMap List.head?

/-- Bytes with each of one set replaced by its partner in the other, whose last byte stands for
those that are missing. -/
def replaced (from_ target : List UInt8) (bytes : List UInt8) : List UInt8 :=
  bytes.map fun b =>
    match from_.idxOf? b with
    | some n => (target[n]?).getD (target.getLastD b)
    | none => b

/-- Whether a list of positions such as `1,3-5` holds one. -/
def selects (list : String) (position : Nat) : Bool :=
  (list.toList.splitOn ',').any fun part =>
    match part.splitOn '-' with
    | [one] => (readDigits? 10 one).any fun (n, _) => n = position
    | [lo, hi] =>
      ((readDigits? 10 lo).all fun (n, _) => n ≤ position) &&
        ((readDigits? 10 hi).all fun (n, _) => position ≤ n)
    | _ => false

/-- The elements whose positions, counted from one, a list holds. -/
def selected {α : Type} (list : String) (xs : List α) : List α :=
  (xs.zipIdx 1).filterMap fun (x, n) => if selects list n then some x else none

/-- The chosen fields of each line; a line without a separator stays whole. -/
def fields (separator : UInt8) (list : String) (bytes : List UInt8) : List UInt8 :=
  unlines ((lines bytes).map fun line =>
    if line.contains separator then
      List.intercalate [separator] (selected list (line.splitOn separator))
    else line)

/-- The chosen bytes of each line. -/
def columns (list : String) (bytes : List UInt8) : List UInt8 :=
  unlines ((lines bytes).map (selected list))

/-- Whether some bytes occur in others. -/
def occurs (pattern : List UInt8) : List UInt8 → Bool
  | [] => pattern.isEmpty
  | b :: rest => pattern.isPrefixOf (b :: rest) || occurs pattern rest

/-- Whether a line matches a pattern, whose ends may be tied to those of the line and whose other
characters stand for themselves. -/
def lineMatches (pattern line : List UInt8) : Bool :=
  match pattern with
  | 94 :: rest =>
    match rest.reverse with
    | 36 :: inner => line = inner.reverse
    | _ => rest.isPrefixOf line
  | _ =>
    match pattern.reverse with
    | 36 :: inner => inner.reverse.isSuffixOf line
    | _ => occurs pattern line

end Filter

end Grove.Shell
