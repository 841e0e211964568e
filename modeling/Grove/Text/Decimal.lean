/-!
# Decimal numbers

Whole numbers and floating-point numbers read from decimal text, and floating-point numbers written
without an exponent in the fewest digits that read back. A finite positive number is `m * 2 ^ q`;
the decimals that read back as it lie between the midpoints to its two neighbours, the midpoints
included when `m` is even. Among the decimals with the fewest digits the nearest is written.
-/

namespace Grove.Decimal

/-! ### Reading -/

/-- The number a row of digits stands for. -/
def value (digits : List Char) : Nat :=
  digits.foldl (fun n c => 10 * n + (c.toNat - '0'.toNat)) 0

/-- One more than the greatest number of 64 bits. -/
def wordLimit : Nat := 0x10000000000000000

/-- One more than the greatest number of 64 bits of which one is the sign. -/
def signedLimit : Nat := 0x8000000000000000

/-- Whether a number fits into 64 bits of which one is the sign. -/
def isSigned (n : Int) : Bool :=
  -(signedLimit : Int) ≤ n && n < signedLimit

/-- Whether the text is a row of at least one digit. -/
def areDigits (cs : List Char) : Bool :=
  !cs.isEmpty && cs.all Char.isDigit

/-- A sign in front, as whether it is a minus, and the rest. -/
def takeSign : List Char → Bool × List Char
  | '-' :: rest => (true, rest)
  | '+' :: rest => (false, rest)
  | rest => (false, rest)

/-- A whole number without a minus. -/
def nat? (cs : List Char) : Option Nat :=
  let digits := match cs with
    | '+' :: rest => rest
    | rest => rest
  if areDigits digits then some (value digits) else none

/-- A whole number. -/
def int? (cs : List Char) : Option Int :=
  let (negative, digits) := takeSign cs
  if areDigits digits then some (if negative then -(value digits : Int) else value digits) else none

/-- How many digits the number has. -/
def digitCount (n : Nat) : Nat :=
  (Nat.toDigits 10 n).length

/-- Above this power of ten every number is infinite. -/
def greatestPower : Int := 310

/-- Below this power of ten every number is zero. -/
def leastPower : Int := -330

/-- The floating-point number nearest to `mantissa * 10 ^ exponent`. -/
def nearest (mantissa : Nat) (exponent : Int) : Float :=
  if mantissa = 0 then 0.0
  else
    let power := exponent + digitCount mantissa
    if greatestPower < power then 1.0 / 0.0
    else if power < leastPower then 0.0
    else Float.ofScientific mantissa (exponent < 0) exponent.natAbs

/-- The exponent that may follow a number; nothing else may follow it. -/
def exponent? : List Char → Option Int
  | [] => some 0
  | c :: rest => if c = 'e' ∨ c = 'E' then int? rest else none

/-- A positive floating-point number in digits: a whole part, a point and a fraction, of which one
part may be empty and the point may be missing before an empty fraction, and an exponent. -/
def unsignedFloat? (cs : List Char) : Option Float := do
  let whole := cs.takeWhile Char.isDigit
  let rest := cs.dropWhile Char.isDigit
  let (fraction, rest) := match rest with
    | '.' :: rest => (rest.takeWhile Char.isDigit, rest.dropWhile Char.isDigit)
    | rest => ([], rest)
  if whole.isEmpty && fraction.isEmpty then none
  let exponent ← exponent? rest
  return nearest (value (whole ++ fraction)) (exponent - fraction.length)

/-- The words for what digits cannot say. -/
def floatWord? (cs : List Char) : Option Float :=
  let word := String.ofList (cs.map Char.toLower)
  if word = "inf" ∨ word = "infinity" then some (1.0 / 0.0)
  else if word = "nan" then some (0.0 / 0.0)
  else none

/-- A floating-point number. -/
def float? (cs : List Char) : Option Float :=
  let (negative, body) := takeSign cs
  ((floatWord? body).or (unsignedFloat? body)).map fun x => if negative then -x else x

/-! ### Writing -/

/-- A finite positive number `mantissa * 2 ^ exponent`. -/
structure Binary where
  /-- The whole number that is scaled. -/
  mantissa : Nat
  /-- The power of two it is scaled by. -/
  exponent : Int
  /-- Whether the next number below is half as far away as the next above. -/
  narrowBelow : Bool

/-- The parts of a positive number from its bits. -/
def Binary.ofBits (bits : Nat) : Binary :=
  let unit := 0x10000000000000
  let fraction := bits % unit
  match bits / unit % 2048 with
  | 0 => ⟨fraction, -1074, false⟩
  | biased + 1 => ⟨unit + fraction, biased - 1074, fraction = 0 ∧ biased ≠ 0⟩

namespace Binary

/-- Numerator and denominator of `quarters` quarters of the last binary place, measured in steps of
`10 ^ scale`. -/
def inSteps (x : Binary) (scale : Int) (quarters : Nat) : Nat × Nat :=
  let power := x.exponent - 2
  (quarters * Nat.pow 2 power.toNat * Nat.pow 10 (-scale).toNat,
    Nat.pow 10 scale.toNat * Nat.pow 2 (-power).toNat)

/-- Whether `steps` times `10 ^ scale` reads back as the number. -/
def readsBack (x : Binary) (scale : Int) (steps : Nat) : Bool :=
  let low := x.inSteps scale (4 * x.mantissa - if x.narrowBelow then 1 else 2)
  let high := x.inSteps scale (4 * x.mantissa + 2)
  if x.mantissa % 2 = 0 then low.1 ≤ steps * low.2 && steps * high.2 ≤ high.1
  else low.1 < steps * low.2 && steps * high.2 < high.1

/-- The multiple of `10 ^ scale` that reads back as the number, the nearer one of two. -/
def onScale? (x : Binary) (scale : Int) : Option Nat :=
  let exact := x.inSteps scale (4 * x.mantissa)
  let below := exact.1 / exact.2
  match x.readsBack scale below, x.readsBack scale (below + 1) with
  | true, false => some below
  | false, true => some (below + 1)
  | false, false => none
  | true, true => some (if 2 * (exact.1 % exact.2) < exact.2 then below else below + 1)

/-- The scales to try, widest first. -/
def scales : List Int :=
  (List.range 700).map fun (i : Nat) => greatestPower - i

/-- The digits and the scale of the shortest decimal that reads back. -/
def shortest (x : Binary) : Nat × Int :=
  (scales.findSome? fun scale => (x.onScale? scale).map (·, scale)).getD (0, 0)

end Binary

/-- The text of `steps * 10 ^ scale` without an exponent. -/
def positional (steps : Nat) (scale : Int) : String :=
  let digits := Nat.toDigits 10 steps
  let places := (-scale).toNat
  let digits := List.replicate (places + 1 - digits.length) '0' ++ digits ++
    List.replicate scale.toNat '0'
  let whole := digits.take (digits.length - places)
  let fraction := digits.drop (digits.length - places)
  String.ofList (if fraction.isEmpty then whole else whole ++ '.' :: fraction)

/-- The text of a floating-point number. -/
def floatText (x : Float) : String :=
  let bits := x.toBits.toNat
  if x.isNaN then "NaN"
  else
    let sign := if bits < signedLimit then "" else "-"
    let size := bits % signedLimit
    if x.isInf then sign ++ "inf"
    else if size = 0 then sign ++ "0"
    else
      let (steps, scale) := (Binary.ofBits size).shortest
      sign ++ positional steps scale

example : positional 15 (-1) = "1.5" := by decide
example : positional 1 3 = "1000" := by decide
example : positional 5 (-3) = "0.005" := by decide
example : int? "-12".toList = some (-12) := by decide
example : nat? "+3".toList = some 3 := by decide

end Grove.Decimal
