import Grove.Shell.Numeral
import Grove.Text.Name

/-!
# Printing by a format

Texts with backslashes, and formats with directives, as bytes. A format is used again as long as
arguments are left for it; an argument that is missing is empty, or zero. Values of a shell are held as
names are, so that one of other bytes than those of a text is printed as these bytes.
-/

namespace Grove.Shell

/-- The bytes of a character. -/
def charBytes (c : Char) : List UInt8 :=
  (String.singleton c).toUTF8.data.toList

/-- The bytes of a text. -/
def textBytes (text : String) : List UInt8 :=
  text.toUTF8.data.toList

/-- The bytes of a value. -/
def valueBytes (value : String) : List UInt8 :=
  Text.nameBytes value.toList

/-- Bytes from a list. -/
def bytesOf (bytes : List UInt8) : ByteArray :=
  ⟨bytes.toArray⟩

/-! ### Backslashes -/

/-- At most `count` octal digits at the start of the text, as a byte, with the rest. -/
def octalByte (count : Nat) (value : Nat) (cs : List Char) : UInt8 × List Char :=
  match count, cs with
  | count + 1, c :: rest =>
    match digit? 8 c with
    | some d => octalByte count (8 * value + d) rest
    | none => (value.toUInt8, cs)
  | _, _ => (value.toUInt8, cs)

/-- The byte that a letter after a backslash stands for. -/
def escapedByte? (c : Char) : Option UInt8 :=
  match c with
  | 'a' => some 7
  | 'b' => some 8
  | 'e' => some 27
  | 'f' => some 12
  | 'n' => some 10
  | 'r' => some 13
  | 't' => some 9
  | 'v' => some 11
  | '\\' => some 92
  | _ => none

/-- The bytes of what follows a backslash, with the rest. A backslash without a meaning stays. -/
def readEscape (cs : List Char) : List UInt8 × List Char :=
  match cs with
  | [] => ([92], [])
  | c :: rest =>
    match escapedByte? c with
    | some b => ([b], rest)
    | none =>
      if (digit? 8 c).isSome then
        let (b, rest) := octalByte 3 0 cs
        ([b], rest)
      else ([92], cs)

/-- The bytes of a text with backslashes, where an octal number may have a zero in front of its three
digits. The second part tells that the text asked for nothing more to be printed. -/
def escaped (fuel : Nat) (cs : List Char) : List UInt8 × Bool :=
  match fuel, cs with
  | 0, _ => ([], false)
  | _, [] => ([], false)
  | _, '\\' :: 'c' :: _ => ([], true)
  | fuel + 1, '\\' :: rest =>
    let digits :=
      match rest with
      | '0' :: d :: _ => if (digit? 8 d).isSome then rest.tail else rest
      | _ => rest
    let (bytes, rest) := readEscape digits
    let (more, stop) := escaped fuel rest
    (bytes ++ more, stop)
  | fuel + 1, '\x00' :: c :: rest =>
    let (more, stop) := escaped fuel rest
    (Text.nameBytes ['\x00', c] ++ more, stop)
  | fuel + 1, c :: rest =>
    let (more, stop) := escaped fuel rest
    (charBytes c ++ more, stop)

/-! ### Directives -/

/-- How a value is laid out. -/
structure Layout where
  /-- The signs between the percent sign and the width. -/
  flags : List Char
  /-- The least number of bytes. -/
  width : Nat
  /-- The precision, if it is given. -/
  precision? : Option Nat

namespace Layout

/-- Whether a flag is set. -/
def has (l : Layout) (flag : Char) : Bool :=
  l.flags.contains flag

/-- Bytes in a field of the width. -/
def place (l : Layout) (bytes : List UInt8) : List UInt8 :=
  let missing := List.replicate (l.width - bytes.length) (32 : UInt8)
  if l.has '-' then bytes ++ missing else missing ++ bytes

/-- A number of some digits after what stands in front of it. Zeros fill it up to the precision, or
up to the width if that is asked for. -/
def placeNumber (l : Layout) (lead : String) (digits : List Char) : List UInt8 :=
  let zeros :=
    match l.precision? with
    | some n => n - digits.length
    | none => if l.has '0' && !l.has '-' then l.width - lead.length - digits.length else 0
  l.place (textBytes lead ++ List.replicate zeros 48 ++ digits.flatMap charBytes)

/-- A number with its sign. -/
def signed (l : Layout) (n : Int64) : List UInt8 :=
  let lead := if n < 0 then "-" else if l.has '+' then "+" else if l.has ' ' then " " else ""
  l.placeNumber lead (toString n.toInt.natAbs).toList

/-- A number without a sign, in some base. -/
def unsigned (l : Layout) (base : Nat) (lead : String) (n : UInt64) : List UInt8 :=
  l.placeNumber (if l.has '#' ∧ n ≠ 0 then lead else "") (Nat.toDigits base n.toNat)

end Layout

/-- What a format made of arguments. -/
structure Formatted where
  /-- What is printed. -/
  bytes : List UInt8
  /-- The arguments that are left. -/
  left : List String
  /-- The complaints about arguments. -/
  complaints : List String
  /-- Why the format makes no sense, if it does not. -/
  fault? : Option String
  /-- Whether nothing more is to be printed. -/
  stopped : Bool

namespace Formatted

/-- Nothing printed yet. -/
def start (args : List String) : Formatted :=
  ⟨[], args, [], none, false⟩

/-- What was printed and complained of before, and then the rest. -/
def after (f : Formatted) (bytes : List UInt8) (complaints : List String) : Formatted :=
  { f with bytes := bytes ++ f.bytes, complaints := complaints ++ f.complaints }

end Formatted

/-- The number that an argument writes, with the complaint if it writes none. A quote stands before a
character whose code is meant. -/
def argumentNumber (arg : String) : Int × List String :=
  match arg.toList with
  | [] => (0, [])
  | '\'' :: rest => ((((rest.head?.map charBytes).getD []).headD 0).toNat, [])
  | '"' :: rest => ((((rest.head?.map charBytes).getD []).headD 0).toNat, [])
  | cs =>
    match readSigned? readNumeral? cs with
    | none => (0, [arg ++ ": expected numeric value"])
    | some (n, rest) =>
      if !rest.isEmpty then (n, [arg ++ ": not completely converted"])
      else if (nearestWord n).toInt ≠ n then (n, [arg ++ ": Numerical result out of range"])
      else (n, [])

/-- A number of a directive: digits, or a star for the next argument. -/
def readMeasure (cs : List Char) (args : List String) : Option Nat × List Char × List String :=
  match cs with
  | '*' :: rest => (some (argumentNumber (args.headD "")).1.toNat, rest, args.tail)
  | _ =>
    match readDigits? 10 cs with
    | some (n, rest) => (some n, rest, args)
    | none => (none, cs, args)

/-- The layout at the start of a directive, with the rest and the arguments that are left. -/
def readLayout (cs : List Char) (args : List String) : Layout × List Char × List String :=
  let isFlag (c : Char) : Bool := "#-+ 0".toList.contains c
  let flags := cs.takeWhile isFlag
  let (width?, cs, args) := readMeasure (cs.dropWhile isFlag) args
  match cs with
  | '.' :: rest =>
    let (precision?, rest, args) := readMeasure rest args
    (⟨flags, width?.getD 0, some (precision?.getD 0)⟩, rest, args)
  | _ => (⟨flags, width?.getD 0, none⟩, cs, args)

/-- What a directive of some kind makes of an argument, with complaints and whether to stop; none for
a kind that there is not. -/
def directive? (l : Layout) (kind : Char) (arg : String) :
    Option (List UInt8 × List String × Bool) :=
  let (n, complaints) := argumentNumber arg
  let word := nearestWord n
  let cut (bytes : List UInt8) : List UInt8 :=
    match l.precision? with
    | some n => bytes.take n
    | none => bytes
  match kind with
  | 's' => some (l.place (cut (valueBytes arg)), [], false)
  | 'b' =>
    let (bytes, stop) := escaped (arg.length + 1) arg.toList
    some (l.place (cut bytes), [], stop)
  | 'c' => some (l.place [(valueBytes arg).headD 0], [], false)
  | 'd' | 'i' => some (l.signed word, complaints, false)
  | 'u' => some (l.unsigned 10 "" word.toUInt64, complaints, false)
  | 'o' => some (l.unsigned 8 "0" word.toUInt64, complaints, false)
  | 'x' => some (l.unsigned 16 "0x" word.toUInt64, complaints, false)
  | 'X' =>
    some ((l.unsigned 16 "0x" word.toUInt64).map fun b => if 97 ≤ b ∧ b ≤ 122 then b - 32 else b,
      complaints, false)
  | _ => none

/-- One pass over a format. -/
def formatOnce (fuel : Nat) (cs : List Char) (args : List String) : Formatted :=
  match fuel, cs with
  | 0, _ => .start args
  | _, [] => .start args
  | fuel + 1, '%' :: '%' :: rest => (formatOnce fuel rest args).after [37] []
  | fuel + 1, '%' :: rest =>
    let (layout, after, remaining) := readLayout rest args
    match after with
    | [] => { Formatted.start args with fault? := some "missing format character" }
    | kind :: after =>
      match directive? layout kind (remaining.headD "") with
      | none =>
        let text := String.ofList ('%' :: rest.take (rest.length - after.length))
        { Formatted.start args with fault? := some (text ++ ": invalid directive") }
      | some (bytes, complaints, true) => ⟨bytes, remaining.tail, complaints, none, true⟩
      | some (bytes, complaints, false) =>
        (formatOnce fuel after remaining.tail).after bytes complaints
  | fuel + 1, '\\' :: rest =>
    let (bytes, rest) := readEscape rest
    (formatOnce fuel rest args).after bytes []
  | fuel + 1, '\x00' :: c :: rest =>
    (formatOnce fuel rest args).after (Text.nameBytes ['\x00', c]) []
  | fuel + 1, c :: rest => (formatOnce fuel rest args).after (charBytes c) []

/-- Passes over a format until the arguments are used up. -/
def formatAll (fuel : Nat) (format : List Char) (args : List String) : Formatted :=
  match fuel with
  | 0 => .start []
  | fuel + 1 =>
    let once := formatOnce (format.length + 1) format args
    if once.stopped || once.fault?.isSome || once.left.isEmpty || once.left.length = args.length then
      once
    else (formatAll fuel format once.left).after once.bytes once.complaints

end Grove.Shell
