/-!
# Reading UTF-8

Bytes as characters, where every ill-formed stretch stands for one replacement character. A stretch
is as long as it could still have started a well-formed sequence, or else one byte.
-/

namespace Grove.Text

/-- The character that stands for what cannot be read. -/
def replacement : Char := '\ufffd'

/-- What the first byte of a sequence announces: how many bytes follow, the range that the first of
them must lie in, and the bits that the byte itself carries. -/
def leadByte? (b : UInt8) : Option (Nat × UInt8 × UInt8 × Nat) :=
  if 0xC2 ≤ b ∧ b ≤ 0xDF then some (1, 0x80, 0xBF, b.toNat - 0xC0)
  else if b = 0xE0 then some (2, 0xA0, 0xBF, 0)
  else if b = 0xED then some (2, 0x80, 0x9F, 0xD)
  else if 0xE1 ≤ b ∧ b ≤ 0xEF then some (2, 0x80, 0xBF, b.toNat - 0xE0)
  else if b = 0xF0 then some (3, 0x90, 0xBF, 0)
  else if 0xF1 ≤ b ∧ b ≤ 0xF3 then some (3, 0x80, 0xBF, b.toNat - 0xF0)
  else if b = 0xF4 then some (3, 0x80, 0x8F, 4)
  else none

/-- Reads on with the first byte of a sequence; `next` reads what is behind it. -/
def startWith (b : UInt8) (next : Nat → UInt8 → UInt8 → Nat → List Char) : List Char :=
  if b < 0x80 then Char.ofNat b.toNat :: next 0 0 0 0
  else
    match leadByte? b with
    | some (owed, low, high, bits) => next owed low high bits
    | none => replacement :: next 0 0 0 0

/-- Reads characters from bytes. `owed` bytes are missing from the sequence under way, the next in
the range from `low` to `high`, and `bits` are those read of it. -/
def decodeFrom (owed : Nat) (low high : UInt8) (bits : Nat) : List UInt8 → List Char
  | [] => if owed = 0 then [] else [replacement]
  | b :: rest =>
    match owed with
    | owed + 1 =>
      if low ≤ b ∧ b ≤ high then
        let bits := 64 * bits + (b.toNat - 0x80)
        if owed = 0 then Char.ofNat bits :: decodeFrom 0 0 0 0 rest
        else decodeFrom owed 0x80 0xBF bits rest
      else replacement :: startWith b fun owed low high bits => decodeFrom owed low high bits rest
    | 0 => startWith b fun owed low high bits => decodeFrom owed low high bits rest

/-- The characters of some bytes. -/
def decode (bytes : ByteArray) : List Char :=
  decodeFrom 0 0 0 0 bytes.data.toList

end Grove.Text
