import Grove.Text.Utf8

/-!
# Names as bytes

To the system a name is a row of bytes, none of them zero, which need not be those of a text. A name
is held as a text all the same. Where its bytes are well-formed it is held as their characters; a byte
that belongs to no character is held as the character of number zero, which stands in no name, with
the character of the number of the byte behind it. So a name that is a text is held as this text.

What is shown of a name is text: each ill-formed stretch of its bytes is shown as one replacement
character. Names that differ can be shown alike.
-/

namespace Grove.Text

/-- Whether two characters hold one byte that belongs to no character. -/
def holdsByte (c d : Char) : Bool :=
  c = '\x00' && 0x80 ≤ d.toNat && d.toNat ≤ 0xFF

/-- The bytes of a name that is held as some characters. -/
def nameBytes : List Char → List UInt8
  | [] => []
  | [c] => String.utf8EncodeChar c
  | c :: d :: rest =>
    if holdsByte c d then UInt8.ofNat d.toNat :: nameBytes rest
    else String.utf8EncodeChar c ++ nameBytes (d :: rest)

/-- The number of bytes of a name. -/
def nameSize (name : String) : Nat :=
  (nameBytes name.toList).length

/-- Whether a byte of a name is zero, which makes it no name of the system. -/
def hasZero (name : String) : Bool :=
  (nameBytes name.toList).contains 0

/-- The character at the start of some bytes, if they start with one. -/
def firstChar? (bytes : List UInt8) : Option Char :=
  (ByteArray.mk (bytes.take 4).toArray).utf8DecodeChar? 0

/-- The characters that a name of some bytes is held as. -/
def held (bytes : List UInt8) : List Char :=
  match bytes with
  | [] => []
  | b :: rest =>
    match firstChar? (b :: rest) with
    | some c => c :: held (rest.drop (c.utf8Size - 1))
    | none => '\x00' :: Char.ofNat b.toNat :: held rest
termination_by bytes.length
decreasing_by
  · exact Nat.lt_succ_of_le (List.length_drop ▸ Nat.sub_le _ _)
  · exact Nat.lt_succ_self _

/-- The text that a name of some bytes is held as. -/
def ofNameBytes (bytes : List UInt8) : String :=
  match String.fromUTF8? ⟨bytes.toArray⟩ with
  | some s => s
  | none => String.ofList (held bytes)

/-- What is shown of a name. -/
def shown (name : String) : String :=
  String.ofList (decodeFrom 0 0 0 0 (nameBytes name.toList))

/-- Whether a name is a text: every byte of it belongs to a character. -/
def isText (name : String) : Bool :=
  !name.toList.contains '\x00'

end Grove.Text
