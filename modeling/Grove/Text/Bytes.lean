/-!
# Lines of bytes

Bytes cut at line ends, read as text as far as they are well-formed, and text seen as its bytes.

Main statement: there is no line without a byte (`byteLines_nil`).
-/

namespace Grove.Text

/-- A line with its ending removed: a line feed, which may follow a carriage return. -/
def dropEnding (bytes : List UInt8) : List UInt8 :=
  match bytes.reverse with
  | 13 :: rest => rest.reverse
  | _ => bytes

/-- The lines of some bytes; only the last may lack its ending. -/
def byteLines (bytes : List UInt8) : List (List UInt8) :=
  let pieces := bytes.splitOn 10
  let ended := pieces.dropLast.map dropEnding
  match pieces.getLast? with
  | some (b :: rest) => ended ++ [b :: rest]
  | _ => ended

/-- No bytes make no line. -/
@[simp] theorem byteLines_nil : byteLines [] = [] := rfl

/-- The lines up to the first that is not text. -/
def textLines : List (List UInt8) → List String
  | [] => []
  | line :: rest =>
    match String.fromUTF8? ⟨line.toArray⟩ with
    | some s => s :: textLines rest
    | none => []

/-- The bytes of a text, each as the character of its number. -/
def byteChars (cs : List Char) : List Char :=
  (String.ofList cs).toUTF8.data.toList.map fun b => Char.ofNat b.toNat

end Grove.Text
