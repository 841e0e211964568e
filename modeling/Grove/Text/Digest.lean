/-!
# Digests

The SHA-1 digest of some bytes: the bytes are padded to whole blocks of sixteen words, and each block
in turn is mixed into five words of state.
-/

namespace Grove.Digest

/-- The five words of state. -/
structure State where
  /-- The first word. -/
  a : UInt32
  /-- The second word. -/
  b : UInt32
  /-- The third word. -/
  c : UInt32
  /-- The fourth word. -/
  d : UInt32
  /-- The fifth word. -/
  e : UInt32

/-- The state before the first block. -/
def initial : State :=
  ⟨0x67452301, 0xefcdab89, 0x98badcfe, 0x10325476, 0xc3d2e1f0⟩

/-- A word with its bits moved up in a circle. -/
def rotate (places x : UInt32) : UInt32 :=
  (x <<< places) ||| (x >>> (32 - places))

/-- The last `width` bytes of a number, the highest first. -/
def bigEndian : Nat → Nat → List UInt8
  | 0, _ => []
  | width + 1, n => bigEndian width (n / 256) ++ [n.toUInt8]

/-- The bytes followed by a one bit, zeros up to the end of a block, and their length in bits. -/
def padded (bytes : List UInt8) : List UInt8 :=
  bytes ++ 0x80 :: List.replicate ((119 - bytes.length % 64) % 64) 0 ++
    bigEndian 8 (8 * bytes.length)

/-- The words that the bytes make up, four bytes each. -/
def words : List UInt8 → List UInt32
  | a :: b :: c :: d :: rest =>
    (a.toUInt32 <<< 24 ||| b.toUInt32 <<< 16 ||| c.toUInt32 <<< 8 ||| d.toUInt32) :: words rest
  | _ => []

/-- The eighty words that a block of sixteen is stretched to. -/
def schedule (block : Array UInt32) : Array UInt32 :=
  (List.range 64).foldl
    (fun w i => w.push (rotate 1
      (w.getD (i + 13) 0 ^^^ w.getD (i + 8) 0 ^^^ w.getD (i + 2) 0 ^^^ w.getD i 0)))
    block

/-- What one word does to the state in a round. -/
def round (s : State) (i : Nat) (word : UInt32) : State :=
  let (f, k) : UInt32 × UInt32 :=
    if i < 20 then ((s.b &&& s.c) ||| ((~~~s.b) &&& s.d), 0x5a827999)
    else if i < 40 then (s.b ^^^ s.c ^^^ s.d, 0x6ed9eba1)
    else if i < 60 then ((s.b &&& s.c) ||| (s.b &&& s.d) ||| (s.c &&& s.d), 0x8f1bbcdc)
    else (s.b ^^^ s.c ^^^ s.d, 0xca62c1d6)
  ⟨rotate 5 s.a + f + s.e + k + word, s.a, rotate 30 s.b, s.c, s.d⟩

/-- Mixes a block into the state. -/
def absorb (s : State) (block : Array UInt32) : State :=
  let w := schedule block
  let t := (List.range 80).foldl (fun t i => round t i (w.getD i 0)) s
  ⟨s.a + t.a, s.b + t.b, s.c + t.c, s.d + t.d, s.e + t.e⟩

/-- Mixes words into the state block by block. -/
def absorbAll (s : State) (ws : List UInt32) : State :=
  match ws with
  | [] => s
  | w :: rest => absorbAll (absorb s ((w :: rest).take 16).toArray) ((w :: rest).drop 16)
termination_by ws.length
decreasing_by simp only [List.length_drop, List.length_cons]; omega

/-- The twenty bytes of the digest. -/
def bytes (content : List UInt8) : List UInt8 :=
  let s := absorbAll initial (words (padded content))
  [s.a, s.b, s.c, s.d, s.e].flatMap fun w => bigEndian 4 w.toNat

/-- Bytes as pairs of hexadecimal digits. -/
def hex (bs : List UInt8) : String :=
  String.ofList (bs.flatMap fun b => [Nat.digitChar (b.toNat / 16), Nat.digitChar (b.toNat % 16)])

end Grove.Digest
