/-!
# Regular patterns

Patterns over characters, matched by derivatives: the derivative by a character is the pattern that
the rest of the text has to match. Both glob languages are read into these patterns.
-/

namespace Grove.Pattern

/-- A set of characters, given by ranges or by what it leaves out. -/
structure CharSet where
  /-- Whether the ranges are left out. -/
  negated : Bool
  /-- Ranges, ends included. -/
  ranges : List (Char × Char)
  deriving DecidableEq, Inhabited

namespace CharSet

/-- Whether the set holds the character. -/
def holds (s : CharSet) (c : Char) : Bool :=
  (s.ranges.any fun (lo, hi) => lo ≤ c && c ≤ hi) != s.negated

/-- The set of one character. -/
def single (c : Char) : CharSet :=
  ⟨false, [(c, c)]⟩

/-- All characters. -/
def any : CharSet :=
  ⟨true, []⟩

/-- All characters but the path separator. -/
def anyButSlash : CharSet :=
  ⟨true, [('/', '/')]⟩

end CharSet

/-- A pattern over characters. -/
inductive Regular where
  /-- Matches no text. -/
  | nothing
  /-- Matches the empty text. -/
  | empty
  /-- Matches one character of the set, unless it is left out. -/
  | one (set : CharSet) (but : Option Char)
  /-- Matches a text of the first followed by a text of the second. -/
  | seq (a b : Regular)
  /-- Matches what either matches. -/
  | alt (a b : Regular)
  /-- Matches any number of texts of the pattern. -/
  | star (a : Regular)
  deriving DecidableEq, Inhabited

namespace Regular

/-- One after the other, kept small. -/
def andThen (a b : Regular) : Regular :=
  if a = nothing ∨ b = nothing then nothing
  else if a = empty then b
  else if b = empty then a
  else seq a b

/-- Either, kept small. -/
def orElse (a b : Regular) : Regular :=
  if a = nothing then b
  else if b = nothing ∨ a = b then a
  else alt a b

/-- Whether the pattern matches the empty text. -/
def nullable : Regular → Bool
  | nothing => false
  | empty => true
  | one .. => false
  | seq a b => a.nullable && b.nullable
  | alt a b => a.nullable || b.nullable
  | star _ => true

/-- What the rest has to match after a character. -/
def derivative (c : Char) : Regular → Regular
  | nothing => nothing
  | empty => nothing
  | one set but => if set.holds c && but != some c then empty else nothing
  | seq a b =>
    let first := (a.derivative c).andThen b
    if a.nullable then first.orElse (b.derivative c) else first
  | alt a b => (a.derivative c).orElse (b.derivative c)
  | star a => (a.derivative c).andThen (star a)

/-- Whether the pattern matches the whole text. -/
def accepts (r : Regular) : List Char → Bool
  | [] => r.nullable
  | c :: cs => (r.derivative c).accepts cs

/-- One character. -/
def char (c : Char) : Regular :=
  one (CharSet.single c) none

/-- One character of a set. -/
def ofSet (set : CharSet) : Regular :=
  one set none

/-- Any text. -/
def anything : Regular :=
  star (ofSet CharSet.any)

/-- Any text without a path separator. -/
def withinComponent : Regular :=
  star (ofSet CharSet.anyButSlash)

/-- A pattern or nothing at all. -/
def optional (a : Regular) : Regular :=
  orElse empty a

/-- A list of patterns one after the other. -/
def concat (rs : List Regular) : Regular :=
  rs.foldr andThen empty

/-- Any of a list of patterns. -/
def choice (rs : List Regular) : Regular :=
  rs.foldr orElse nothing

/-- A pattern `n` times. -/
def times (a : Regular) : Nat → Regular
  | 0 => empty
  | n + 1 => a.andThen (times a n)

/-- A pattern at most `n` times. -/
def upTo (a : Regular) : Nat → Regular
  | 0 => empty
  | n + 1 => optional (a.andThen (upTo a n))

/-- A pattern at least `lower` times and at most `upper?` times. -/
def repeated (a : Regular) (lower : Nat) (upper? : Option Nat) : Regular :=
  (times a lower).andThen
    (match upper? with
    | none => star a
    | some upper => upTo a (upper - lower))

end Regular

end Grove.Pattern
