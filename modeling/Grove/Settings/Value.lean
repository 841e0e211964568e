import Grove.Text.Decimal

/-!
# Setting values

The values that sources of settings hold, and what each can be taken for. A value is taken for the
kind that a setting needs when it says it in another form: `"yes"` and `1` are taken for true, `true`
for 1, numbers and truth values for their text. Nothing is taken for a list but a list.
-/

namespace Grove.Settings

/-- A value. -/
inductive Value where
  /-- Nothing, in a list that was filled up to a later place. -/
  | absent
  /-- A truth value. -/
  | flag (b : Bool)
  /-- A whole number. -/
  | integer (n : Int)
  /-- A floating-point number. -/
  | real (x : Float)
  /-- A text. -/
  | text (s : String)
  /-- A list. -/
  | list (items : List Value)
  /-- A table with its entries in order, one a key. -/
  | table (entries : List (String × Value))
  deriving Inhabited

namespace Value

/-- Words for true. -/
def trueWords : List String := ["true", "on", "yes"]

/-- Words for false. -/
def falseWords : List String := ["false", "off", "no"]

/-- A text in lower case. -/
def lower (s : String) : String :=
  String.ofList (s.toList.map Char.toLower)

/-- The truth value that a value is taken for. -/
def asFlag? : Value → Option Bool
  | flag b => some b
  | integer n => some (n != 0)
  | real x => some (x != 0.0)
  | text s =>
    if lower s = "1" ∨ lower s ∈ trueWords then some true
    else if lower s = "0" ∨ lower s ∈ falseWords then some false
    else none
  | _ => none

/-- The greatest number that settings hold. -/
def maxNat : Nat := Decimal.wordLimit - 1

/-- The number without a sign that a value is taken for. A fraction is rounded, a half away from
zero, and what lies outside the range is moved to its nearer end. -/
def asNat? : Value → Option Nat
  | flag b => some b.toNat
  | integer n => if n < 0 then none else some n.toNat
  | real x => some x.round.toUInt64.toNat
  | text s =>
    if lower s ∈ trueWords then some 1
    else if lower s ∈ falseWords then some 0
    else (Decimal.nat? s.toList).filter (· ≤ maxNat)
  | _ => none

/-- The text that a value is taken for. -/
def asText? : Value → Option String
  | flag b => some (if b then "true" else "false")
  | integer n => some (toString n)
  | real x => some (Decimal.floatText x)
  | text s => some s
  | _ => none

/-- The texts that the items of a list are taken for. -/
def asTexts? : Value → Option (List String)
  | list items => items.mapM asText?
  | _ => none

/-- The entries of a table; none for anything else. -/
def entries : Value → List (String × Value)
  | table es => es
  | _ => []

@[simp] theorem entries_table (es : List (String × Value)) : (table es).entries = es :=
  rfl

/-- The items of a list; none for anything else. -/
def items : Value → List Value
  | list xs => xs
  | _ => []

end Value

end Grove.Settings
