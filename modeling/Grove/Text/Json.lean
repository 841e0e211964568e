/-!
# Writing JSON

JSON values, with the fields of an object in a given order, and their text on one line or indented
by two spaces a level.
-/

namespace Grove

/-- A JSON value made of texts, natural numbers, lists and objects. -/
inductive Json where
  /-- A text. -/
  | text (s : String)
  /-- A natural number. -/
  | number (n : Nat)
  /-- A list. -/
  | list (items : List Json)
  /-- An object with its fields in order. -/
  | object (fields : List (String × Json))
  deriving Inhabited

namespace Json

/-- A digit of a number in base sixteen. -/
def hexDigit (n : Nat) : Char :=
  "0123456789abcdef".toList.getD n '0'

/-- A character inside a quoted text. -/
def quotedChar (c : Char) : List Char :=
  if c = '"' then ['\\', '"']
  else if c = '\\' then ['\\', '\\']
  else if c = '\n' then ['\\', 'n']
  else if c = '\r' then ['\\', 'r']
  else if c = '\t' then ['\\', 't']
  else if c = '\x08' then ['\\', 'b']
  else if c = '\x0c' then ['\\', 'f']
  else if c < ' ' then "\\u00".toList ++ [hexDigit (c.toNat / 16), hexDigit (c.toNat % 16)]
  else [c]

/-- A text in quotes. -/
def quoted (s : String) : List Char :=
  '"' :: s.toList.flatMap quotedChar ++ ['"']

mutual

/-- A value on one line. -/
def compact : Json → List Char
  | text s => quoted s
  | number n => (toString n).toList
  | list items => '[' :: compactItems items ++ [']']
  | object fields => '\x7b' :: compactFields fields ++ ['\x7d']

/-- The items of a list on one line. -/
def compactItems : List Json → List Char
  | [] => []
  | item :: rest => compact item ++ compactMoreItems rest

/-- The items after the first. -/
def compactMoreItems : List Json → List Char
  | [] => []
  | item :: rest => ',' :: compact item ++ compactMoreItems rest

/-- The fields of an object on one line. -/
def compactFields : List (String × Json) → List Char
  | [] => []
  | (name, value) :: rest => quoted name ++ ':' :: compact value ++ compactMoreFields rest

/-- The fields after the first. -/
def compactMoreFields : List (String × Json) → List Char
  | [] => []
  | (name, value) :: rest =>
    ',' :: quoted name ++ ':' :: compact value ++ compactMoreFields rest

end

/-- The start of a line at a level. -/
def newLine (level : Nat) : List Char :=
  '\n' :: List.replicate (2 * level) ' '

mutual

/-- A value at a level of indentation. -/
def indented (level : Nat) : Json → List Char
  | text s => quoted s
  | number n => (toString n).toList
  | list [] => ['[', ']']
  | list (item :: rest) =>
    '[' :: newLine (level + 1) ++ indented (level + 1) item ++ indentedItems (level + 1) rest ++
      newLine level ++ [']']
  | object [] => ['\x7b', '\x7d']
  | object ((name, value) :: rest) =>
    '\x7b' :: newLine (level + 1) ++ quoted name ++ [':', ' '] ++ indented (level + 1) value ++
      indentedFields (level + 1) rest ++ newLine level ++ ['\x7d']

/-- The items after the first. -/
def indentedItems (level : Nat) : List Json → List Char
  | [] => []
  | item :: rest => ',' :: newLine level ++ indented level item ++ indentedItems level rest

/-- The fields after the first. -/
def indentedFields (level : Nat) : List (String × Json) → List Char
  | [] => []
  | (name, value) :: rest =>
    ',' :: newLine level ++ quoted name ++ [':', ' '] ++ indented level value ++
      indentedFields level rest

end

/-- The text of a value, indented or on one line. -/
def render (v : Json) (indent : Bool) : String :=
  String.ofList (if indent then v.indented 0 else v.compact)

end Json

end Grove
