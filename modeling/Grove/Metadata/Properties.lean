import Grove.Ordered
import Grove.Text.Split
import Grove.Text.WordChar

/-!
# Property files

Lists of keys with values, one `key = value` a line. Written, the keys stand in order and are padded
to the width of the longest; read, a line counts when a word, an equals sign and a value make it up,
whatever blanks surround them.
-/

namespace Grove

/-- Keys with values, in key order, one value a key. -/
abbrev Properties := List (String × String)

namespace Properties

/-- The properties with a value under a key. -/
def put (key value : String) (ps : Properties) : Properties :=
  Ordered.put compare key value ps

/-- The properties of a list of pairs, where of equal keys the last holds. -/
def ofList (pairs : List (String × String)) : Properties :=
  pairs.foldl (fun ps (key, value) => put key value ps) []

/-! ### Writing -/

/-- The width that keys are padded to: the length of the longest as it is encoded. -/
def width (ps : Properties) : Nat :=
  ps.foldl (fun w (key, _) => max w key.utf8ByteSize) 0

/-- A key with spaces behind it up to a number of characters. -/
def padKey (width : Nat) (key : String) : String :=
  key ++ String.ofList (List.replicate (width - key.length) ' ')

/-- One line. -/
def line (width : Nat) (entry : String × String) : String :=
  padKey width entry.1 ++ " = " ++ entry.2 ++ "\n"

/-- The text of a property file. -/
def render (ps : Properties) : String :=
  String.join (ps.map (line (width ps)))

/-! ### Reading -/

/-- A space or a tab. -/
def isGap (c : Char) : Bool :=
  c = ' ' || c = '\t'

/-- A character that keys are made of. -/
def isKeyChar (c : Char) : Bool :=
  c = '-' || Text.isWordChar c

/-- The key and the value of a line. -/
def entry? (line : List Char) : Option (String × String) :=
  let body := line.dropWhile isGap
  let key := body.takeWhile isKeyChar
  if key = [] then none
  else
    match (body.dropWhile isKeyChar).dropWhile isGap with
    | '=' :: value => some (String.ofList key, String.ofList (Text.stripBoth isGap value))
    | _ => none

/-- Reads the text of a property file; lines that are no properties are passed over. -/
def parse (text : String) : Properties :=
  ofList ((text.toList.splitOn '\n').filterMap entry?)

end Properties

end Grove
