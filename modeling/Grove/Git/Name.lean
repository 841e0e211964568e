import Grove.Failure
import Grove.Text.Split

/-!
# Branch and tag names

The rules a branch name has to obey, and the tag that stands for a merged branch.
-/

namespace Grove.Git

/-- A rule that a branch name breaks. -/
inductive NameFault where
  /-- There is no name. -/
  | empty
  /-- The name reads as an option. -/
  | leadingDash
  /-- Two slashes meet, or one stands at an end. -/
  | emptyComponent
  /-- The name ends like a lock file or in a dot. -/
  | reservedEnd
  /-- The name holds text with a meaning of its own. -/
  | reservedText
  /-- A component reads as a hidden file. -/
  | leadingDot
  /-- A character is not allowed. -/
  | forbiddenCharacter
  deriving DecidableEq

/-- The wording of a broken rule. -/
def NameFault.message : NameFault → String
  | empty => "branch name is empty"
  | leadingDash => "branch name may not start with '-'"
  | emptyComponent => "branch name has an empty path component"
  | reservedEnd => "branch name may not end with '.' or '.lock'"
  | reservedText => "branch name contains '..' or '@\x7b'"
  | leadingDot => "a path component may not start with '.'"
  | forbiddenCharacter => "branch name contains a forbidden character"

/-- A control character of either block. -/
def isControl (c : Char) : Bool :=
  c < ' ' || ('\x7f' ≤ c && c ≤ '\u009f')

/-- A character that no branch name holds. -/
def isForbidden (c : Char) : Bool :=
  isControl c || Text.isBlank c || "~^:?*[\\".toList.contains c

/-- Whether the text ends in `ending`. -/
def endsWith (ending name : List Char) : Bool :=
  ending.reverse.isPrefixOf name.reverse

/-- The first rule that a branch name breaks. -/
def nameFault? (name : List Char) : Option NameFault :=
  if name = [] then some .empty
  else if name.head? = some '-' then some .leadingDash
  else if (name.splitOn '/').any List.isEmpty then some .emptyComponent
  else if endsWith ['.'] name ∨ endsWith ".lock".toList name then some .reservedEnd
  else if Text.holds "..".toList name ∨ Text.holds ['@', '\x7b'] name ∨ name = ['@'] then
    some .reservedText
  else if (name.splitOn '/').any (·.head? = some '.') then some .leadingDot
  else if name.any isForbidden then some .forbiddenCharacter
  else none

/-- Accepts the branch name given for an option, or tells which rule it breaks. -/
def checkName (option name : String) : Except SettingsError Unit :=
  match nameFault? name.toList with
  | none => .ok ()
  | some fault => .error (.invalidValue "merge" option ("'" ++ name ++ "': " ++ fault.message))

/-- The tag for a merged branch: the last component of its name. A name that starts or ends in its
only slash stands for itself. -/
def tagName (branch : String) : String :=
  match Text.cutLast '/' branch.toList with
  | some (before, after) => if before = [] ∨ after = [] then branch else String.ofList after
  | none => branch

end Grove.Git
