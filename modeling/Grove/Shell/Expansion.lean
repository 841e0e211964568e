import Grove.Shell.State

/-!
# Values in words

What parameters stand for, and the items that their values add to a word. Where a word can become
several fields a value without quotes is cut at separators; where one text is needed it is not.
-/

namespace Grove.Shell

/-- The value of a special or ordinary parameter. -/
def parameter? (s : State) (name : String) : Option String :=
  match name with
  | "#" => some (toString s.arguments.length)
  | "?" => some (toString s.status)
  | "$" => some "1"
  | "!" => none
  | "-" => some ""
  | "0" => some s.name
  | "*" => if s.arguments.isEmpty then none else some (" ".intercalate s.arguments)
  | "@" => if s.arguments.isEmpty then none else some (" ".intercalate s.arguments)
  | _ =>
    match name.toNat? with
    | some n => s.arguments[n - 1]?
    | none => s.value? name

/-- Where a word stands that is expanded. -/
inductive Place where
  /-- Among the words of a command: values are cut into fields. -/
  | fields
  /-- Where one text is needed. -/
  | single
  deriving DecidableEq

/-- The items of a value. -/
def valueItems (s : State) (place : Place) (quoted : Bool) (value : String) : List Item :=
  if quoted then .mark :: Item.ofText true value
  else
    match place with
    | .fields => Item.cutFields s.separators false false (Item.ofText false value)
    | .single => Item.ofText false value

/-- The arguments of the shell as one text. -/
def joined (s : State) : String :=
  let between :=
    match s.value? "IFS" with
    | some separators => String.ofList (separators.toList.take 1)
    | none => " "
  between.intercalate s.arguments

/-- The items of all arguments, each a field of its own where there are fields. -/
def argumentItems (s : State) (place : Place) (quoted : Bool) : List Item :=
  match place with
  | .fields => List.intercalate [Item.gap] (s.arguments.map (valueItems s .fields quoted))
  | .single => valueItems s .single quoted (" ".intercalate s.arguments)

/-- The items of a word that stands for a value. -/
def wordItems (s : State) (place : Place) (quoted : Bool) (items : List Item) : List Item :=
  if quoted then .mark :: items
  else
    match place with
    | .fields => Item.cutFields s.separators false false items
    | .single => items

end Grove.Shell
